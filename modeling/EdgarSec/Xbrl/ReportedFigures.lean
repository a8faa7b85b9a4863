import EdgarSec.Xbrl.GapFilling

/-! Which reported figures the passes of `build_statement_graph` keep. -/

namespace EdgarSec.Xbrl
open Lib

/-! ## The figure that is selected -/

theorem outranksRank_irrefl (a : Int × Int) : outranksRank a a = false := by simp [outranksRank]

theorem outranksRank_of_lower {a b c : Int × Int} (hab : outranksRank a b = false)
    (hcb : outranksRank c b = true) : outranksRank a c = false := by
  simp only [outranksRank, Bool.or_eq_false_iff, Bool.or_eq_true, decide_eq_false_iff_not,
    decide_eq_true_eq, Bool.and_eq_true, Bool.and_eq_false_iff, beq_iff_eq, beq_eq_false_iff_ne] at *
  omega

namespace StatementInput

section Selection
variable {A V : Type} {q : StatementInput A V} {facts : List (XbrlFact V)} {fact : XbrlFact V}
  {yr : String} {v : V}

def Selects (q : StatementInput A V) (facts : List (XbrlFact V)) (yr : String) (fact : XbrlFact V) :
    Prop :=
  fact ∈ facts ∧ q.yearOf fact = yr ∧ ∀ other ∈ facts, other.value.number?.isSome = true →
    q.yearOf other = yr → outranksRank (periodRank q.dates other) (periodRank q.dates fact) = false

def Found (q : StatementInput A V) (facts : List (XbrlFact V)) (yr : String)
    (best : Dict String V × Dict String (Int × Int)) : Prop :=
  (yr ≠ "" ∧ ∃ fact v, q.Selects facts yr fact ∧ fact.value.number? = some v ∧
    best.1.get? yr = some v ∧ best.2.get? yr = some (periodRank q.dates fact)) ∨
  (best.1.get? yr = none ∧ best.2.get? yr = none ∧
    ∀ fact ∈ facts, fact.value.number?.isSome = true → q.yearOf fact = yr → yr = "")

theorem Found.skip {best best' : Dict String V × Dict String (Int × Int)} (h : q.Found facts yr best)
    (hother : fact.value.number?.isSome = true → q.yearOf fact = yr → yr = "")
    (hvalue : best'.1.get? yr = best.1.get? yr) (hrank : best'.2.get? yr = best.2.get? yr) :
    q.Found (facts ++ [fact]) yr best' := by
  rw [Found, hvalue, hrank]
  have hcases : ∀ other ∈ facts ++ [fact], other ∈ facts ∨ other = fact := by
    intro other hmem
    rw [List.mem_append, List.mem_singleton] at hmem
    exact hmem
  rcases h with ⟨hyr, selected, v, hselects, hfound⟩ | ⟨hnone, hnorank, hall⟩
  · refine Or.inl ⟨hyr, selected, v, ⟨List.mem_append_left _ hselects.1, hselects.2.1, ?_⟩, hfound⟩
    intro other hmem hnumber hyear
    rcases hcases other hmem with hmem | rfl
    · exact hselects.2.2 other hmem hnumber hyear
    · exact absurd (hother hnumber hyear) hyr
  · refine Or.inr ⟨hnone, hnorank, fun other hmem hnumber hyear => ?_⟩
    rcases hcases other hmem with hmem | rfl
    · exact hall other hmem hnumber hyear
    · exact hother hnumber hyear

theorem Found.selectFact {best : Dict String V × Dict String (Int × Int)}
    (h : q.Found facts yr best) : q.Found (facts ++ [fact]) yr (q.selectFact best fact) := by
  rw [StatementInput.selectFact]
  cases hnumber : fact.value.number? with
  | none => exact h.skip (fun hsome => by simp [hnumber] at hsome) rfl rfl
  | some v =>
    dsimp only
    by_cases hblank : q.yearOf fact = ""
    · rw [if_pos hblank]
      exact h.skip (fun _ hyear => hyear ▸ hblank) rfl rfl
    · rw [if_neg hblank]
      by_cases hyear : q.yearOf fact = yr
      · subst hyear
        have hlast : fact ∈ facts ++ [fact] := List.mem_append_right _ (List.mem_singleton_self fact)
        rcases h with ⟨_, selected, w, hselects, hw, hvalue, hrank⟩ | ⟨_, hnorank, hall⟩
        · rw [hrank, Option.all_some]
          split_ifs with hhigher
          · -- the new fact outranks the one selected so far
            refine Or.inl ⟨hblank, fact, v, ⟨hlast, rfl, ?_⟩, hnumber, by simp, by simp⟩
            intro other hmem hsome hyear
            rw [List.mem_append, List.mem_singleton] at hmem
            rcases hmem with hmem | rfl
            · exact outranksRank_of_lower (hselects.2.2 other hmem hsome hyear) hhigher
            · exact outranksRank_irrefl _
          · refine Or.inl ⟨hblank, selected, w,
              ⟨List.mem_append_left _ hselects.1, hselects.2.1, ?_⟩, hw, hvalue, hrank⟩
            intro other hmem hsome hyear
            rw [List.mem_append, List.mem_singleton] at hmem
            rcases hmem with hmem | rfl
            · exact hselects.2.2 other hmem hsome hyear
            · exact Bool.eq_false_iff.mpr hhigher
        · rw [hnorank, Option.all_none, if_pos rfl]
          refine Or.inl ⟨hblank, fact, v, ⟨hlast, rfl, ?_⟩, hnumber, by simp, by simp⟩
          intro other hmem hsome hyear
          rw [List.mem_append, List.mem_singleton] at hmem
          rcases hmem with hmem | rfl
          · exact absurd (hall other hmem hsome hyear) hblank
          · exact outranksRank_irrefl _
      · have hne : yr ≠ q.yearOf fact := fun hsame => hyear hsame.symm
        apply h.skip fun _ hsame => absurd hsame hyear
        · split_ifs
          · rw [Dict.get?_set, if_neg hne]
          · rfl
        · split_ifs
          · rw [Dict.get?_set, if_neg hne]
          · rfl

theorem reportedValues_spec {c : String} (h : (q.reportedValues c).get? yr = some v) :
    ∃ fact, q.Selects (q.factsOf c) yr fact ∧ fact.value.number? = some v := by
  have hfound : ∀ facts : List (XbrlFact V),
      q.Found facts yr (facts.foldl q.selectFact (Dict.empty, Dict.empty)) := by
    intro facts
    induction facts using List.reverseRecOn with
    | nil => exact Or.inr ⟨rfl, rfl, fun _ hmem => absurd hmem List.not_mem_nil⟩
    | append_singleton facts fact ih =>
      rw [List.foldl_append]
      exact ih.selectFact
  rcases hfound (q.factsOf c) with ⟨_, fact, w, hselects, hw, hvalue, _⟩ | ⟨hnone, _⟩
  · rw [reportedValues, hvalue] at h
    exact ⟨fact, hselects, h ▸ hw⟩
  · rw [reportedValues, hnone] at h
    exact absurd h (Option.some_ne_none v).symm

end Selection

section Reported
variable {A V : Type} {q : StatementInput A V} {c : String} {nodes : Dict String (StatementNode A V)}

/-- Every node has the figures its concept reports. -/
def Keeps (q : StatementInput A V) (nodes : Dict String (StatementNode A V)) : Prop :=
  ∀ c node, nodes.get? c = some node → ∀ yr ∈ q.sortedYears, ∀ v,
    (q.reportedValues c).get? yr = some v → node.values.get? yr = some v

def LatestIn (q : StatementInput A V) (nodes : Dict String (StatementNode A V)) : Prop :=
  ∀ latest, q.sortedYears.getLast? = some latest → ∀ c node, nodes.get? c = some node →
    node.value ≠ none → (node.values.get? latest).isSome = true

section Initial
variable [Zero V] [Sub V] [Div V] [DecidableEq V] {abs : V → V}

theorem latestIn_reportedNodes {walk : q.Iteration} : q.LatestIn (q.reportedNodes abs walk) := by
  intro latest hlatest c node hnode hvalue
  rw [get?_reportedNodes] at hnode
  split_ifs at hnode
  rw [← Option.some.inj hnode, reportedNode, hlatest] at hvalue
  rw [← Option.some.inj hnode]
  exact Option.isSome_iff_ne_none.mpr hvalue

theorem keeps_reportedNodes {walk : q.Iteration} : q.Keeps (q.reportedNodes abs walk) := by
  intro c node hnode yr _ v hv
  rw [get?_reportedNodes] at hnode
  split_ifs at hnode
  rw [← Option.some.inj hnode]
  exact hv

end Initial

theorem yearSum_latest [Zero V] [Add V] [Mul V] (h : q.LatestIn nodes) (hchildren : q.childrenValued nodes c = true)
    {latest : String} (hlatest : q.sortedYears.getLast? = some latest) :
    (yearSum nodes (q.childEdges c) latest).isSome = true := by
  refine yearSum_isSome fun e he => ?_
  have hvalued := (childrenValued_iff.mp hchildren).2 e he
  rw [valueAt, Option.isSome_bind, Option.any_eq_true] at hvalued
  obtain ⟨child, hchild, hvalue⟩ := hvalued
  rw [yearAt, hchild, Option.bind_some]
  exact h latest hlatest e.childQname child hchild (Option.isSome_iff_ne_none.mp hvalue)

end Reported

section Filling
variable {A V : Type} [Zero V] [Add V] [Sub V] [Mul V] [Div V] [DecidableEq V] {abs : V → V}
variable {q : StatementInput A V} {nodes : Dict String (StatementNode A V)}
  {node : StatementNode A V} {c : String}

/-- A concept that is filled reports no figure, unless its children have figures of that year and
the reported one is their weighted sum. -/
def Faithful (q : StatementInput A V) (nodes : Dict String (StatementNode A V)) (c : String) : Prop :=
  q.Fires nodes c → ∀ yr ∈ q.sortedYears, ∀ v, (q.reportedValues c).get? yr = some v →
    yearSum nodes (q.childEdges c) yr = some v

/-- Every node marked as derived is the weighted sum of children that are counted once each. -/
def DerivedExactly (q : StatementInput A V) (nodes : Dict String (StatementNode A V)) : Prop :=
  ∀ c node, nodes.get? c = some node → node.basis = .derivedExact →
    q.childEdges c ≠ [] ∧ ((q.childEdges c).map StatementEdge.childQname).Nodup ∧
      (∀ e ∈ q.childEdges c, (valueAt nodes e.childQname).isSome = true) ∧
      node.value = some (pySum ((q.childEdges c).map fun e =>
        e.weight * (valueAt nodes e.childQname).getD 0))

theorem Consistent.derivedExactly (h : q.Consistent abs nodes) : q.DerivedExactly nodes := by
  intro c node hnode hbasis
  rcases h c node hnode with hreported | ⟨_, hchildren, hderived⟩
  · rw [hreported] at hbasis
    exact NodeBasis.noConfusion hbasis
  · obtain ⟨haccounted, hvalued⟩ := childrenValued_iff.mp hchildren
    rw [accounted, Bool.and_eq_true, Bool.not_eq_true', List.isEmpty_eq_false_iff,
      decide_eq_true_eq] at haccounted
    refine ⟨haccounted.1, haccounted.2, hvalued, ?_⟩
    have hsum : (q.childEdges c).map (fun e => e.weight * valueOrZero nodes e.childQname) =
        (q.childEdges c).map fun e => e.weight * (valueAt nodes e.childQname).getD 0 :=
      List.map_congr_left fun e _ => by rw [valueOrZero_eq]
    rw [hderived, ← hsum, derivedNode]

theorem get?_values_derivedNode (h : q.LatestIn nodes) (hchildren : q.childrenValued nodes c = true)
    {yr : String} (hyr : yr ∈ q.sortedYears) :
    (q.derivedNode abs nodes c node).values.get? yr = yearSum nodes (q.childEdges c) yr := by
  cases hlatest : q.sortedYears.getLast? with
  | none =>
    rw [List.getLast?_eq_none_iff.mp hlatest] at hyr
    exact absurd hyr List.not_mem_nil
  | some latest =>
    have hsum := yearSum_latest h hchildren hlatest
    rw [← get?_compYears (List.mem_of_getLast? hlatest)] at hsum
    have hsome : (compYears nodes (q.childEdges c) q.sortedYears).items.isEmpty = false := by
      rw [List.isEmpty_eq_false_iff]
      intro hnil
      rw [Dict.get?, hnil] at hsum
      exact Bool.false_ne_true hsum
    rw [derivedNode]
    dsimp only
    rw [hsome, if_neg Bool.false_ne_true, get?_compYears hyr]

theorem LatestIn.visit (h : q.LatestIn nodes) : q.LatestIn (q.visit abs nodes c) := by
  intro latest hlatest d node hnode hvalue
  by_cases hfires : q.Fires nodes c
  · by_cases hsame : d = c
    · subst hsame
      obtain ⟨⟨old, hold, hnone⟩, hchildren⟩ := hfires
      rw [visit_of_fires hold hnone hchildren, Dict.get?_set, if_pos rfl] at hnode
      rw [← Option.some.inj hnode, get?_values_derivedNode h hchildren (List.mem_of_getLast? hlatest)]
      exact yearSum_latest h hchildren hlatest
    · rw [get?_visit_of_ne hsame] at hnode
      exact h latest hlatest d node hnode hvalue
  · rw [visit_of_not_fires hfires] at hnode
    exact h latest hlatest d node hnode hvalue

theorem Keeps.visit (h : q.Keeps nodes) (hlatest : q.LatestIn nodes) (hfaithful : q.Faithful nodes c) :
    q.Keeps (q.visit abs nodes c) := by
  intro d node hnode yr hyr v hv
  by_cases hfires : q.Fires nodes c
  · by_cases hsame : d = c
    · subst hsame
      have hsum := hfaithful hfires yr hyr v hv
      obtain ⟨⟨old, hold, hnone⟩, hchildren⟩ := hfires
      rw [visit_of_fires hold hnone hchildren, Dict.get?_set, if_pos rfl] at hnode
      rw [← Option.some.inj hnode, get?_values_derivedNode hlatest hchildren hyr, hsum]
    · rw [get?_visit_of_ne hsame] at hnode
      exact h d node hnode yr hyr v hv
  · rw [visit_of_not_fires hfires] at hnode
    exact h d node hnode yr hyr v hv

end Filling
end StatementInput

/-! ## A figure of an earlier year that is lost -/

def lateStatement : StatementInput Unit ℚ :=
  durationStatement [yearEnd "total" "2022" 10, yearEnd "part" "2023" 1] [⟨"total", "part", 1, none⟩]
    "total"

theorem reportedValues_spec_late : ∃ fact,
    lateStatement.Selects (lateStatement.factsOf "total") "2022" fact ∧ fact.value.number? = some 10 :=
  StatementInput.reportedValues_spec (by decide +kernel)

def lateWalk : lateStatement.Iteration := ⟨["total", "part"], by decide +kernel⟩

end EdgarSec.Xbrl
