import EdgarSec.Xbrl.GroupOrder
import EdgarSec.Xbrl.DimensionalResolution

/-! What a resolution comes to whichever group of a concept is merged first: a set of figures, with
the same keys for all of them, unless the order decides. -/

namespace EdgarSec.Xbrl.CounterSolver
open Lib

/-! ## What a resolution can come to -/

structure Prospect where
  figures : Finset (ℚ × ℚ)
  keys : Finset SemanticKey
  balanced : Bool
deriving DecidableEq

inductive Settling where
  | unsettled
  | failed
  | ready (prospect : Prospect)
deriving DecidableEq

def settleGroups (groups : List Group) : Settling :=
  if groups ≠ [] ∧ AgreePairwise groups then
    .ready ⟨groups.toFinset.image fun g => (g.total, spreadFrom g groups), groupKeys groups, true⟩
  else if ∀ groups' ∈ groups.permutations, mergeGroups groups' = none then .failed
  else .unsettled

def Settling.add (sum : Settling) (weight : ℚ) (child : Settling) : Settling :=
  match sum, child with
  | .failed, _ => .failed
  | _, .failed => .failed
  | .unsettled, _ => .unsettled
  | _, .unsettled => .unsettled
  | .ready p, .ready c =>
    .ready ⟨Finset.image₂ (fun x y => (x.1 + y.1 * weight, x.2 + |weight| * y.2)) p.figures c.figures,
      p.keys ∪ c.keys, true⟩

def settleChildren (child : String → Settling) (arcs : List (CalculationArc ℚ)) : Settling :=
  arcs.foldl (fun sum arc => sum.add arc.weight (child arc.childQname)) (.ready ⟨{(0, 0)}, ∅, true⟩)

def Settling.consumed : Settling → Finset SemanticKey
  | .ready p => if p.balanced then p.keys else ∅
  | _ => ∅

section Settle
variable (fs : List Figure) (arcs : List (CalculationArc ℚ)) (context : ContextKey)

def settleAggregate (concept : String) : Settling :=
  match finerGroups fs concept context with
  | none => .failed
  | some groups => settleGroups groups

def settleUnsummed (concept : String) (report : Report) (balanced : Bool) : Settling :=
  match report.reported with
  | some value => .ready ⟨{(value, report.tolerance fs context)}, report.keys context, balanced⟩
  | none => settleAggregate fs context concept

def settleBalance (report : Report) (sum : Prospect) : Settling :=
  match report.reported with
  | none => .ready ⟨sum.figures.image fun x => (round4 x.1, x.2), sum.keys, true⟩
  | some value =>
    if ∀ x ∈ sum.figures, |x.1 - value| ≤ report.tolerance fs context + x.2 then
      .ready ⟨{(value, report.tolerance fs context)}, report.keys context ∪ sum.keys, true⟩
    else if ∀ x ∈ sum.figures, ¬ |x.1 - value| ≤ report.tolerance fs context + x.2 then
      .ready ⟨{(value, report.tolerance fs context)}, report.keys context, false⟩
    else .unsettled

def settleFrom (child : String → Settling) (concept : String) : Settling :=
  match reportOf fs context concept with
  | none => .failed
  | some report =>
    if (childArcs arcs concept report.qname).isEmpty then settleUnsummed fs context concept report true
    else
      match settleChildren child (childArcs arcs concept report.qname) with
      | .ready sum => settleBalance fs context report sum
      | .failed => settleUnsummed fs context concept report false
      | .unsettled => .unsettled

def settle : Nat → Finset String → String → Settling
  | 0, _, _ => .failed
  | n + 1, visited, concept =>
    if concept ∈ visited then .failed
    else settleFrom fs arcs context (settle n (insert concept visited)) concept

end Settle

/-! ## The resolution is one of those followed -/

def Fits : Settling → Option Resolution → Prop
  | .unsettled, _ => True
  | .failed, result => result = none
  | .ready p, result => ∃ r, result = some r ∧ (r.value, r.spread) ∈ p.figures ∧ r.keys = p.keys ∧
      r.balanced = p.balanced

theorem fits_ready {p : Prospect} {r : Resolution} (hfigures : (r.value, r.spread) ∈ p.figures)
    (hkeys : r.keys = p.keys) (hbalanced : r.balanced = p.balanced) : Fits (.ready p) (some r) :=
  ⟨r, rfl, hfigures, hkeys, hbalanced⟩

def Summed.result (sum : Summed) : Resolution := ⟨sum.total, sum.keys, true, sum.spread⟩

section Fits
variable {groups groups' : List Group}

theorem settleGroups_fits (groups : List Group) : Fits (settleGroups groups) (mergeGroups groups) := by
  unfold settleGroups
  split_ifs with hagree hnone
  · obtain ⟨hne, hagree⟩ := hagree
    cases groups with
    | nil => exact absurd rfl hne
    | cons first rest =>
      refine ⟨_, mergeGroups_of_agree hagree, ?_, rfl, rfl⟩
      apply Finset.mem_image_of_mem
      exact List.mem_toFinset.mpr List.mem_cons_self
  · exact hnone groups (List.mem_permutations.mpr (List.Perm.refl groups))
  · exact True.intro

theorem settleGroups_perm (h : groups.Perm groups') : settleGroups groups = settleGroups groups' := by
  have hne : groups ≠ [] ↔ groups' ≠ [] := by
    rw [Ne, Ne, ← List.length_eq_zero_iff, ← List.length_eq_zero_iff, h.length_eq]
  have hagree : AgreePairwise groups ↔ AgreePairwise groups' := ⟨AgreePairwise.perm h, AgreePairwise.perm h.symm⟩
  have hnone : (∀ gs ∈ groups.permutations, mergeGroups gs = none) ↔
      ∀ gs ∈ groups'.permutations, mergeGroups gs = none := by
    simp only [List.mem_permutations]
    constructor
    · exact fun hall gs hgs => hall gs (hgs.trans h.symm)
    · exact fun hall gs hgs => hall gs (hgs.trans h)
  have hspread : (fun g => (g.total, spreadFrom g groups)) = fun g : Group => (g.total, spreadFrom g groups') := by
    funext g
    rw [spreadFrom_perm h]
  simp only [settleGroups, hne, hagree, hnone, hspread, groupKeys_perm h, List.toFinset_eq_of_perm _ _ h]

theorem settleGroups_settled_iff (groups : List Group) : settleGroups groups ≠ .unsettled ↔
    ∀ groups', groups'.Perm groups → ((mergeGroups groups').isSome ↔ (mergeGroups groups).isSome) := by
  constructor
  · intro hsettled groups' hperm
    have hfits := settleGroups_fits groups
    have hfits' := settleGroups_fits groups'
    rw [settleGroups_perm hperm] at hfits'
    cases hs : settleGroups groups with
    | unsettled => exact absurd hs hsettled
    | failed =>
      rw [hs] at hfits hfits'
      have hnone : mergeGroups groups = none := hfits
      have hnone' : mergeGroups groups' = none := hfits'
      rw [hnone, hnone']
    | ready p =>
      rw [hs] at hfits hfits'
      obtain ⟨r, hr, _⟩ := hfits
      obtain ⟨r', hr', _⟩ := hfits'
      rw [hr, hr']
      simp
  · intro hsame hunsettled
    unfold settleGroups at hunsettled
    split_ifs at hunsettled with hagree hnone
    by_cases hsome : (mergeGroups groups).isSome
    · apply hagree
      constructor
      · intro hnil
        rw [hnil] at hsome
        cases hsome
      · exact agreePairwise_of_accepted fun groups' hperm => (hsame groups' hperm).mpr hsome
    · apply hnone
      intro groups' hperm
      have hrefused := mt (hsame groups' (List.mem_permutations.mp hperm)).mp hsome
      exact Option.not_isSome_iff_eq_none.mp hrefused

end Fits

section Children
variable {child : String → Option Resolution} {child' : String → Settling}

def addChild (child : String → Option Resolution) (sum : Option Summed) (arc : CalculationArc ℚ) : Option Summed :=
  sum.bind fun sum => (child arc.childQname).map fun resolved =>
    ⟨sum.total + resolved.value * arc.weight, sum.spread + |arc.weight| * resolved.spread,
      sum.keys ∪ resolved.keys⟩

theorem foldl_addChild_none (l : List (CalculationArc ℚ)) : l.foldl (addChild child) none = none := by
  induction l with
  | nil => rfl
  | cons arc l ih => exact ih

theorem addChildren_eq_foldl (l : List (CalculationArc ℚ)) (sum : Summed) :
    addChildren child sum l = l.foldl (addChild child) (some sum) := by
  induction l generalizing sum with
  | nil => rfl
  | cons arc l ih =>
    rw [addChildren, List.foldl_cons]
    cases hchild : child arc.childQname with
    | none =>
      have hstep : addChild child (some sum) arc = none := by simp [addChild, hchild]
      rw [hstep, foldl_addChild_none]
    | some resolved =>
      have hstep : addChild child (some sum) arc = some ⟨sum.total + resolved.value * arc.weight,
          sum.spread + |arc.weight| * resolved.spread, sum.keys ∪ resolved.keys⟩ := by
        simp [addChild, hchild]
      rw [hstep]
      exact ih _

theorem fits_addChild {settling : Settling} {sum : Option Summed} {arc : CalculationArc ℚ}
    (hsum : Fits settling (sum.map Summed.result)) (hchild : Fits (child' arc.childQname) (child arc.childQname)) :
    Fits (settling.add arc.weight (child' arc.childQname)) ((addChild child sum arc).map Summed.result) := by
  have hfail : Fits (child' arc.childQname) (child arc.childQname) → child' arc.childQname = .failed →
      addChild child sum arc = none := by
    intro hfits hfailed
    rw [hfailed] at hfits
    have hnone : child arc.childQname = none := hfits
    cases sum with
    | none => rfl
    | some sum => simp [addChild, hnone]
  have hnothing := hfail hchild
  cases settling with
  | failed =>
    have hnone : sum = none := Option.map_eq_none_iff.mp hsum
    rw [hnone]
    rfl
  | unsettled =>
    cases hc : child' arc.childQname with
    | failed =>
      rw [hnothing hc]
      rfl
    | unsettled => exact True.intro
    | ready c => exact True.intro
  | ready p =>
    cases hc : child' arc.childQname with
    | failed =>
      rw [hnothing hc]
      rfl
    | unsettled => exact True.intro
    | ready c =>
      rw [hc] at hchild
      obtain ⟨result, hresult, hfigures, hkeys, _⟩ := hsum
      obtain ⟨resolved, hresolved, hfigures', hkeys', _⟩ := hchild
      obtain ⟨sum, rfl, rfl⟩ := Option.map_eq_some_iff.mp hresult
      have hstep : addChild child (some sum) arc = some ⟨sum.total + resolved.value * arc.weight,
          sum.spread + |arc.weight| * resolved.spread, sum.keys ∪ resolved.keys⟩ := by
        simp [addChild, hresolved]
      rw [hstep]
      refine ⟨_, rfl, ?_, ?_, rfl⟩
      · exact Finset.mem_image₂.mpr ⟨_, hfigures, _, hfigures', rfl⟩
      · show sum.keys ∪ resolved.keys = p.keys ∪ c.keys
        rw [← hkeys, ← hkeys']
        rfl

theorem settleChildren_fits (h : ∀ concept, Fits (child' concept) (child concept)) (l : List (CalculationArc ℚ)) :
    Fits (settleChildren child' l) ((addChildren child ⟨0, 0, ∅⟩ l).map Summed.result) := by
  have hfold : ∀ (l : List (CalculationArc ℚ)) (settling : Settling) (sum : Option Summed),
      Fits settling (sum.map Summed.result) →
      Fits (l.foldl (fun sum arc => sum.add arc.weight (child' arc.childQname)) settling)
        ((l.foldl (addChild child) sum).map Summed.result) := by
    intro l
    induction l with
    | nil => exact fun _ _ hsum => hsum
    | cons arc l ih => exact fun _ _ hsum => ih _ _ (fits_addChild hsum (h arc.childQname))
  have hstart : Fits (.ready ⟨{(0, 0)}, ∅, true⟩) ((some ⟨0, 0, ∅⟩ : Option Summed).map Summed.result) :=
    ⟨_, rfl, Finset.mem_singleton_self _, rfl, rfl⟩
  rw [addChildren_eq_foldl]
  exact hfold l _ _ hstart

end Children

section Steps
variable {fs : List Figure} {arcs : List (CalculationArc ℚ)} {context : ContextKey}

theorem settleUnsummed_fits (concept : String) (report : Report) (balanced : Bool) :
    Fits (settleUnsummed fs context concept report balanced) (unsummed fs context concept report balanced) := by
  unfold settleUnsummed unsummed
  cases report.reported with
  | some value => exact ⟨_, rfl, Finset.mem_singleton_self _, rfl, rfl⟩
  | none =>
    show Fits (settleAggregate fs context concept) (finerAggregate fs concept context)
    unfold settleAggregate finerAggregate
    cases finerGroups fs concept context with
    | none => rfl
    | some groups => exact settleGroups_fits groups

theorem settleBalance_fits {report : Report} {sum : Summed} {p : Prospect}
    (hfigures : (sum.total, sum.spread) ∈ p.figures) (hkeys : sum.keys = p.keys) :
    Fits (settleBalance fs context report p) (some (balance fs context report sum)) := by
  unfold settleBalance balance
  cases report.reported with
  | none =>
    dsimp only
    have hmem : (round4 sum.total, sum.spread) ∈ p.figures.image fun x => (round4 x.1, x.2) :=
      Finset.mem_image.mpr ⟨_, hfigures, rfl⟩
    exact fits_ready hmem hkeys rfl
  | some value =>
    dsimp only
    by_cases hall : ∀ x ∈ p.figures, |x.1 - value| ≤ report.tolerance fs context + x.2
    · rw [if_pos hall, if_pos (hall _ hfigures), hkeys]
      exact ⟨_, rfl, Finset.mem_singleton_self _, rfl, rfl⟩
    rw [if_neg hall]
    by_cases hnone : ∀ x ∈ p.figures, ¬ |x.1 - value| ≤ report.tolerance fs context + x.2
    · rw [if_pos hnone, if_neg (hnone _ hfigures)]
      exact ⟨_, rfl, Finset.mem_singleton_self _, rfl, rfl⟩
    · rw [if_neg hnone]
      exact True.intro

theorem settleFrom_fits {child : String → Option Resolution} {child' : String → Settling}
    (h : ∀ concept, Fits (child' concept) (child concept)) (concept : String) :
    Fits (settleFrom fs arcs context child' concept) (resolveFrom fs arcs context child concept) := by
  unfold settleFrom resolveFrom
  cases reportOf fs context concept with
  | none => rfl
  | some report =>
    dsimp only
    by_cases hempty : (childArcs arcs concept report.qname).isEmpty
    · rw [if_pos hempty, if_pos hempty]
      exact settleUnsummed_fits concept report true
    rw [if_neg hempty, if_neg hempty]
    have hsum := settleChildren_fits h (childArcs arcs concept report.qname)
    cases hs : settleChildren child' (childArcs arcs concept report.qname) with
    | unsettled => exact True.intro
    | failed =>
      rw [hs] at hsum
      have hnone : addChildren child ⟨0, 0, ∅⟩ (childArcs arcs concept report.qname) = none :=
        Option.map_eq_none_iff.mp hsum
      rw [hnone]
      exact settleUnsummed_fits concept report false
    | ready p =>
      rw [hs] at hsum
      obtain ⟨result, hresult, hfigures, hkeys, _⟩ := hsum
      obtain ⟨sum, hsome, rfl⟩ := Option.map_eq_some_iff.mp hresult
      rw [hsome]
      exact settleBalance_fits hfigures hkeys

theorem settle_fits (n : Nat) (visited : Finset String) (concept : String) :
    Fits (settle fs arcs context n visited concept) (resolve fs arcs context n visited concept) := by
  induction n generalizing visited concept with
  | zero => rfl
  | succ n ih =>
    rw [settle, resolve]
    by_cases hmem : concept ∈ visited
    · rw [if_pos hmem, if_pos hmem]
      rfl
    · rw [if_neg hmem, if_neg hmem]
      exact settleFrom_fits (ih _) concept

theorem consumedAt_of_settled {target : String}
    (h : settle fs arcs context (resolveSteps arcs) ∅ target ≠ .unsettled) :
    consumedAt fs arcs context target = (settle fs arcs context (resolveSteps arcs) ∅ target).consumed := by
  have hfits : Fits (settle fs arcs context (resolveSteps arcs) ∅ target)
      (resolve fs arcs context (resolveSteps arcs) ∅ target) := settle_fits _ _ _
  unfold consumedAt
  cases hs : settle fs arcs context (resolveSteps arcs) ∅ target with
  | unsettled => exact absurd hs h
  | failed =>
    rw [hs] at hfits
    have hnone : resolve fs arcs context (resolveSteps arcs) ∅ target = none := hfits
    rw [hnone]
    rfl
  | ready p =>
    rw [hs] at hfits
    obtain ⟨r, hr, _, hkeys, hbalanced⟩ := hfits
    rw [hr]
    show (if r.balanced then r.keys else ∅) = if p.balanced then p.keys else ∅
    rw [hbalanced, hkeys]

end Steps

end EdgarSec.Xbrl.CounterSolver
