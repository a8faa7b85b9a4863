import EdgarSec.Lib.Sweeps
import EdgarSec.Xbrl.StatementGraph

/-! What the passes of `build_statement_graph` fill: which nodes, with what, and which reported
figures they replace. -/

namespace EdgarSec.Xbrl
open Lib

section Sums
variable {A V : Type} {nodes nodes' : Dict String (StatementNode A V)} {children : List (StatementEdge V)}
  {years : List String} {c yr : String}

theorem valueAt_congr (h : nodes.get? c = nodes'.get? c) : valueAt nodes c = valueAt nodes' c := by
  rw [valueAt, h, valueAt]

variable [Zero V]

theorem valueOrZero_eq [DecidableEq V] : valueOrZero nodes c = (valueAt nodes c).getD 0 := by
  unfold valueOrZero
  cases valueAt nodes c with
  | none => rfl
  | some v =>
    dsimp only
    split_ifs with h
    · rw [Option.getD_some, h]
    · rfl

variable [Add V] [Mul V]

theorem yearSum_isSome (h : ∀ e ∈ children, (yearAt nodes e.childQname yr).isSome = true) :
    (yearSum nodes children yr).isSome = true := by
  have hall : ∀ children : List (StatementEdge V),
      (∀ e ∈ children, (yearAt nodes e.childQname yr).isSome = true) →
      (children.mapM fun e => (yearAt nodes e.childQname yr).map (e.weight * ·)).isSome = true := by
    intro children
    induction children with
    | nil => exact fun _ => rfl
    | cons e children ih =>
      intro h
      obtain ⟨v, hv⟩ := Option.isSome_iff_exists.mp (h e List.mem_cons_self)
      obtain ⟨vs, hvs⟩ := Option.isSome_iff_exists.mp (ih fun e he => h e (List.mem_cons_of_mem _ he))
      rw [List.mapM_cons, hv, hvs]
      rfl
  rw [yearSum, Option.isSome_map]
  exact hall children h

theorem yearSum_congr (h : ∀ e ∈ children, nodes.get? e.childQname = nodes'.get? e.childQname) :
    yearSum nodes children yr = yearSum nodes' children yr := by
  have hall : ∀ children : List (StatementEdge V),
      (∀ e ∈ children, nodes.get? e.childQname = nodes'.get? e.childQname) →
      (children.mapM fun e => (yearAt nodes e.childQname yr).map (e.weight * ·)) =
        children.mapM fun e => (yearAt nodes' e.childQname yr).map (e.weight * ·) := by
    intro children
    induction children with
    | nil => exact fun _ => rfl
    | cons e children ih =>
      intro h
      have hyear : yearAt nodes e.childQname yr = yearAt nodes' e.childQname yr := by
        rw [yearAt, h e List.mem_cons_self, yearAt]
      rw [List.mapM_cons, List.mapM_cons, hyear, ih fun e he => h e (List.mem_cons_of_mem _ he)]
  rw [yearSum, hall children h, yearSum]

theorem compYears_congr (h : ∀ e ∈ children, nodes.get? e.childQname = nodes'.get? e.childQname) :
    compYears nodes children years = compYears nodes' children years := by
  have hadd : addYear nodes children = addYear nodes' children := by
    funext found yr
    rw [addYear, yearSum_congr h, addYear]
  rw [compYears, hadd, compYears]

theorem get?_foldl_addYear (found : Dict String V) :
    (years.foldl (addYear nodes children) found).get? yr =
      if yr ∈ years then (yearSum nodes children yr).or (found.get? yr) else found.get? yr := by
  induction years generalizing found with
  | nil => rfl
  | cons y years ih =>
    rw [List.foldl_cons, ih, addYear]
    cases hy : yearSum nodes children y with
    | none =>
      by_cases hsame : yr = y
      · subst hsame
        simp [hy]
      · simp [hsame]
    | some v =>
      by_cases hsame : yr = y
      · subst hsame
        simp [hy]
      · simp [hsame]

theorem get?_compYears (hyr : yr ∈ years) :
    (compYears nodes children years).get? yr = yearSum nodes children yr := by
  rw [compYears, get?_foldl_addYear, if_pos hyr]
  simp [Dict.get?, Dict.empty]

end Sums

section Reported
variable {A V : Type} {q : StatementInput A V} {c : String} {nodes : Dict String (StatementNode A V)}

namespace StatementInput

theorem childrenValued_iff : q.childrenValued nodes c = true ↔
    q.accounted c = true ∧ ∀ e ∈ q.childEdges c, (valueAt nodes e.childQname).isSome = true := by
  rw [childrenValued, Bool.and_eq_true, List.all_eq_true]

/-- A concept is filled when its children are counted once each and all in the set. -/
def Fills (q : StatementInput A V) (valued : Set String) (c : String) : Prop :=
  q.accounted c = true ∧ ∀ e ∈ q.childEdges c, e.childQname ∈ valued

def valuedSet (nodes : Dict String (StatementNode A V)) : Set String :=
  {c | (valueAt nodes c).isSome = true}

theorem fills_mono (s t : Set String) (c : String) (h : s ⊆ t) (hfills : q.Fills s c) : q.Fills t c :=
  ⟨hfills.1, fun e he => h (hfills.2 e he)⟩

variable [Zero V] [Sub V] [Div V] [DecidableEq V] {abs : V → V}

theorem get?_reportedNodes {walk : q.Iteration} : (q.reportedNodes abs walk).get? c =
    if c ∈ q.relevantConcepts then some (q.reportedNode abs c) else none := by
  split_ifs with hc
  · rw [Dict.get?_eq_some_iff]
    exact List.mem_map.mpr ⟨c, walk.perm.mem_iff.mpr hc, rfl⟩
  · rw [Dict.get?_eq_none_iff]
    intro hkey
    obtain ⟨e, he, rfl⟩ := List.mem_map.mp hkey
    obtain ⟨d, hd, rfl⟩ := List.mem_map.mp he
    exact hc (walk.perm.mem_iff.mp hd)

theorem keys_reportedNodes {walk : q.Iteration} : (q.reportedNodes abs walk).keys = walk.concepts := by
  rw [Dict.keys, reportedNodes, List.map_map, Function.comp_def, List.map_id']

def reportedSet (q : StatementInput A V) (abs : V → V) : Set String :=
  {c | c ∈ q.relevantConcepts ∧ (q.reportedNode abs c).value.isSome = true}

theorem valuedSet_reportedNodes {walk : q.Iteration} :
    valuedSet (q.reportedNodes abs walk) = q.reportedSet abs := by
  ext c
  show (valueAt _ c).isSome = true ↔ _ ∧ _
  rw [valueAt, get?_reportedNodes]
  split_ifs with hc
  · simp [hc]
  · simp [hc]

/-- The concepts that `n` passes fill in every order. -/
def levelSet (q : StatementInput A V) (abs : V → V) (n : ℕ) : Set String :=
  level q.Fills {c | c ∈ q.relevantConcepts} (q.reportedSet abs) n

end StatementInput
end Reported

section Filling
variable {A V : Type} [Zero V] [Add V] [Sub V] [Mul V] [Div V] [DecidableEq V] {abs : V → V}

namespace StatementInput
variable (q : StatementInput A V) (abs)

/-! ## One node after the other -/

def visit (nodes : Dict String (StatementNode A V)) (c : String) : Dict String (StatementNode A V) :=
  match nodes.get? c with
  | some node => (q.fillItem abs (nodes, false) (c, node)).1
  | none => nodes

def Fires (nodes : Dict String (StatementNode A V)) (c : String) : Prop :=
  (∃ node, nodes.get? c = some node ∧ node.value = none) ∧ q.childrenValued nodes c = true

variable {q abs} {nodes nodes' : Dict String (StatementNode A V)} {node : StatementNode A V}
  {c d : String} {order : List String}

theorem fillItem_fst {filled : Bool} {item : String × StatementNode A V} :
    (q.fillItem abs (nodes, filled) item).1 = (q.fillItem abs (nodes, false) item).1 := by
  simp only [fillItem]
  split_ifs <;> rfl

theorem visit_of_fires (hnode : nodes.get? c = some node) (hvalue : node.value = none)
    (hchildren : q.childrenValued nodes c = true) :
    q.visit abs nodes c = nodes.set c (q.derivedNode abs nodes c node) := by
  rw [visit, hnode]
  simp [fillItem, hvalue, hchildren]

theorem visit_of_not_fires (h : ¬ q.Fires nodes c) : q.visit abs nodes c = nodes := by
  rw [visit]
  cases hnode : nodes.get? c with
  | none => rfl
  | some node =>
    dsimp only [fillItem]
    split_ifs with hfires
    · rw [Bool.and_eq_true, Option.isNone_iff_eq_none] at hfires
      exact absurd ⟨⟨node, hnode, hfires.1⟩, hfires.2⟩ h
    · rfl

theorem get?_visit_of_ne (h : d ≠ c) : (q.visit abs nodes c).get? d = nodes.get? d := by
  by_cases hfires : q.Fires nodes c
  · obtain ⟨⟨node, hnode, hvalue⟩, hchildren⟩ := hfires
    rw [visit_of_fires hnode hvalue hchildren, Dict.get?_set, if_neg h]
  · rw [visit_of_not_fires hfires]

theorem get?_visit_of_valued (hnode : nodes.get? c = some node) (hvalue : node.value ≠ none) :
    (q.visit abs nodes d).get? c = some node := by
  by_cases hsame : c = d
  · rw [← hsame, visit_of_not_fires, hnode]
    rintro ⟨⟨other, hother, hnone⟩, _⟩
    rw [hnode] at hother
    exact hvalue (Option.some.inj hother ▸ hnone)
  · rw [get?_visit_of_ne hsame, hnode]

theorem keys_visit : (q.visit abs nodes c).keys = nodes.keys := by
  by_cases hfires : q.Fires nodes c
  · obtain ⟨⟨node, hnode, hvalue⟩, hchildren⟩ := hfires
    have hkey : c ∈ nodes.keys := List.mem_map.mpr ⟨_, Dict.get?_eq_some_iff.mp hnode, rfl⟩
    rw [visit_of_fires hnode hvalue hchildren, Dict.keys, Dict.items_set_of_mem hkey, List.map_map]
    refine List.map_congr_left fun e he => ?_
    rw [Function.comp_apply]
    split_ifs with hsame
    · exact hsame.symm
    · rfl
  · rw [visit_of_not_fires hfires]

theorem keys_foldl_visit : (order.foldl (q.visit abs) nodes).keys = nodes.keys := by
  induction order generalizing nodes with
  | nil => rfl
  | cons c order ih => rw [List.foldl_cons, ih, keys_visit]

theorem get?_foldl_visit_of_valued (hnode : nodes.get? c = some node) (hvalue : node.value ≠ none) :
    (order.foldl (q.visit abs) nodes).get? c = some node := by
  induction order generalizing nodes with
  | nil => exact hnode
  | cons d order ih => exact ih (get?_visit_of_valued hnode hvalue)

/-! ## A pass visits the nodes in their order -/

theorem foldl_fillItem {items : List (String × StatementNode A V)} {filled : Bool}
    (hnodup : (items.map Prod.fst).Nodup) (hnow : ∀ item ∈ items, nodes.get? item.1 = some item.2) :
    (items.foldl (q.fillItem abs) (nodes, filled)).1 =
      (items.map Prod.fst).foldl (q.visit abs) nodes := by
  induction items generalizing nodes filled with
  | nil => rfl
  | cons item items ih =>
    obtain ⟨hout, hnodup⟩ := List.nodup_cons.mp hnodup
    have hvisit : (q.fillItem abs (nodes, filled) item).1 = q.visit abs nodes item.1 := by
      rw [fillItem_fst, visit, hnow item List.mem_cons_self]
    rw [List.foldl_cons, List.map_cons, List.foldl_cons]
    cases hnext : q.fillItem abs (nodes, filled) item with
    | mk next flag =>
      rw [hnext] at hvisit
      obtain rfl : next = q.visit abs nodes item.1 := hvisit
      apply ih hnodup
      intro other hother
      rw [get?_visit_of_ne]
      · exact hnow other (List.mem_cons_of_mem item hother)
      · intro hsame
        exact hout (hsame ▸ List.mem_map_of_mem hother)

theorem fillPass_fst : (q.fillPass abs nodes).1 = nodes.keys.foldl (q.visit abs) nodes :=
  foldl_fillItem nodes.nodup fun _ hitem => Dict.get?_eq_some_iff.mpr hitem

theorem foldl_fillItem_unfilled {items : List (String × StatementNode A V)} {filled : Bool}
    (h : (items.foldl (q.fillItem abs) (nodes, filled)).2 = false) :
    (items.foldl (q.fillItem abs) (nodes, filled)).1 = nodes ∧ filled = false := by
  induction items generalizing nodes filled with
  | nil => exact ⟨rfl, h⟩
  | cons item items ih =>
    rw [List.foldl_cons] at h ⊢
    rw [fillItem] at h ⊢
    split_ifs at h ⊢ with hfires
    · exact absurd (ih h).2 (Bool.noConfusion)
    · exact ih h

theorem fillPasses_eq {n : ℕ} : q.fillPasses abs n nodes =
    (List.replicate n nodes.keys).flatten.foldl (q.visit abs) nodes := by
  rw [foldl_repeated]
  induction n generalizing nodes with
  | zero => rfl
  | succ n ih =>
    rw [fillPasses, Function.iterate_succ_apply]
    have hkeys : (q.fillPass abs nodes).1.keys = nodes.keys := by
      rw [fillPass_fst, keys_foldl_visit]
    split_ifs with hfilled
    · rw [ih, hkeys, fillPass_fst]
    · rw [Bool.not_eq_true] at hfilled
      have hsame : (q.fillPass abs nodes).1 = nodes := (foldl_fillItem_unfilled hfilled).1
      rw [← fillPass_fst, hsame]
      have hfixed : nodes.keys.foldl (q.visit abs) nodes = nodes := fillPass_fst.symm.trans hsame
      exact (Function.iterate_fixed hfixed n).symm

theorem foldl_visit_invariant {P : Dict String (StatementNode A V) → Prop} (h : P nodes)
    (hvisit : ∀ nodes c, P nodes → P (q.visit abs nodes c)) :
    P (order.foldl (q.visit abs) nodes) := by
  induction order generalizing nodes with
  | nil => exact h
  | cons c order ih => exact ih (hvisit nodes c h)

/-! ## What a filled node holds -/

theorem derivedNode_congr
    (h : ∀ e ∈ q.childEdges c, nodes.get? e.childQname = nodes'.get? e.childQname) :
    q.derivedNode abs nodes c node = q.derivedNode abs nodes' c node := by
  have hvalues : ((q.childEdges c).map fun e => e.weight * valueOrZero nodes e.childQname) =
      (q.childEdges c).map fun e => e.weight * valueOrZero nodes' e.childQname := by
    refine List.map_congr_left fun e he => ?_
    rw [valueOrZero_eq, valueAt_congr (h e he), ← valueOrZero_eq]
  rw [derivedNode, derivedNode, hvalues, compYears_congr h]

def Consistent (q : StatementInput A V) (abs : V → V) (nodes : Dict String (StatementNode A V)) :
    Prop :=
  ∀ c node, nodes.get? c = some node → node = q.reportedNode abs c ∨
    ((q.reportedNode abs c).value = none ∧ q.childrenValued nodes c = true ∧
      node = q.derivedNode abs nodes c (q.reportedNode abs c))

theorem get?_visit_child (h : q.childrenValued nodes c = true) :
    ∀ e ∈ q.childEdges c, nodes.get? e.childQname = (q.visit abs nodes d).get? e.childQname := by
  intro e he
  have hvalued := (childrenValued_iff.mp h).2 e he
  cases hnode : nodes.get? e.childQname with
  | none =>
    rw [valueAt, hnode] at hvalued
    exact absurd hvalued Bool.false_ne_true
  | some node =>
    rw [valueAt, hnode] at hvalued
    exact (get?_visit_of_valued hnode (Option.isSome_iff_ne_none.mp hvalued)).symm

theorem childrenValued_visit (h : q.childrenValued nodes c = true) :
    q.childrenValued (q.visit abs nodes d) c = true := by
  obtain ⟨haccounted, hvalued⟩ := childrenValued_iff.mp h
  refine childrenValued_iff.mpr ⟨haccounted, fun e he => ?_⟩
  rw [← valueAt_congr (get?_visit_child h e he)]
  exact hvalued e he

theorem Consistent.visit (h : q.Consistent abs nodes) : q.Consistent abs (q.visit abs nodes c) := by
  by_cases hfires : q.Fires nodes c
  · intro d node hnode
    by_cases hsame : d = c
    · subst hsame
      obtain ⟨⟨old, hold, hvalue⟩, hchildren⟩ := hfires
      rcases h d old hold with rfl | ⟨_, _, hderived⟩
      · refine Or.inr ⟨hvalue, childrenValued_visit hchildren, ?_⟩
        rw [← derivedNode_congr (get?_visit_child hchildren)]
        rw [visit_of_fires hold hvalue hchildren, Dict.get?_set, if_pos rfl] at hnode
        exact (Option.some.inj hnode).symm
      · rw [hderived] at hvalue
        exact absurd hvalue (Option.some_ne_none _)
    · rw [get?_visit_of_ne hsame] at hnode
      rcases h d node hnode with hreported | ⟨hvalue, hchildren, hderived⟩
      · exact Or.inl hreported
      · refine Or.inr ⟨hvalue, childrenValued_visit hchildren, ?_⟩
        rw [hderived]
        exact derivedNode_congr (get?_visit_child hchildren)
  · rw [visit_of_not_fires hfires]
    exact h

theorem consistent_reportedNodes {walk : q.Iteration} :
    q.Consistent abs (q.reportedNodes abs walk) := by
  intro c node hnode
  rw [get?_reportedNodes] at hnode
  split_ifs at hnode
  exact Or.inl (Option.some.inj hnode).symm

theorem unfilled_eq (h : q.Consistent abs nodes) (hnode : nodes.get? c = some node)
    (hvalue : node.value = none) : node = q.reportedNode abs c := by
  rcases h c node hnode with hreported | ⟨_, _, hderived⟩
  · exact hreported
  · rw [hderived] at hvalue
    exact absurd hvalue (Option.some_ne_none _)

def Agree (nodes nodes' : Dict String (StatementNode A V)) : Prop :=
  ∀ c node node', nodes.get? c = some node → nodes'.get? c = some node' →
    node.value ≠ none → node'.value ≠ none → node = node'

theorem Agree.visit (h : Agree nodes nodes') (hleft : q.Consistent abs nodes)
    (hright : q.Consistent abs nodes') : Agree (q.visit abs nodes c) nodes' := by
  intro d node node' hnode hnode' hvalue hvalue'
  by_cases hfires : q.Fires nodes c
  · by_cases hsame : d = c
    · subst hsame
      obtain ⟨⟨old, hold, hnone⟩, hchildren⟩ := hfires
      rw [visit_of_fires hold hnone hchildren, Dict.get?_set, if_pos rfl] at hnode
      have hreported : old = q.reportedNode abs d := unfilled_eq hleft hold hnone
      rcases hright d node' hnode' with hnode' | ⟨_, hchildren', hderived'⟩
      · rw [hnode', ← hreported] at hvalue'
        exact absurd hnone hvalue'
      · -- both are derived, from children on which the states agree
        rw [← Option.some.inj hnode, hderived', hreported]
        apply derivedNode_congr
        intro e he
        have hvalued := (childrenValued_iff.mp hchildren).2 e he
        have hvalued' := (childrenValued_iff.mp hchildren').2 e he
        rw [valueAt, Option.isSome_bind, Option.any_eq_true] at hvalued hvalued'
        obtain ⟨m, hm, hmvalue⟩ := hvalued
        obtain ⟨m', hm', hmvalue'⟩ := hvalued'
        rw [hm, hm', h _ m m' hm hm' (Option.isSome_iff_ne_none.mp hmvalue)
          (Option.isSome_iff_ne_none.mp hmvalue')]
    · rw [get?_visit_of_ne hsame] at hnode
      exact h d node node' hnode hnode' hvalue hvalue'
  · rw [visit_of_not_fires hfires] at hnode
    exact h d node node' hnode hnode' hvalue hvalue'

theorem agree_reportedNodes {walk : q.Iteration} (h : q.Consistent abs nodes) :
    Agree (q.reportedNodes abs walk) nodes := by
  intro c node node' hnode hnode' hvalue _
  rw [get?_reportedNodes] at hnode
  split_ifs at hnode
  rw [← Option.some.inj hnode] at hvalue ⊢
  rcases h c node' hnode' with hreported | ⟨hnone, _, _⟩
  · exact hreported.symm
  · exact absurd hnone hvalue

/-! ## Which nodes have a value -/

theorem valuedSet_visit (hkey : c ∈ nodes.keys) :
    valuedSet (q.visit abs nodes c) = tryOn q.Fills (valuedSet nodes) c := by
  obtain ⟨node, hnode⟩ : ∃ node, nodes.get? c = some node := by
    cases hnode : nodes.get? c with
    | none => exact absurd hkey (Dict.get?_eq_none_iff.mp hnode)
    | some node => exact ⟨node, rfl⟩
  ext d
  show (valueAt (q.visit abs nodes c) d).isSome = true ↔
    (valueAt nodes d).isSome = true ∨ (d = c ∧ q.Fills (valuedSet nodes) c)
  by_cases hsame : d = c
  · subst hsame
    by_cases hvalue : node.value = none
    · have hnow : valueAt nodes d = none := by rw [valueAt, hnode, Option.bind_some, hvalue]
      by_cases hchildren : q.childrenValued nodes d = true
      · rw [visit_of_fires hnode hvalue hchildren, valueAt, Dict.get?_set, if_pos rfl]
        exact iff_of_true rfl (Or.inr ⟨rfl, childrenValued_iff.mp hchildren⟩)
      · rw [visit_of_not_fires fun h => hchildren h.2, hnow]
        refine iff_of_false Bool.false_ne_true ?_
        rintro (hnone | ⟨_, hfills⟩)
        · exact Bool.false_ne_true hnone
        · exact hchildren (childrenValued_iff.mpr hfills)
    · have hnow : (valueAt nodes d).isSome = true := by
        rw [valueAt, hnode, Option.bind_some, Option.isSome_iff_ne_none]
        exact hvalue
      have hthen : (valueAt (q.visit abs nodes d) d).isSome = true := by
        rwa [valueAt_congr ((get?_visit_of_valued hnode hvalue).trans hnode.symm)]
      exact iff_of_true hthen (Or.inl hnow)
  · rw [valueAt_congr (get?_visit_of_ne hsame)]
    exact ⟨Or.inl, fun h => h.resolve_right fun hc => hsame hc.1⟩

theorem valuedSet_foldl_visit (hkeys : ∀ c ∈ order, c ∈ nodes.keys) :
    valuedSet (order.foldl (q.visit abs) nodes) = order.foldl (tryOn q.Fills) (valuedSet nodes) := by
  induction order generalizing nodes with
  | nil => rfl
  | cons c order ih =>
    rw [List.foldl_cons, List.foldl_cons, ← valuedSet_visit (hkeys c List.mem_cons_self)]
    apply ih
    intro d hd
    rw [keys_visit]
    exact hkeys d (List.mem_cons_of_mem c hd)

theorem nodes_buildStatementGraph (walk : q.Iteration) : (q.buildStatementGraph abs walk).nodes =
    (List.replicate 5 walk.concepts).flatten.foldl (q.visit abs) (q.reportedNodes abs walk) := by
  rw [buildStatementGraph, fillPasses_eq, keys_reportedNodes]

theorem valuedSet_buildStatementGraph {walk : q.Iteration} :
    valuedSet (q.buildStatementGraph abs walk).nodes =
      (sweep q.Fills walk.concepts)^[5] (q.reportedSet abs) := by
  rw [nodes_buildStatementGraph, valuedSet_foldl_visit, valuedSet_reportedNodes, foldl_repeated]
  · rfl
  · intro c hc
    obtain ⟨concepts, hconcepts, hc⟩ := List.mem_flatten.mp hc
    rw [keys_reportedNodes]
    rwa [List.eq_of_mem_replicate hconcepts] at hc

theorem consistent_buildStatementGraph {walk : q.Iteration} :
    q.Consistent abs (q.buildStatementGraph abs walk).nodes := by
  rw [nodes_buildStatementGraph]
  exact foldl_visit_invariant consistent_reportedNodes fun _ _ h => h.visit

theorem agree_buildStatementGraph {walk walk' : q.Iteration} :
    Agree (q.buildStatementGraph abs walk).nodes (q.buildStatementGraph abs walk').nodes := by
  have hright : q.Consistent abs (q.buildStatementGraph abs walk').nodes :=
    consistent_buildStatementGraph
  have hboth : q.Consistent abs (q.buildStatementGraph abs walk).nodes ∧
      Agree (q.buildStatementGraph abs walk).nodes (q.buildStatementGraph abs walk').nodes := by
    rw [nodes_buildStatementGraph walk]
    apply foldl_visit_invariant (P := fun nodes => q.Consistent abs nodes ∧
      Agree nodes (q.buildStatementGraph abs walk').nodes)
    · exact ⟨consistent_reportedNodes, agree_reportedNodes hright⟩
    · exact fun nodes c h => ⟨h.1.visit, h.2.visit h.1 hright⟩
  exact hboth.2

theorem get?_buildStatementGraph_eq_none {walk : q.Iteration} :
    (q.buildStatementGraph abs walk).nodes.get? c = none ↔ c ∉ q.relevantConcepts := by
  rw [Dict.get?_eq_none_iff, nodes_buildStatementGraph, keys_foldl_visit, keys_reportedNodes,
    walk.perm.mem_iff]

/-! ## Complete, and the same in every order -/

/-- No node without a value has children that are counted once each and all have one. -/
def Complete (q : StatementInput A V) (graph : StatementGraph A V) : Prop :=
  ∀ c node, graph.nodes.get? c = some node → node.value = none →
    q.childrenValued graph.nodes c = false

/-- The gaps are filled completely, and the same way in every order, exactly when the sixth level
adds nothing to the fifth. -/
theorem gap_filling_complete_iff (q : StatementInput A V) (abs : V → V) :
    ((∀ walk, q.Complete (q.buildStatementGraph abs walk)) ∧
      ∀ walk walk' c, (q.buildStatementGraph abs walk).nodes.get? c =
        (q.buildStatementGraph abs walk').nodes.get? c) ↔
      q.levelSet abs 6 ⊆ q.levelSet abs 5 := by
  have hmono := fills_mono (q := q)
  constructor
  · intro h c hc
    have hcomplete := h.1
    obtain ⟨concepts, hperm, hslow⟩ :=
      exists_slow_order hmono q.relevantConcepts (q.reportedSet abs) 5
    let walk : q.Iteration := ⟨concepts, hperm⟩
    have hvalued : valuedSet (q.buildStatementGraph abs walk).nodes = q.levelSet abs 5 := by
      rw [valuedSet_buildStatementGraph]
      exact hslow 5 le_rfl
    rcases hc with hc | ⟨hrelevant, hfills⟩
    · exact hc
    · by_contra hout
      cases hnode : (q.buildStatementGraph abs walk).nodes.get? c with
      | none => exact get?_buildStatementGraph_eq_none.mp hnode hrelevant
      | some node =>
        have hnone : node.value = none := by
          have hvalue : ¬ (valueAt (q.buildStatementGraph abs walk).nodes c).isSome = true := by
            intro hsome
            exact hout (hvalued ▸ hsome)
          rw [valueAt, hnode, Option.bind_some] at hvalue
          simpa using hvalue
        have hfalse := hcomplete walk c node hnode hnone
        have hchildren : q.childrenValued (q.buildStatementGraph abs walk).nodes c = true := by
          refine childrenValued_iff.mpr ⟨hfills.1, fun e he => ?_⟩
          have hchild : e.childQname ∈ valuedSet (q.buildStatementGraph abs walk).nodes :=
            hvalued ▸ hfills.2 e he
          exact hchild
        rw [hchildren] at hfalse
        exact Bool.noConfusion hfalse
  · intro hfull
    have hvalued : ∀ walk, valuedSet (q.buildStatementGraph abs walk).nodes = q.levelSet abs 5 := by
      intro walk
      rw [valuedSet_buildStatementGraph]
      apply Set.Subset.antisymm
      · exact sweeps_subset_level hmono (fun c hc => walk.perm.mem_iff.mp hc) hfull
      · exact level_subset_sweeps hmono fun c hc => walk.perm.mem_iff.mpr hc
    constructor
    · intro walk c node hnode hnone
      by_contra hchildren
      rw [Bool.not_eq_false] at hchildren
      have hrelevant : c ∈ q.relevantConcepts := by
        by_contra hout
        rw [get?_buildStatementGraph_eq_none.mpr hout] at hnode
        exact absurd hnode (Option.some_ne_none node).symm
      have hfills : q.Fills (q.levelSet abs 5) c := hvalued walk ▸ childrenValued_iff.mp hchildren
      have hin : c ∈ valuedSet (q.buildStatementGraph abs walk).nodes :=
        hvalued walk ▸ hfull (Or.inr ⟨hrelevant, hfills⟩)
      have hsome : (valueAt (q.buildStatementGraph abs walk).nodes c).isSome = true := hin
      rw [valueAt, hnode, Option.bind_some, hnone] at hsome
      exact Bool.false_ne_true hsome
    · intro walk walk' c
      cases hnode : (q.buildStatementGraph abs walk).nodes.get? c with
      | none =>
        exact (get?_buildStatementGraph_eq_none.mpr (get?_buildStatementGraph_eq_none.mp hnode)).symm
      | some node =>
        cases hnode' : (q.buildStatementGraph abs walk').nodes.get? c with
        | none =>
          have hout := get?_buildStatementGraph_eq_none.mp hnode'
          rw [get?_buildStatementGraph_eq_none.mpr hout] at hnode
          exact absurd hnode (Option.some_ne_none node).symm
        | some node' =>
          have hsame : node.value.isSome = true ↔ node'.value.isSome = true := by
            have hin : c ∈ valuedSet (q.buildStatementGraph abs walk).nodes ↔
                c ∈ valuedSet (q.buildStatementGraph abs walk').nodes := by
              rw [hvalued walk, hvalued walk']
            simpa [valuedSet, valueAt, hnode, hnode'] using hin
          by_cases hvalue : node.value = none
          · have hvalue' : node'.value = none := by
              rw [hvalue] at hsame
              simpa using hsame
            rw [unfilled_eq consistent_buildStatementGraph hnode hvalue,
              unfilled_eq consistent_buildStatementGraph hnode' hvalue']
          · have hvalue' : node'.value ≠ none :=
              Option.isSome_iff_ne_none.mp (hsame.mp (Option.isSome_iff_ne_none.mpr hvalue))
            rw [agree_buildStatementGraph c node node' hnode hnode' hvalue hvalue']

end StatementInput
end Filling

/-! ## Seven concepts in a row -/

def asciiDates : DateText := ⟨fun _ => none, fun text => text.toList.all Char.isDigit⟩

def yearEnd (concept year : String) (v : ℚ) : XbrlFact ℚ :=
  ⟨"0000320193-24-000001", concept, .number v, some "usd", none, "duration", none,
    some (year ++ "-12-31"), none, Dict.empty⟩

def durationStatement (facts : List (XbrlFact ℚ)) (arcs : List (CalculationArc ℚ)) (root : String) :
    StatementInput Unit ℚ :=
  ⟨root, "income", facts, arcs, fun _ => (), Dict.empty, some "duration", none, none, none,
    asciiDates⟩

def chainNames : List String := ["c0", "c1", "c2", "c3", "c4", "c5", "c6"]

def chainStatement : StatementInput Unit ℚ :=
  durationStatement [yearEnd "c6" "2023" 5]
    (chainNames.zipWith (fun a b => ⟨a, b, 1, none⟩) chainNames.tail) "c0"

def chainWalk : chainStatement.Iteration := ⟨chainNames, by decide +kernel⟩

theorem gap_filling_incomplete :
    ¬ ∀ q : StatementInput Unit ℚ, (∀ walk, q.Complete (q.buildStatementGraph abs walk)) ∧
      ∀ walk walk' c, (q.buildStatementGraph abs walk).nodes.get? c =
        (q.buildStatementGraph abs walk').nodes.get? c := by
  intro h
  have hcomplete := (h chainStatement).1 chainWalk "c0"
  have hroot : ((chainStatement.buildStatementGraph abs chainWalk).nodes.get? "c0").map
      (fun node => node.value) = some none := by decide +kernel
  have hchild : chainStatement.childrenValued
      (chainStatement.buildStatementGraph abs chainWalk).nodes "c0" = true := by decide +kernel
  obtain ⟨node, hnode, hvalue⟩ := Option.map_eq_some_iff.mp hroot
  rw [hcomplete node hnode hvalue] at hchild
  exact Bool.noConfusion hchild

end EdgarSec.Xbrl
