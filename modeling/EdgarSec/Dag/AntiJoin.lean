import EdgarSec.Dag.ActiveViews

/-! `filter_candidate_delta`: the anti-join of candidate rows against the active views. -/

namespace EdgarSec.Dag
open Foundation Lib

variable {V : Type} [DecidableEq V]

structure FilteredDelta (V : Type) where
  isNoop : Bool
  filteredParts : Dict String (Table V)
  rowCounts : Dict String Nat

/-- `WHERE` of the filter query over `candidate c LEFT JOIN active a`. -/
def filterWhere (spec : RelationSpec) (j : Row V × Option (Row V)) : Bool :=
  let a := fun col => j.2.bind fun row => spec.schema.cell row col
  let nonPkCols := spec.schema.names.filter (· ∉ spec.primaryKey)
  let newKey := (a (spec.primaryKey.headD "")).isNone
  if nonPkCols ≠ [] ∧ spec.mergeStrategy = .upsert then
    newKey || nonPkCols.any fun col => spec.schema.cell j.1 col ≠ a col
  else newKey

def filterQuery (spec : RelationSpec) (candidates active : Table V) : Table V :=
  ((leftJoin (fun c => nonNull (spec.keyCells c)) (fun a => nonNull (spec.keyCells a))
    candidates active).filter (filterWhere spec)).map Prod.fst

def filterRelation (candidateTables : Dict String (Table V)) (activeViews : List (String × Table V))
    (delta : FilteredDelta V) (spec : RelationSpec) : Except DagError (FilteredDelta V) :=
  match candidateTables.get? spec.name with
  | none => .ok delta
  | some candidates =>
    match activeViews.lookup spec.name with
    | none => .error (.engineError "Catalog Error: Table does not exist")
    | some active =>
      let kept := filterQuery spec candidates active
      if kept = [] then .ok delta
      else .ok ⟨false, delta.filteredParts.set spec.name kept, delta.rowCounts.set spec.name kept.length⟩

def filterCandidateDelta (specs : List RelationSpec) (candidateTables : Dict String (Table V))
    (activeViews : List (String × Table V)) : Except DagError (FilteredDelta V) :=
  specs.foldlM (filterRelation candidateTables activeViews) ⟨true, .empty, .empty⟩

/-! ## What one query keeps -/

def Redundant (spec : RelationSpec) (active : Table V) (c : Row V) : Prop :=
  ∃ a ∈ active, spec.keyCells a = spec.keyCells c ∧ (spec.mergeStrategy = .upsert → a = c)

instance (spec : RelationSpec) (active : Table V) (c : Row V) : Decidable (Redundant spec active c) :=
  inferInstanceAs (Decidable (∃ a ∈ active, _))

/-- Candidates for one relation: rows of its schema, their primary keys present and
different from each other. -/
structure WellKeyed (spec : RelationSpec) (table : Table V) : Prop where
  fits : spec.schema.Fits table
  present : ∀ c ∈ table, ∀ cell ∈ spec.keyCells c, cell.isSome = true
  distinct : (table.map spec.keyCells).Nodup

omit [DecidableEq V] in
/-- Rows of one schema that agree on the primary key and on the other columns are equal. -/
theorem eq_of_agree {spec : RelationSpec} {a c : Row V} (ha : a.length = spec.schema.names.length)
    (hc : c.length = spec.schema.names.length) (hkey : spec.keyCells a = spec.keyCells c)
    (hrest : ∀ col ∈ spec.schema.names.filter (· ∉ spec.primaryKey),
      spec.schema.cell c col = spec.schema.cell a col) : a = c := by
  refine Schema.row_ext ha hc fun col hcol => ?_
  by_cases hpk : col ∈ spec.primaryKey
  · exact List.map_inj_left.mp hkey col hpk
  · exact (hrest col (List.mem_filter.mpr ⟨hcol, decide_eq_true hpk⟩)).symm

theorem filterWhere_none (spec : RelationSpec) (c : Row V) : filterWhere spec (c, none) = true := by
  simp [filterWhere]

theorem filterWhere_some {spec : RelationSpec} {a c : Row V}
    (ha : a.length = spec.schema.names.length) (hc : c.length = spec.schema.names.length)
    (hpresent : ∀ cell ∈ spec.keyCells a, cell.isSome = true) (hkey : spec.keyCells a = spec.keyCells c) :
    filterWhere spec (c, some a) = true ↔ spec.mergeStrategy = .upsert ∧ a ≠ c := by
  have hhead : (spec.schema.cell a (spec.primaryKey.headD "")).isNone = false := by
    obtain ⟨hne, _, _⟩ := spec.checked
    obtain ⟨col, rest, hpk⟩ := List.exists_cons_of_ne_nil hne
    have hcell : spec.schema.cell a col ∈ spec.keyCells a :=
      List.mem_map_of_mem (by simp [hpk])
    simpa [hpk] using hpresent _ hcell
  unfold filterWhere
  simp only [Option.bind_some, hhead, Bool.false_or]
  split
  · rename_i hu
    simp only [List.any_eq_true, decide_eq_true_eq, hu.2, true_and]
    constructor
    · rintro ⟨col, _, hdiff⟩ rfl
      exact hdiff rfl
    · intro hne
      by_contra hall
      push Not at hall
      exact hne (eq_of_agree ha hc hkey hall)
  · rename_i hu
    simp only [Bool.false_eq_true, false_iff, not_and, not_not]
    intro hup
    have hnil : spec.schema.names.filter (· ∉ spec.primaryKey) = [] :=
      not_not.mp fun h => hu ⟨h, hup⟩
    refine eq_of_agree ha hc hkey fun col hcol => ?_
    rw [hnil] at hcol
    cases hcol

theorem filterQuery_eq {spec : RelationSpec} {candidates active : Table V}
    (hcand : WellKeyed spec candidates) (hactive : spec.schema.Fits active)
    (hone : spec.mergeStrategy = .upsert → (active.map spec.keyCells).Nodup) :
    filterQuery spec candidates active = candidates.filter fun c => ¬ Redundant spec active c := by
  have hmatch : ∀ c ∈ candidates, ∀ a, a ∈ matchRows (fun c => nonNull (spec.keyCells c))
      (fun a => nonNull (spec.keyCells a)) active c ↔
      a ∈ active ∧ spec.keyCells a = spec.keyCells c := by
    intro c hc a
    rw [mem_matchRows]
    refine and_congr_right fun _ => ?_
    constructor
    · rintro ⟨κ, hκ, hκ'⟩
      exact (nonNull_eq_some_iff.mp hκ').1.trans (nonNull_eq_some_iff.mp hκ).1.symm
    · intro he
      refine ⟨spec.keyCells c, ?_, ?_⟩
      · exact nonNull_eq_some_iff.mpr ⟨rfl, hcand.present c hc⟩
      · exact nonNull_eq_some_iff.mpr ⟨he, he ▸ hcand.present c hc⟩
  have hwhere : ∀ c ∈ candidates, ∀ a ∈ active, spec.keyCells a = spec.keyCells c →
      (filterWhere spec (c, some a) = true ↔ spec.mergeStrategy = .upsert ∧ a ≠ c) := by
    intro c hc a ha hkey
    exact filterWhere_some (hactive a ha) (hcand.fits c hc) (hkey ▸ hcand.present c hc) hkey
  unfold filterQuery
  refine map_fst_filter_leftJoin ?_ ?_ ?_
  · intro c hc hnil
    rw [filterWhere_none]
    refine (decide_eq_true ?_).symm
    rintro ⟨a, ha, hkey, _⟩
    have hin := (hmatch c hc a).mpr ⟨ha, hkey⟩
    simp [hnil] at hin
  · intro c hc a hin
    obtain ⟨ha, hkey⟩ := (hmatch c hc a).mp hin
    refine Bool.eq_iff_iff.mpr ?_
    rw [hwhere c hc a ha hkey, decide_eq_true_eq]
    constructor
    · rintro ⟨hup, hne⟩ ⟨b, hb, hbk, heq⟩
      have hab : a = b := List.inj_on_of_nodup_map (hone hup) ha hb (hkey.trans hbk.symm)
      exact hne (hab.trans (heq hup))
    · intro hred
      by_contra hno
      push Not at hno
      exact hred ⟨a, ha, hkey, hno⟩
  · intro c hc hnot
    by_contra hlen
    have hne : matchRows (fun c => nonNull (spec.keyCells c)) (fun a => nonNull (spec.keyCells a))
        active c ≠ [] := by
      intro hnil
      simp [hnil] at hlen
    obtain ⟨a, hin⟩ := List.exists_mem_of_ne_nil _ hne
    obtain ⟨ha, hkey⟩ := (hmatch c hc a).mp hin
    have hup : spec.mergeStrategy = .upsert := by
      by_contra hup
      exact of_decide_eq_true hnot ⟨a, ha, hkey, fun h => absurd h hup⟩
    have hnodup : (active.filterMap fun a => nonNull (spec.keyCells a)).Nodup := by
      have hmap : active.filterMap (fun a => nonNull (spec.keyCells a)) =
          (active.map spec.keyCells).filterMap nonNull := by
        rw [List.filterMap_map]
        rfl
      rw [hmap]
      refine (hone hup).filterMap ?_
      intro κ κ' b hb hb'
      exact (nonNull_eq_some_iff.mp hb).1.trans (nonNull_eq_some_iff.mp hb').1.symm
    rcases matchRows_eq_nil_or_singleton hnodup c with hnil | ⟨b, hb⟩
    · exact hne hnil
    · simp [hb] at hlen

theorem filterQuery_eq_nil_iff {spec : RelationSpec} {candidates active : Table V}
    (hcand : WellKeyed spec candidates) (hactive : spec.schema.Fits active)
    (hone : spec.mergeStrategy = .upsert → (active.map spec.keyCells).Nodup) :
    filterQuery spec candidates active = [] ↔ ∀ c ∈ candidates, Redundant spec active c := by
  rw [filterQuery_eq hcand hactive hone, List.filter_eq_nil_iff]
  simp only [decide_not, Bool.not_eq_true', decide_eq_false_iff_not, not_not]

/-! ## What the loop keeps -/

def tableRows (tables : Dict String (Table V)) (spec : RelationSpec) : Table V :=
  (tables.get? spec.name).getD []

def FilteredDelta.rows (delta : FilteredDelta V) (spec : RelationSpec) : Table V :=
  tableRows delta.filteredParts spec

section Loop
variable {candidateTables : Dict String (Table V)} {activeViews : List (String × Table V)}

def keptRows (candidateTables : Dict String (Table V)) (activeViews : List (String × Table V))
    (spec : RelationSpec) : Table V :=
  filterQuery spec (tableRows candidateTables spec) (viewRows activeViews spec)

theorem filterRelation_eq {delta : FilteredDelta V} {spec : RelationSpec}
    (hactive : (activeViews.lookup spec.name).isSome) :
    filterRelation candidateTables activeViews delta spec =
      .ok (if keptRows candidateTables activeViews spec = [] then delta
        else ⟨false, delta.filteredParts.set spec.name (keptRows candidateTables activeViews spec),
          delta.rowCounts.set spec.name (keptRows candidateTables activeViews spec).length⟩) := by
  obtain ⟨active, ha⟩ := Option.isSome_iff_exists.mp hactive
  unfold filterRelation keptRows tableRows viewRows
  cases hc : candidateTables.get? spec.name with
  | none =>
    have hnil : filterQuery spec ([] : Table V) active = [] := rfl
    simp [ha, hnil]
  | some candidates =>
    simp only [ha, Option.getD_some]
    split <;> rfl

theorem foldlM_filterRelation {specs : List RelationSpec}
    (hactive : ∀ spec ∈ specs, (activeViews.lookup spec.name).isSome)
    (hnames : (specs.map (·.name)).Nodup) (start : FilteredDelta V) :
    ∃ delta, specs.foldlM (filterRelation candidateTables activeViews) start = .ok delta ∧
      (∀ spec ∈ specs, delta.filteredParts.get? spec.name =
        if keptRows candidateTables activeViews spec = [] then start.filteredParts.get? spec.name
        else some (keptRows candidateTables activeViews spec)) ∧
      (∀ name, name ∉ specs.map (·.name) →
        delta.filteredParts.get? name = start.filteredParts.get? name) ∧
      (delta.isNoop = true ↔ start.isNoop = true ∧
        ∀ spec ∈ specs, keptRows candidateTables activeViews spec = []) := by
  induction specs generalizing start with
  | nil => exact ⟨start, rfl, by simp, by simp, by simp⟩
  | cons spec specs ih =>
    simp only [List.map_cons, List.nodup_cons] at hnames
    have hstep := @filterRelation_eq _ _ candidateTables activeViews start spec
      (hactive spec List.mem_cons_self)
    obtain ⟨delta, hfold, hin, hout, hnoop⟩ := ih
      (fun s hs => hactive s (List.mem_cons_of_mem _ hs)) hnames.2
      (if keptRows candidateTables activeViews spec = [] then start
        else ⟨false, start.filteredParts.set spec.name (keptRows candidateTables activeViews spec),
          start.rowCounts.set spec.name (keptRows candidateTables activeViews spec).length⟩)
    refine ⟨delta, ?_, ?_, ?_, ?_⟩
    · rw [List.foldlM_cons, hstep]
      exact hfold
    · intro s hs
      rcases List.mem_cons.mp hs with rfl | hs
      · rw [hout _ hnames.1]
        split
        · rfl
        · simp
      · have hne : s.name ≠ spec.name := fun e => hnames.1 (e ▸ List.mem_map_of_mem hs)
        rw [hin s hs]
        split
        · split <;> simp [hne]
        · rfl
    · intro name hname
      simp only [List.map_cons, List.mem_cons, not_or] at hname
      rw [hout name hname.2]
      split <;> simp [hname.1]
    · rw [hnoop]
      simp only [List.mem_cons, forall_eq_or_imp]
      split
      · rename_i hk
        simp [hk]
      · rename_i hk
        simp [hk]

theorem filterCandidateDelta_spec {specs : List RelationSpec}
    (hactive : ∀ spec ∈ specs, (activeViews.lookup spec.name).isSome)
    (hnames : (specs.map (·.name)).Nodup) :
    ∃ delta, filterCandidateDelta specs candidateTables activeViews = .ok delta ∧
      (∀ spec ∈ specs, delta.rows spec = keptRows candidateTables activeViews spec) ∧
      (delta.isNoop = true ↔ ∀ spec ∈ specs, keptRows candidateTables activeViews spec = []) := by
  obtain ⟨delta, hfold, hin, _, hnoop⟩ := @foldlM_filterRelation _ _ candidateTables activeViews
    specs hactive hnames ⟨true, .empty, .empty⟩
  refine ⟨delta, hfold, fun spec hs => ?_, by simpa using hnoop⟩
  unfold FilteredDelta.rows tableRows
  rw [hin spec hs]
  split
  · rename_i hk
    rw [hk]
    rfl
  · rfl

end Loop

end EdgarSec.Dag
