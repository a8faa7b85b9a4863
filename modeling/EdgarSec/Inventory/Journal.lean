import EdgarSec.Inventory.ChunkRun

/-! What the tables of a progress database hold: the rows of the results that were recorded in
it or carried into it, each accession once. -/

namespace EdgarSec.Inventory
open Foundation Lib Dag

namespace Recorded

@[simp] theorem outcomeAccession_row (x : Recorded) : outcomeAccession x.row = x.accession := by
  simp [row, accession]

theorem accession_ne_none (x : Recorded) : x.accession ≠ none := Option.some_ne_none _

theorem entryAccession_of_mem {x : Recorded} {e : Row Cell} (he : e ∈ x.entryRows) :
    entryAccession e = x.accession := by
  obtain ⟨entry, hentry, rfl⟩ := List.mem_map.mp he
  rw [entryAccession_entryValues, x.result.own entry hentry]
  rfl

theorem filter_entryRows {items : List Recorded} (hnodup : (items.map accession).Nodup)
    {x : Recorded} (hx : x ∈ items) :
    (items.flatMap entryRows).filter (entryAccession · = x.accession) = x.entryRows := by
  have hown : ∀ y : Recorded, y.entryRows.filter (entryAccession · = x.accession) =
      if y.accession = x.accession then y.entryRows else [] := by
    intro y
    split_ifs with hsame
    · rw [List.filter_eq_self]
      intro e he
      simp [entryAccession_of_mem he, hsame]
    · rw [List.filter_eq_nil_iff]
      intro e he
      simp [entryAccession_of_mem he, hsame]
  have hsplit : (items.flatMap entryRows).filter (entryAccession · = x.accession) =
      (items.filter (·.accession = x.accession)).flatMap entryRows := by
    clear hx hnodup
    induction items with
    | nil => rfl
    | cons y items ih =>
      rw [List.flatMap_cons, List.filter_append, ih, hown]
      by_cases hsame : y.accession = x.accession <;> simp [hsame]
  rw [hsplit, filter_key_eq_singleton hnodup hx]
  simp

end Recorded

structure Holds (db : ProgressDatabase) (items : List Recorded) : Prop where
  outcomes : db.outcomes = items.map Recorded.row
  completed : db.completed = items.map Recorded.accession
  entries : db.entries.Perm (items.flatMap Recorded.entryRows)
  nodup : (items.map Recorded.accession).Nodup

namespace Holds

variable {db db' : ProgressDatabase} {items : List Recorded} {x : Recorded}

theorem create (metadata : ProgressMetadata) : Holds (.create metadata) [] :=
  ⟨rfl, rfl, List.Perm.nil, List.nodup_nil⟩

theorem importAccession (h : Holds db items) {rows : Table Cell} (hrows : rows.Perm x.entryRows)
    (hok : db.importAccession x.row rows = .ok db') :
    Holds db' (items ++ [x]) ∧ db'.payload = db.payload := by
  unfold ProgressDatabase.importAccession at hok
  simp only [Recorded.outcomeAccession_row, if_neg x.accession_ne_none] at hok
  split_ifs at hok with hdup
  obtain rfl := Except.ok.inj hok
  have hnew : x.accession ∉ items.map Recorded.accession := by
    intro hold
    exact hdup (Or.inr (h.completed ▸ hold))
  refine ⟨⟨?_, ?_, ?_, ?_⟩, rfl⟩
  · simp [h.outcomes]
  · simp [h.completed]
  · simpa using h.entries.append hrows
  · rw [List.map_append, List.nodup_append]
    refine ⟨h.nodup, List.nodup_singleton _, ?_⟩
    intro a ha b hb heq
    simp only [List.map_cons, List.map_nil, List.mem_singleton] at hb
    exact hnew (hb ▸ heq ▸ ha)

theorem fits_outcomes (h : Holds db items) : outcomeSchema.Fits db.outcomes := by
  intro row hrow
  rw [h.outcomes] at hrow
  obtain ⟨x, -, rfl⟩ := List.mem_map.mp hrow
  exact length_outcome_row _

theorem fits_entries (h : Holds db items) : entrySchema.Fits db.entries := by
  intro row hrow
  obtain ⟨x, -, hx⟩ := List.mem_flatMap.mp (h.entries.mem_iff.mp hrow)
  obtain ⟨entry, -, rfl⟩ := List.mem_map.mp hx
  exact length_entryValues _

theorem perm_exportOutcomes (h : Holds db items) (choice : Choice) :
    (db.exportOutcomes choice).Perm (items.map Recorded.row) :=
  h.outcomes ▸ choice.sort_perm _ _

theorem perm_exportEntries (h : Holds db items) (choice : Choice) :
    (db.exportEntries choice).Perm (items.flatMap Recorded.entryRows) :=
  (choice.sort_perm _ _).trans h.entries

theorem fits_exportOutcomes (h : Holds db items) (choice : Choice) :
    outcomeSchema.Fits (db.exportOutcomes choice) := fun row hrow =>
  h.fits_outcomes row ((choice.sort_perm _ _).mem_iff.mp hrow)

theorem fits_exportEntries (h : Holds db items) (choice : Choice) :
    entrySchema.Fits (db.exportEntries choice) := fun row hrow =>
  h.fits_entries row ((choice.sort_perm _ _).mem_iff.mp hrow)

theorem perm_carriedEntries (h : Holds db items) (choice : Choice) (hx : x ∈ items) :
    (ProgressDatabase.carriedEntries choice (db.exportEntries choice) x.accession).Perm x.entryRows := by
  have hsome : ∀ e : Row Cell, ((entryAccession e).isSome = true ∧ entryAccession e = x.accession) ↔
      entryAccession e = x.accession := by
    intro e
    constructor
    · intro hboth
      exact hboth.2
    · intro hsame
      exact ⟨Option.isSome_iff_ne_none.mpr (hsame ▸ x.accession_ne_none), hsame⟩
  have hfilter := (h.perm_exportEntries choice).filter (entryAccession · = x.accession)
  rw [Recorded.filter_entryRows h.nodup hx] at hfilter
  apply (choice.sort_perm _ _).trans
  simpa only [hsome] using hfilter

end Holds
end EdgarSec.Inventory
