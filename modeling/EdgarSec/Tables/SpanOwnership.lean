import EdgarSec.Tables.SpanMatrix

/-! Every cell owns its rectangle exactly where no cell is laid over a held column. -/

namespace EdgarSec.Tables
open Lib

section Columns
variable {held : List Nat} {first c : Nat} {cell : SourceCell}

theorem getD_hold : (hold held first cell).getD c 0 =
    if first ≤ c ∧ c < first + cell.colspan then cell.rowspan else held.getD c 0 := by
  have hpad : held.getD c 0 = (padTo (first + cell.colspan) 0 held).getD c 0 := by
    rw [List.getD_eq_getElem?_getD, List.getD_eq_getElem?_getD, getElem?_padTo]
    split
    · rfl
    · rename_i hc
      rw [List.getElem?_eq_none (not_lt.mp hc)]
      split <;> rfl
  rw [hpad, hold, List.getD_eq_getElem?_getD, List.getD_eq_getElem?_getD, List.getElem?_mapIdx]
  by_cases hc : c < (padTo (first + cell.colspan) 0 held).length
  · rw [List.getElem?_eq_getElem hc]
    rfl
  · have hout : ¬ (first ≤ c ∧ c < first + cell.colspan) := by
      rw [length_padTo] at hc
      omega
    rw [List.getElem?_eq_none (not_lt.mp hc), if_neg hout]
    rfl

theorem getD_map_pred : (held.map (· - 1)).getD c 0 = held.getD c 0 - 1 := by
  rw [List.getD_eq_getElem?_getD, List.getD_eq_getElem?_getD, List.getElem?_map]
  cases held[c]? <;> rfl

end Columns

/-! ## One cell -/

structure LaidOut (rIdx : Nat) (l : Layout) (done : List CellRef) (held : List Nat) : Prop where
  owned : ∀ ref ∈ done, OwnsRectangle l.matrix ref
  known : ∀ r c ref, slot l.matrix r c = some ref → ref ∈ done
  groups : ∀ g ∈ l.spanGroups, g.sourceCell ∈ done ∧ NamesSlots l.matrix g
  held : ∀ r c, rIdx ≤ r → ((slot l.matrix r c).isSome = true ↔ r < rIdx + held.getD c 0)

variable {rIdx : Nat} {l : Layout} {done : List CellRef} {held : List Nat}

theorem laidOut_empty (rows : List (List SourceCell)) : LaidOut 0 (emptyLayout rows) [] [] := by
  have hnone : ∀ r c, slot (emptyLayout rows).matrix r c = none := by
    intro r c
    rw [slot, emptyLayout, List.getElem?_replicate]
    split <;> rfl
  refine ⟨by simp, ?_, by simp [emptyLayout], ?_⟩
  · intro r c ref hslot
    rw [hnone] at hslot
    cases hslot
  · intro r c _
    rw [hnone]
    simp

theorem LaidOut.start (h : LaidOut rIdx l done held) (col : Nat) :
    skipWhile Option.isSome (l.matrix.getD rIdx []) col = nextOpen held col := by
  apply skipWhile_congr
  intro c
  have hslot : (∃ b, (l.matrix.getD rIdx [])[c]? = some b ∧ b.isSome = true) ↔
      (slot l.matrix rIdx c).isSome = true := by
    rw [slot, List.getD_eq_getElem?_getD]
    cases l.matrix[rIdx]? with
    | none => simp
    | some row => cases hc : row[c]? <;> simp [hc]
  have hcolumn : (∃ b, held[c]? = some b ∧ decide (0 < b) = true) ↔ 0 < held.getD c 0 := by
    rw [List.getD_eq_getElem?_getD]
    cases held[c]? <;> simp
  rw [hslot, hcolumn, h.held rIdx c (le_refl _)]
  omega

section Cell
variable {col : Nat} {ref : CellRef}

theorem slot_placeCell (h : LaidOut rIdx l done held) (r c : Nat) :
    slot (placeCell rIdx (l, col) ref).1.matrix r c =
      if (rIdx ≤ r ∧ r < rIdx + ref.cell.rowspan) ∧
        nextOpen held col ≤ c ∧ c < nextOpen held col + ref.cell.colspan then some ref
      else slot l.matrix r c := by
  rw [← h.start col]
  exact slot_fill _ _ _ _ _ _ _ _

theorem snd_placeCell (h : LaidOut rIdx l done held) :
    (placeCell rIdx (l, col) ref).2 = nextOpen held col + ref.cell.colspan := by
  rw [← h.start col]
  rfl

theorem slot_eq_none_of_room (h : LaidOut rIdx l done held)
    (hroom : ∀ d < ref.cell.colspan, held.getD (nextOpen held col + d) 0 = 0) {r c : Nat}
    (hr : rIdx ≤ r) (hc : nextOpen held col ≤ c ∧ c < nextOpen held col + ref.cell.colspan) :
    slot l.matrix r c = none := by
  obtain ⟨d, rfl⟩ := Nat.exists_eq_add_of_le hc.1
  have hfree := hroom d (by omega)
  have hslot := h.held r (nextOpen held col + d) hr
  rw [hfree] at hslot
  cases hs : slot l.matrix r (nextOpen held col + d) with
  | none => rfl
  | some a =>
    rw [hs] at hslot
    have hlt := hslot.mp rfl
    omega

theorem keeps_placeCell (h : LaidOut rIdx l done held)
    (hroom : ∀ d < ref.cell.colspan, held.getD (nextOpen held col + d) 0 = 0) :
    Keeps l.matrix (placeCell rIdx (l, col) ref).1.matrix := by
  intro r c a ha
  rw [slot_placeCell h]
  split
  · rename_i hin
    rw [slot_eq_none_of_room h hroom hin.1.1 hin.2] at ha
    cases ha
  · exact ha

theorem not_keeps_placeCell (h : LaidOut rIdx l done held) (hnew : ref ∉ done)
    (hroom : ¬ ∀ d < ref.cell.colspan, held.getD (nextOpen held col + d) 0 = 0) :
    ¬ Keeps l.matrix (placeCell rIdx (l, col) ref).1.matrix := by
  intro hkeeps
  push Not at hroom
  obtain ⟨d, hd, hheld⟩ := hroom
  have hsome : (slot l.matrix rIdx (nextOpen held col + d)).isSome = true :=
    (h.held rIdx _ (le_refl _)).mpr (by omega)
  obtain ⟨a, ha⟩ := Option.isSome_iff_exists.mp hsome
  have hafter := hkeeps _ _ a ha
  have hrow := ref.cell.rowspan_pos
  rw [slot_placeCell h, if_pos ⟨⟨le_refl _, by omega⟩, by omega, by omega⟩] at hafter
  rw [Option.some.inj hafter] at hnew
  exact hnew (h.known _ _ a ha)

theorem LaidOut.placeCell (h : LaidOut rIdx l done held) (hnew : ref ∉ done) (hrow : ref.row = rIdx)
    (hroom : ∀ d < ref.cell.colspan, held.getD (nextOpen held col + d) 0 = 0) :
    LaidOut rIdx (placeCell rIdx (l, col) ref).1 (done ++ [ref])
      (hold held (nextOpen held col) ref.cell) := by
  have hkept : ∀ a ∈ done, ∀ r c,
      slot (Tables.placeCell rIdx (l, col) ref).1.matrix r c = some a ↔ slot l.matrix r c = some a := by
    intro a ha r c
    constructor
    · intro hafter
      rw [slot_placeCell h] at hafter
      split at hafter
      · rw [Option.some.inj hafter] at hnew
        exact absurd ha hnew
      · exact hafter
    · exact keeps_placeCell h hroom r c a
  have hown : ∀ r c, slot (Tables.placeCell rIdx (l, col) ref).1.matrix r c = some ref ↔
      (rIdx ≤ r ∧ r < rIdx + ref.cell.rowspan) ∧
        nextOpen held col ≤ c ∧ c < nextOpen held col + ref.cell.colspan := by
    intro r c
    rw [slot_placeCell h]
    split
    · rename_i hin
      exact iff_of_true rfl hin
    · rename_i hout
      exact iff_of_false (fun hslot => hnew (h.known r c ref hslot)) hout
  constructor
  · intro a ha
    rcases List.mem_append.mp ha with ha | ha
    · obtain ⟨first, hrect⟩ := h.owned a ha
      exact ⟨first, fun r c => (hkept a ha r c).trans (hrect r c)⟩
    · rw [List.mem_singleton.mp ha]
      refine ⟨nextOpen held col, fun r c => ?_⟩
      rw [hrow]
      exact hown r c
  · intro r c a ha
    rw [slot_placeCell h] at ha
    split at ha
    · rw [Option.some.inj ha]
      exact List.mem_append_right _ (List.mem_singleton_self a)
    · exact List.mem_append_left _ (h.known r c a ha)
  · intro g hg
    have hcases : g ∈ l.spanGroups ∨ g = ⟨rIdx, rIdx + ref.cell.rowspan - 1, nextOpen held col,
        nextOpen held col + ref.cell.colspan - 1, ref⟩ := by
      rw [← h.start col]
      simp only [Tables.placeCell] at hg
      split at hg
      · rcases List.mem_append.mp hg with hg | hg
        · exact Or.inl hg
        · exact Or.inr (List.mem_singleton.mp hg)
      · exact Or.inl hg
    rcases hcases with hg | rfl
    · obtain ⟨hin, hslots⟩ := h.groups g hg
      exact ⟨List.mem_append_left _ hin, fun r c => (hkept _ hin r c).trans (hslots r c)⟩
    · refine ⟨List.mem_append_right _ (List.mem_singleton_self ref), fun r c => ?_⟩
      have hrows := ref.cell.rowspan_pos
      have hcols := ref.cell.colspan_pos
      rw [hown r c]
      simp only
      omega
  · intro r c hr
    rw [slot_placeCell h, getD_hold]
    by_cases hc : nextOpen held col ≤ c ∧ c < nextOpen held col + ref.cell.colspan
    · rw [if_pos hc]
      split
      · rename_i hin
        simp only [Option.isSome_some, true_iff]
        exact hin.1.2
      · rename_i hout
        have hnone := slot_eq_none_of_room h hroom hr hc
        rw [hnone]
        simp only [Option.isSome_none, Bool.false_eq_true, false_iff]
        intro hlt
        exact hout ⟨⟨hr, hlt⟩, hc⟩
    · rw [if_neg fun hin => hc hin.2, if_neg hc]
      exact h.held r c hr

end Cell

/-! ## Rows -/

theorem placeRow_spec (refs : List CellRef) : ∀ {l : Layout} {done : List CellRef} {held : List Nat}
    (col : Nat), LaidOut rIdx l done held → (done ++ refs).Nodup → (∀ ref ∈ refs, ref.row = rIdx) →
    (∀ held', holdRow held col (refs.map CellRef.cell) = some held' →
      LaidOut rIdx (placeRow rIdx (l, col) refs).1 (done ++ refs) held' ∧ RowKeeps rIdx (l, col) refs) ∧
    (holdRow held col (refs.map CellRef.cell) = none → ¬ RowKeeps rIdx (l, col) refs) := by
  induction refs with
  | nil =>
    intro l done held col h _ _
    refine ⟨?_, fun hnone => by cases hnone⟩
    intro held' hheld
    rw [← Option.some.inj hheld, List.append_nil]
    exact ⟨h, trivial⟩
  | cons ref refs ih =>
    intro l done held col h hnodup hrows
    have hnew : ref ∉ done := by
      intro hin
      exact (List.nodup_append.mp hnodup).2.2 ref hin ref List.mem_cons_self rfl
    have hsplit : done ++ ref :: refs = (done ++ [ref]) ++ refs := by simp
    have hpair : placeCell rIdx (l, col) ref =
        ((placeCell rIdx (l, col) ref).1, nextOpen held col + ref.cell.colspan) :=
      Prod.ext rfl (snd_placeCell h)
    rw [List.map_cons, holdRow]
    split
    · rename_i hroom
      have hcell := h.placeCell hnew (hrows ref List.mem_cons_self) hroom
      have hrest := ih (nextOpen held col + ref.cell.colspan) hcell (hsplit ▸ hnodup)
        fun a ha => hrows a (List.mem_cons_of_mem _ ha)
      rw [RowKeeps, placeRow, hpair, hsplit]
      constructor
      · intro held' hheld
        obtain ⟨hlaid, hkeeps⟩ := hrest.1 held' hheld
        exact ⟨hlaid, keeps_placeCell h hroom, hkeeps⟩
      · exact fun hnone hkeeps => hrest.2 hnone hkeeps.2
    · rename_i hroom
      exact ⟨fun _ hheld => (by cases hheld), fun _ hkeeps => not_keeps_placeCell h hnew hroom hkeeps.1⟩

theorem LaidOut.nextRow (h : LaidOut rIdx l done held) :
    LaidOut (rIdx + 1) l done (held.map (· - 1)) := by
  refine ⟨h.owned, h.known, h.groups, ?_⟩
  intro r c hr
  rw [h.held r c (by omega), getD_map_pred]
  omega

theorem placeRows_spec (rows : List (List CellRef)) : ∀ {rIdx : Nat} {l : Layout}
    {done : List CellRef} {held : List Nat}, LaidOut rIdx l done held →
    (done ++ rows.flatten).Nodup → (∀ k row, rows[k]? = some row → ∀ ref ∈ row, ref.row = rIdx + k) →
    (hasRoom held (rows.map fun row => row.map CellRef.cell) = true →
      (∃ rIdx' held', LaidOut rIdx' (placeRows rIdx l rows) (done ++ rows.flatten) held') ∧
        RowsKeep rIdx l rows) ∧
    (hasRoom held (rows.map fun row => row.map CellRef.cell) = false → ¬ RowsKeep rIdx l rows) := by
  induction rows with
  | nil =>
    intro rIdx l done held h _ _
    refine ⟨fun _ => ⟨⟨rIdx, held, ?_⟩, trivial⟩, fun hfalse => by cases hfalse⟩
    rw [List.flatten_nil, List.append_nil]
    exact h
  | cons row rows ih =>
    intro rIdx l done held h hnodup hplaces
    have hsplit : done ++ (row :: rows).flatten = (done ++ row) ++ rows.flatten := by simp
    rw [hsplit] at hnodup ⊢
    have hrow := placeRow_spec row 0 h (List.nodup_append.mp hnodup).1
      fun ref href => hplaces 0 row rfl ref href
    rw [List.map_cons, hasRoom, RowsKeep, placeRows]
    cases hheld : holdRow held 0 (row.map CellRef.cell) with
    | none =>
      simp only
      exact ⟨fun htrue => (by cases htrue), fun _ hkeeps => hrow.2 hheld hkeeps.1⟩
    | some held' =>
      obtain ⟨hlaid, hkeeps⟩ := hrow.1 held' hheld
      have hlater : ∀ k other, rows[k]? = some other → ∀ ref ∈ other, ref.row = rIdx + 1 + k := by
        intro k other hother ref href
        rw [hplaces (k + 1) other hother ref href]
        omega
      have hrest := ih hlaid.nextRow hnodup hlater
      simp only
      exact ⟨fun htrue => ⟨(hrest.1 htrue).1, hkeeps, (hrest.1 htrue).2⟩,
        fun hfalse hall => hrest.2 hfalse hall.2⟩

/-! ## The matrix -/

section Matrix
variable (rows : List (List SourceCell))

theorem nodup_cellRefs : (cellRefs rows).flatten.Nodup := by
  have hplaces : ∀ {α : Type} (l : List α), (l.zipIdx.map Prod.snd).Nodup := by
    intro α l
    rw [List.zipIdx_map_snd]
    exact List.nodup_range'
  apply List.nodup_flatten.mpr
  constructor
  · intro refs hrefs
    obtain ⟨row, _, rfl⟩ := List.mem_map.mp hrefs
    apply List.Nodup.of_map CellRef.index
    rw [List.map_map]
    exact hplaces row.1
  · apply List.pairwise_map.mpr
    have hdistinct := List.pairwise_map.mp (hplaces rows)
    refine hdistinct.imp fun {a b} hab => ?_
    intro ref ha hb
    obtain ⟨_, _, rfl⟩ := List.mem_map.mp ha
    obtain ⟨_, _, hsame⟩ := List.mem_map.mp hb
    exact hab (congrArg CellRef.row hsame).symm

theorem row_of_mem_cellRefs {k : Nat} {refs : List CellRef} (h : (cellRefs rows)[k]? = some refs) :
    ∀ ref ∈ refs, ref.row = 0 + k := by
  intro ref href
  rw [cellRefs, List.getElem?_map, List.getElem?_zipIdx] at h
  cases hrow : rows[k]? with
  | none => rw [hrow] at h; cases h
  | some row =>
    rw [hrow] at h
    simp only [Option.map_some, Option.some.injEq] at h
    rw [← h] at href
    obtain ⟨_, _, rfl⟩ := List.mem_map.mp href
    rfl

theorem map_cell_cellRefs : ((cellRefs rows).map fun row => row.map CellRef.cell) = rows := by
  rw [cellRefs, List.map_map]
  have hrow : ((fun row : List CellRef => row.map CellRef.cell) ∘
      fun row : List SourceCell × Nat => row.1.zipIdx.map fun cell => ⟨row.2, cell.2, cell.1⟩) =
      Prod.fst := by
    funext row
    rw [Function.comp_apply, List.map_map]
    exact List.zipIdx_map_fst 0 row.1
  rw [hrow, List.zipIdx_map_fst]

theorem slot_buildSpanMatrix (hrows : rows ≠ []) (r c : Nat) :
    slot (buildSpanMatrix rows).matrix r c =
      slot (placeRows 0 (emptyLayout rows) (cellRefs rows)).matrix r c := by
  rw [buildSpanMatrix, if_neg hrows]
  exact slot_map_padTo _ _ r c

theorem length_le_maxCols {matrix : Grid CellRef} {row : List (Option CellRef)} (h : row ∈ matrix) :
    row.length ≤ maxCols matrix := by
  induction matrix with
  | nil => cases h
  | cons first matrix ih =>
    rw [maxCols, List.map_cons, List.foldr_cons]
    rcases List.mem_cons.mp h with rfl | h
    · exact le_max_left _ _
    · exact (ih h).trans (le_max_right _ _)

theorem exists_width : ∃ width, ∀ row ∈ (buildSpanMatrix rows).matrix, row.length = width := by
  by_cases hrows : rows = []
  · refine ⟨0, fun row hrow => ?_⟩
    rw [buildSpanMatrix, if_pos hrows] at hrow
    cases hrow
  · refine ⟨maxCols (placeRows 0 (emptyLayout rows) (cellRefs rows)).matrix, fun row hrow => ?_⟩
    rw [buildSpanMatrix, if_neg hrows] at hrow
    obtain ⟨short, hshort, rfl⟩ := List.mem_map.mp hrow
    rw [length_padTo]
    exact max_eq_right (length_le_maxCols hshort)

/-- The matrix is one of rectangles exactly where each cell finds all of its columns free, from
the first free one on. -/
theorem owns_rectangles_iff : OwnsRectangles rows ↔ hasRoom [] rows = true := by
  have hspec := placeRows_spec (cellRefs rows) (laidOut_empty rows) (nodup_cellRefs rows)
    fun k refs hrefs => row_of_mem_cellRefs rows hrefs
  rw [map_cell_cellRefs] at hspec
  constructor
  · intro h
    by_contra hroom
    exact hspec.2 (Bool.eq_false_iff.mpr hroom) h.untaken
  · intro hroom
    obtain ⟨⟨rIdx, held, hlaid⟩, huntaken⟩ := hspec.1 hroom
    by_cases hrows : rows = []
    · subst hrows
      exact ⟨exists_width [], by simp [cellRefs], trivial, by simp [buildSpanMatrix]⟩
    · rw [List.nil_append] at hlaid
      refine ⟨exists_width rows, ?_, huntaken, ?_⟩
      · intro ref href
        obtain ⟨col, hcol⟩ := hlaid.owned ref href
        refine ⟨col, fun r c => ?_⟩
        rw [slot_buildSpanMatrix rows hrows]
        exact hcol r c
      · intro g hg r c
        rw [slot_buildSpanMatrix rows hrows]
        rw [buildSpanMatrix, if_neg hrows] at hg
        exact (hlaid.groups g hg).2 r c

end Matrix

def plainCell (text : String) (colspan rowspan : Nat) (hcol : 1 ≤ colspan) (hrow : 1 ≤ rowspan) :
    SourceCell := ⟨text, colspan, rowspan, hcol, hrow⟩

def straddlingRows : List (List SourceCell) :=
  [[plainCell "1" 1 1 (le_refl 1) (le_refl 1), plainCell "Total" 1 2 (le_refl 1) (Nat.le_succ 1)],
    [plainCell "Net" 2 1 (Nat.le_succ 1) (le_refl 1)]]

/-- The lower cell takes the second row of the upper one, whose group still names it. -/
theorem straddling_cell_takes_slot : ¬ OwnsRectangles straddlingRows := by
  intro h
  have hgroup := h.groups ⟨0, 1, 1, 1, ⟨0, 1, plainCell "Total" 1 2 (le_refl 1) (Nat.le_succ 1)⟩⟩
    (by decide +kernel) 1 1
  have hslot : slot (buildSpanMatrix straddlingRows).matrix 1 1 =
      some ⟨1, 0, plainCell "Net" 2 1 (Nat.le_succ 1) (le_refl 1)⟩ := by decide +kernel
  rw [hslot] at hgroup
  exact absurd (hgroup.mpr (by decide)) (by decide +kernel)

end EdgarSec.Tables
