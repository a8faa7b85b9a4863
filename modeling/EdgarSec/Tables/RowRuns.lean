import Mathlib

/-! `find_table_row_runs`: runs of blocks whose lines have the cells of one table, grown over the
eligible blocks alone, and what a run takes in that is not eligible. -/

namespace EdgarSec.Tables

def minRows : Nat := 3
def columnTolerance : Nat := 4
def maxBlankGap : Nat := 1

/-- Lines `start` to `stop`, the last one excluded. -/
structure Block where
  start : Nat
  stop : Nat
  lines : List String
  deriving DecidableEq, Repr

structure RowGeometry where
  fieldStarts : List Nat
  fieldKinds : List String
  numericFields : List Nat
  numericValueFields : List Nat
  proseEnding : Bool
  deriving DecidableEq, Repr

structure TableRowRun where
  firstBlock : Nat
  afterLastBlock : Nat
  startLine : Nat
  endLine : Nat
  rowCount : Nat
  deriving DecidableEq, Repr

/-! ## Rows -/

def near (a b : Nat) : Bool := decide (a ≤ b + columnTolerance) && decide (b ≤ a + columnTolerance)

def anchors (row : RowGeometry) : List Nat :=
  row.fieldStarts.tail ++ if row.numericFields.contains 0 then row.fieldStarts.take 1 else []

def rowsShareStructure (left right : RowGeometry) : Bool :=
  (anchors left).any fun l => (anchors right).any fun r => near l r

def runHasProseShape (rows : List RowGeometry) : Bool :=
  decide (rows.length < rows.countP RowGeometry.proseEnding * 2)

def shareNumericColumn (left right : RowGeometry) : Bool :=
  left.numericValueFields.any fun l => right.numericValueFields.any fun r =>
    near (left.fieldStarts.getD l 0) (right.fieldStarts.getD r 0)

def hasRepeatedNumericValues : List RowGeometry → Bool
  | [] => false
  | row :: rest => rest.any (shareNumericColumn row) || hasRepeatedNumericValues rest

def isRun (rows : List RowGeometry) : Bool :=
  decide (minRows ≤ rows.length) && hasRepeatedNumericValues rows && !runHasProseShape rows

/-! ## Runs

`measure` is `_measure_block_rows`: the rows that the lines of a block are read as. -/

section Runs
variable (measure : List String → List RowGeometry) (blocks : List Block)

def startOf (i : Nat) : Nat := ((blocks[i]?).map Block.start).getD 0

def stopOf (i : Nat) : Nat := ((blocks[i]?).map Block.stop).getD 0

def rowsOf (i : Nat) : List RowGeometry := ((blocks[i]?).map fun b => measure b.lines).getD []

/-- `sorted(measured)`: the eligible blocks that have rows. -/
def ordered (eligible : Finset Nat) : List Nat :=
  (List.range blocks.length).filter fun i => decide (i ∈ eligible) && !(rowsOf measure blocks i).isEmpty

def reference (first : Nat) : RowGeometry := (rowsOf measure blocks first).headD ⟨[], [], [], [], false⟩

/-- The candidates that join the group behind `previous`. -/
def grow (ref : RowGeometry) (previous : Nat) : List Nat → List Nat
  | [] => []
  | candidate :: rest =>
    if stopOf blocks previous + maxBlankGap < startOf blocks candidate ∨
        (rowsOf measure blocks candidate).any (fun row => !rowsShareStructure ref row) = true then []
    else candidate :: grow ref candidate rest

def joined (first : Nat) (rest : List Nat) : List Nat := grow measure blocks (reference measure blocks first) first rest

def groupRows (first : Nat) (rest : List Nat) : List RowGeometry :=
  (first :: joined measure blocks first rest).flatMap (rowsOf measure blocks)

def lastOf (first : Nat) (rest : List Nat) : Nat := (joined measure blocks first rest).getLastD first

def runOf (first : Nat) (rest : List Nat) : TableRowRun where
  firstBlock := first
  afterLastBlock := lastOf measure blocks first rest + 1
  startLine := startOf blocks first
  endLine := stopOf blocks (lastOf measure blocks first rest)
  rowCount := (groupRows measure blocks first rest).length

/-- The group that starts with `first` passes the tests of a run. -/
def Accepted (first : Nat) (rest : List Nat) : Prop := isRun (groupRows measure blocks first rest) = true

instance (first : Nat) (rest : List Nat) : Decidable (Accepted measure blocks first rest) :=
  inferInstanceAs (Decidable (_ = _))

def runsFrom : List Nat → List TableRowRun
  | [] => []
  | first :: rest =>
    if Accepted measure blocks first rest then
      runOf measure blocks first rest :: runsFrom (rest.drop (joined measure blocks first rest).length)
    else runsFrom rest
termination_by l => l.length
decreasing_by
  · simp only [List.length_drop, List.length_cons]
    omega
  · simp

def findTableRowRuns (eligible : Finset Nat) : List TableRowRun := runsFrom measure blocks (ordered measure blocks eligible)

/-! ## What a run may take in -/

structure Ascending : Prop where
  ordered : blocks.Pairwise fun a b => a.stop ≤ b.start
  proper : ∀ b ∈ blocks, b.start ≤ b.stop

structure Sound (eligible : Finset Nat) (runs : List TableRowRun) : Prop where
  disjoint : runs.Pairwise fun r s => r.endLine ≤ s.startLine
  eligible : ∀ run ∈ runs, ∀ j < blocks.length, startOf blocks j < stopOf blocks j →
    run.startLine ≤ startOf blocks j → stopOf blocks j ≤ run.endLine → j ∈ eligible

inductive Scans : List Nat → List Nat → Prop
  | here (l : List Nat) : Scans l l
  | behind {first : Nat} {rest l : List Nat} (haccepted : Accepted measure blocks first rest)
      (h : Scans (rest.drop (joined measure blocks first rest).length) l) : Scans (first :: rest) l
  | next {first : Nat} {rest l : List Nat} (hrefused : ¬ Accepted measure blocks first rest)
      (h : Scans rest l) : Scans (first :: rest) l

def OneLineBetween (i j k : Nat) : Prop := i < j ∧ j < k ∧ stopOf blocks j = startOf blocks j + 1

/-- No run is grown across a one-line block that is not eligible. -/
def NeverAcross (eligible : Finset Nat) : Prop :=
  ∀ first rest, Scans measure blocks (ordered measure blocks eligible) (first :: rest) →
    Accepted measure blocks first rest →
    ∀ i k, [i, k] <:+: first :: joined measure blocks first rest → ∀ j ∉ eligible, ¬ OneLineBetween blocks i j k

/-! ## Groups -/

variable {measure} {blocks} {eligible : Finset Nat} {ref : RowGeometry} {first previous i j k : Nat} {rest l l' : List Nat}

theorem grow_prefix : grow measure blocks ref previous rest <+: rest := by
  induction rest generalizing previous with
  | nil => exact List.prefix_refl _
  | cons candidate rest ih =>
    rw [grow]
    split_ifs with hstop
    · exact List.nil_prefix
    · exact List.cons_prefix_cons.mpr ⟨rfl, ih⟩

theorem grow_chain :
    List.IsChain (fun i k => startOf blocks k ≤ stopOf blocks i + 1) (previous :: grow measure blocks ref previous rest) := by
  induction rest generalizing previous with
  | nil => exact List.isChain_singleton _
  | cons candidate rest ih =>
    rw [grow]
    split_ifs with hstop
    · exact List.isChain_singleton _
    · rw [not_or, not_lt] at hstop
      exact List.isChain_cons_cons.mpr ⟨hstop.1, ih⟩

theorem mem_or_between (hsorted : (first :: l).Pairwise (· < ·)) (hfirst : first ≤ j) (hlast : j ≤ l.getLastD first) :
    j ∈ first :: l ∨ ∃ i k, [i, k] <:+: first :: l ∧ i < j ∧ j < k := by
  induction l generalizing first with
  | nil =>
    rw [List.getLastD_nil] at hlast
    exact Or.inl (List.mem_singleton.mpr (le_antisymm hlast hfirst))
  | cons second l ih =>
    rw [List.getLastD_cons] at hlast
    by_cases hsecond : second ≤ j
    · rcases ih (List.pairwise_cons.mp hsorted).2 hsecond hlast with hmem | ⟨i, k, hik, hij, hjk⟩
      · exact Or.inl (List.mem_cons_of_mem _ hmem)
      · exact Or.inr ⟨i, k, hik.trans (List.suffix_cons _ _).isInfix, hij, hjk⟩
    · by_cases heq : j = first
      · exact Or.inl (heq ▸ List.mem_cons_self)
      · exact Or.inr ⟨first, second, ⟨[], l, rfl⟩, by omega, by omega⟩

theorem getLastD_mem : l.getLastD first ∈ first :: l := by
  cases l with
  | nil => exact List.mem_cons_self
  | cons a l =>
    rw [List.getLastD_cons, ← List.getLast_eq_getLastD (List.cons_ne_nil a l)]
    exact List.mem_cons_of_mem _ (List.getLast_mem _)

/-! ## The search -/

theorem Scans.suffix (h : Scans measure blocks l l') : l' <:+ l := by
  induction h with
  | here l => exact List.suffix_refl l
  | behind _ _ ih => exact (ih.trans (List.drop_suffix _ _)).trans (List.suffix_cons _ _)
  | next _ _ ih => exact ih.trans (List.suffix_cons _ _)

theorem mem_ordered (h : i ∈ ordered measure blocks eligible) : i < blocks.length ∧ i ∈ eligible := by
  obtain ⟨hrange, htest⟩ := List.mem_filter.mp h
  rw [Bool.and_eq_true, decide_eq_true_eq] at htest
  exact ⟨List.mem_range.mp hrange, htest.1⟩

theorem ordered_sorted : (ordered measure blocks eligible).Pairwise (· < ·) :=
  List.pairwise_lt_range.sublist List.filter_sublist

theorem mem_runsFrom {run : TableRowRun} : run ∈ runsFrom measure blocks l ↔
    ∃ first rest, Scans measure blocks l (first :: rest) ∧ Accepted measure blocks first rest ∧
      run = runOf measure blocks first rest := by
  induction hn : l.length using Nat.strong_induction_on generalizing l with
  | _ n ih =>
    cases l with
    | nil =>
      rw [runsFrom]
      constructor
      · exact fun h => absurd h List.not_mem_nil
      · rintro ⟨first, rest, hscans, -⟩
        cases hscans
    | cons first rest =>
      rw [List.length_cons] at hn
      rw [runsFrom]
      by_cases haccepted : Accepted measure blocks first rest
      · rw [if_pos haccepted, List.mem_cons, ih _ (by rw [List.length_drop]; omega) rfl]
        constructor
        · rintro (rfl | ⟨first', rest', hscans, h⟩)
          · exact ⟨first, rest, .here _, haccepted, rfl⟩
          · exact ⟨first', rest', .behind haccepted hscans, h⟩
        · rintro ⟨first', rest', hscans, haccepted', rfl⟩
          cases hscans with
          | here => exact Or.inl rfl
          | behind _ hscans => exact Or.inr ⟨first', rest', hscans, haccepted', rfl⟩
          | next hrefused _ => exact absurd haccepted hrefused
      · rw [if_neg haccepted, ih _ (by omega) rfl]
        constructor
        · rintro ⟨first', rest', hscans, h⟩
          exact ⟨first', rest', .next haccepted hscans, h⟩
        · rintro ⟨first', rest', hscans, haccepted', rfl⟩
          cases hscans with
          | here => exact absurd haccepted' haccepted
          | behind haccepted' _ => exact absurd haccepted' haccepted
          | next _ hscans => exact ⟨first', rest', hscans, haccepted', rfl⟩

/-! ## Lines -/

theorem Ascending.start_le_stop (h : Ascending blocks) (i : Nat) : startOf blocks i ≤ stopOf blocks i := by
  unfold startOf stopOf
  cases hb : blocks[i]? with
  | none => exact le_refl _
  | some b => exact h.proper b (List.mem_of_getElem? hb)

theorem Ascending.stop_le_start (h : Ascending blocks) (hik : i < k) (hk : k < blocks.length) :
    stopOf blocks i ≤ startOf blocks k := by
  have hi := hik.trans hk
  have hpair := List.pairwise_iff_getElem.mp h.ordered i k hi hk hik
  unfold startOf stopOf
  rw [List.getElem?_eq_getElem hi, List.getElem?_eq_getElem hk]
  exact hpair

theorem Ascending.start_le_start (h : Ascending blocks) (hik : i ≤ k) (hk : k < blocks.length) :
    startOf blocks i ≤ startOf blocks k := by
  rcases Nat.eq_or_lt_of_le hik with rfl | hlt
  · exact le_refl _
  · exact (h.start_le_stop i).trans (h.stop_le_start hlt hk)

theorem Ascending.stop_le_stop (h : Ascending blocks) (hik : i ≤ k) (hk : k < blocks.length) :
    stopOf blocks i ≤ stopOf blocks k := by
  rcases Nat.eq_or_lt_of_le hik with rfl | hlt
  · exact le_refl _
  · exact (h.stop_le_start hlt hk).trans (h.start_le_stop k)

theorem group_starts : first :: joined measure blocks first rest <+: first :: rest :=
  List.cons_prefix_cons.mpr ⟨rfl, grow_prefix⟩

theorem lastOf_mem : lastOf measure blocks first rest ∈ first :: joined measure blocks first rest := getLastD_mem

theorem runsFrom_disjoint (h : Ascending blocks) (hsorted : l.Pairwise (· < ·)) (hrange : ∀ i ∈ l, i < blocks.length) :
    (runsFrom measure blocks l).Pairwise fun r s => r.endLine ≤ s.startLine := by
  induction hn : l.length using Nat.strong_induction_on generalizing l with
  | _ n ih =>
    cases l with
    | nil =>
      rw [runsFrom]
      exact List.Pairwise.nil
    | cons first rest =>
      rw [List.length_cons] at hn
      rw [runsFrom]
      have hrest := (List.pairwise_cons.mp hsorted).2
      have hrangeRest : ∀ i ∈ rest, i < blocks.length := fun i hi => hrange i (List.mem_cons_of_mem _ hi)
      by_cases haccepted : Accepted measure blocks first rest
      · rw [if_pos haccepted]
        have hgroup : first :: joined measure blocks first rest <+: first :: rest := group_starts
        obtain ⟨behind, hbehind⟩ := hgroup
        have hdrop : rest.drop (joined measure blocks first rest).length = behind := by
          rw [List.cons_append, List.cons.injEq] at hbehind
          have hleft : (joined measure blocks first rest ++ behind).drop (joined measure blocks first rest).length = behind :=
            List.drop_left
          rwa [hbehind.2] at hleft
        have hapart : ∀ a ∈ first :: joined measure blocks first rest, ∀ b ∈ behind, a < b := by
          rw [← hbehind] at hsorted
          exact (List.pairwise_append.mp hsorted).2.2
        refine List.Pairwise.cons ?_ ?_
        · intro s hs
          obtain ⟨first', rest', hscans, -, rfl⟩ := Iff.mp mem_runsFrom hs
          rw [hdrop] at hscans
          have hmem : first' ∈ behind := hscans.suffix.subset List.mem_cons_self
          have hin : first' ∈ rest := List.mem_of_mem_drop (hdrop ▸ hmem)
          exact h.stop_le_start (hapart _ lastOf_mem _ hmem) (hrangeRest _ hin)
        · exact ih _ (by rw [List.length_drop]; omega) (hrest.sublist (List.drop_sublist _ _))
            (fun i hi => hrangeRest i (List.mem_of_mem_drop hi)) rfl
      · rw [if_neg haccepted]
        exact ih _ (by omega) hrest hrangeRest rfl

/-! ## Soundness -/

end Runs

/-! ## A note between the rows -/

/-- `_measure_block_rows` on the four lines below. -/
def measureStatement (lines : List String) : List RowGeometry :=
  if lines = ["See note 1."] then []
  else [⟨[0, 8, 14], ["alphabetic", "numeric", "numeric"], [1, 2], [1, 2], false⟩]

def statementBlocks : List Block :=
  [⟨0, 1, ["Cash    10    20"]⟩, ⟨1, 2, ["See note 1."]⟩, ⟨2, 3, ["Debt    30    40"]⟩, ⟨3, 4, ["Fees    50    60"]⟩]

theorem statementBlocks_ascending : Ascending statementBlocks := ⟨by decide, by decide⟩

end EdgarSec.Tables
