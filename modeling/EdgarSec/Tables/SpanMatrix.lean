import EdgarSec.Lib.Grid

/-! `build_span_matrix`: which cell owns each slot of a table, under `colspan` and `rowspan`. -/

namespace EdgarSec.Tables
open Lib

structure SourceCell where
  text : String
  colspan : Nat
  rowspan : Nat
  colspan_pos : 1 ≤ colspan
  rowspan_pos : 1 ≤ rowspan
  deriving DecidableEq, Repr

structure CellRef where
  row : Nat
  index : Nat
  cell : SourceCell
  deriving DecidableEq, Repr

structure SpanGroup where
  startRow : Nat
  endRow : Nat
  startCol : Nat
  endCol : Nat
  sourceCell : CellRef
  deriving DecidableEq, Repr

structure Layout where
  matrix : Grid CellRef
  spanGroups : List SpanGroup
  deriving DecidableEq, Repr

def cellRefs (rows : List (List SourceCell)) : List (List CellRef) :=
  rows.zipIdx.map fun row => row.1.zipIdx.map fun cell => ⟨row.2, cell.2, cell.1⟩

def placeCell (rIdx : Nat) (s : Layout × Nat) (ref : CellRef) : Layout × Nat :=
  let cStart := skipWhile Option.isSome (s.1.matrix.getD rIdx []) s.2
  let cEnd := cStart + ref.cell.colspan
  let targetREnd := rIdx + ref.cell.rowspan
  let matrix := fill rIdx targetREnd cStart cEnd ref s.1.matrix
  let spanGroups :=
    if 1 < ref.cell.colspan ∨ 1 < ref.cell.rowspan then
      s.1.spanGroups ++ [⟨rIdx, targetREnd - 1, cStart, cEnd - 1, ref⟩]
    else s.1.spanGroups
  (⟨matrix, spanGroups⟩, cEnd)

def placeRow (rIdx : Nat) : Layout × Nat → List CellRef → Layout × Nat
  | s, [] => s
  | s, ref :: refs => placeRow rIdx (placeCell rIdx s ref) refs

def placeRows : Nat → Layout → List (List CellRef) → Layout
  | _, l, [] => l
  | rIdx, l, row :: rows => placeRows (rIdx + 1) (placeRow rIdx (l, 0) row).1 rows

def emptyLayout (rows : List (List SourceCell)) : Layout := ⟨List.replicate rows.length [], []⟩

def maxCols (matrix : Grid CellRef) : Nat := (matrix.map List.length).foldr max 0

def buildSpanMatrix (rows : List (List SourceCell)) : Layout :=
  if rows = [] then ⟨[], []⟩
  else
    let l := placeRows 0 (emptyLayout rows) (cellRefs rows)
    ⟨l.matrix.map (padTo (maxCols l.matrix) none), l.spanGroups⟩

/-! ## What ownership is to be -/

/-- No slot changes its owner. -/
def Keeps (before after : Grid CellRef) : Prop :=
  ∀ r c a, slot before r c = some a → slot after r c = some a

def RowKeeps (rIdx : Nat) : Layout × Nat → List CellRef → Prop
  | _, [] => True
  | s, ref :: refs =>
    Keeps s.1.matrix (placeCell rIdx s ref).1.matrix ∧ RowKeeps rIdx (placeCell rIdx s ref) refs

def RowsKeep : Nat → Layout → List (List CellRef) → Prop
  | _, _, [] => True
  | rIdx, l, row :: rows =>
    RowKeeps rIdx (l, 0) row ∧ RowsKeep (rIdx + 1) (placeRow rIdx (l, 0) row).1 rows

def OwnsRectangle (matrix : Grid CellRef) (ref : CellRef) : Prop :=
  ∃ col, ∀ r c, slot matrix r c = some ref ↔
    (ref.row ≤ r ∧ r < ref.row + ref.cell.rowspan) ∧ col ≤ c ∧ c < col + ref.cell.colspan

def NamesSlots (matrix : Grid CellRef) (g : SpanGroup) : Prop :=
  ∀ r c, slot matrix r c = some g.sourceCell ↔
    (g.startRow ≤ r ∧ r ≤ g.endRow) ∧ g.startCol ≤ c ∧ c ≤ g.endCol

structure OwnsRectangles (rows : List (List SourceCell)) : Prop where
  rectangular : ∃ width, ∀ row ∈ (buildSpanMatrix rows).matrix, row.length = width
  owned : ∀ ref ∈ (cellRefs rows).flatten, OwnsRectangle (buildSpanMatrix rows).matrix ref
  untaken : RowsKeep 0 (emptyLayout rows) (cellRefs rows)
  groups : ∀ g ∈ (buildSpanMatrix rows).spanGroups, NamesSlots (buildSpanMatrix rows).matrix g

/-! ## Room -/

def hold (held : List Nat) (first : Nat) (cell : SourceCell) : List Nat :=
  (padTo (first + cell.colspan) 0 held).mapIdx fun c h =>
    if first ≤ c ∧ c < first + cell.colspan then cell.rowspan else h

def nextOpen (held : List Nat) (col : Nat) : Nat := skipWhile (fun h => 0 < h) held col

def holdRow : List Nat → Nat → List SourceCell → Option (List Nat)
  | held, _, [] => some held
  | held, col, cell :: cells =>
    if ∀ d < cell.colspan, held.getD (nextOpen held col + d) 0 = 0 then
      holdRow (hold held (nextOpen held col) cell) (nextOpen held col + cell.colspan) cells
    else none

def hasRoom : List Nat → List (List SourceCell) → Bool
  | _, [] => true
  | held, row :: rows =>
    match holdRow held 0 row with
    | none => false
    | some held => hasRoom (held.map (· - 1)) rows

end EdgarSec.Tables
