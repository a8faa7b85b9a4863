import EdgarSec.Foundation.Lines
import EdgarSec.Lexical.Tokens

/-! What the columns of a table need, and how their widths are fitted into the budget before they are
balanced. -/

namespace EdgarSec.Tables.Widths
open Foundation Lexical

structure RenderBudget where
  maxTableWidth : Int := 180
  maxDenseTableOverflow : Int := 48
  denseTableMinColumns : Int := 10
  columnSpacing : Int := 2
  deriving DecidableEq, Repr

structure Span where
  row : Nat
  cols : List Nat
  text : Chars
  deriving DecidableEq, Repr

structure TextRules where
  isNumericCell : Chars → Bool
  wrapCellText : Chars → Nat → List Chars
  normalizeHeaderKey : Chars → Chars
  isDigit : Chars → Bool

def textLength (text : Chars) : Nat := (stripChars text).length

def longest : List Chars → Chars
  | [] => []
  | text :: rest => rest.foldl (fun best t => if best.length < t.length then t else best) text

/-- `sorted` by a key, the greatest first; equal keys stay in order. -/
def sortedDown (key : Nat → Int) (cols : List Nat) : List Nat := cols.insertionSort fun a b => key b ≤ key a

def tableWidth (spacing : Int) (widths : List Int) : Int :=
  widths.sum + spacing * max 0 ((widths.countP fun w => 0 < w : Nat) - 1 : Int)

/-! ## Headers -/

def headerMinimumWidth (text : Chars) : Nat :=
  ((pySplit text).flatMap fun word => ((word.splitOn '-').filter (· ≠ [])).map List.length).max?.getD 1

section Headers
variable (rules : TextRules) (text : Chars)

def preferredHeaderWidth : Nat :=
  let length := textLength text
  if length ≤ 14 then length
  else
    let minimum := headerMinimumWidth text
    match (List.range' minimum (25 - minimum)).find? fun width => (rules.wrapCellText text width).length ≤ 2 with
    | some width => width
    | none => min 24 (max minimum ((length + 1) / 2))

def tryTwoLines : List Nat → Nat → Nat → Nat ⊕ (Nat × Nat)
  | [], best, minDiff => .inr (best, minDiff)
  | w :: rest, best, minDiff =>
    match rules.wrapCellText text w with
    | [first, second] =>
      let long := max (textLength first) (textLength second)
      let diff := long - min (textLength first) (textLength second)
      if diff ≤ 6 then .inl long
      else if diff < minDiff then tryTwoLines rest long diff
      else tryTwoLines rest best minDiff
    | _ => tryTwoLines rest best minDiff

def tryThreeLines : List Nat → Nat → Nat → Option Nat
  | [], best, _ => some best
  | w :: rest, best, minDiff =>
    let lines := rules.wrapCellText text w
    if lines.length ≤ 3 then
      let lengths := (lines.map textLength).filter (· ≠ 0)
      match lengths.max?, lengths.min? with
      | some long, some short =>
        if long - short < minDiff then tryThreeLines rest long (long - short) else tryThreeLines rest best minDiff
      | _, _ => none
    else tryThreeLines rest best minDiff

def balancedWrapWidth (maxCap : Nat) : Option Nat :=
  let length := textLength text
  let minW := headerMinimumWidth text
  let half := (length + 1) / 2
  let third := (length + 2) / 3
  if length ≤ 30 ∨ length ≤ maxCap then some length
  else
    match tryTwoLines rules text (List.range' (max minW (half - 5)) (min (maxCap + 1) length - max minW (half - 5))) maxCap 999 with
    | .inl w => some w
    | .inr (best, minDiff) =>
      let best := if 70 < length then
          tryThreeLines rules text (List.range' (max minW (third - 3)) (min maxCap half - max minW (third - 3))) best minDiff
        else some best
      best.map fun best => min maxCap (max minW best)

end Headers

/-! ## Columns -/

structure Extent where
  maxTextLen : Nat := 0
  maxNumLen : Nat := 0
  maxWordLen : Nat := 0
  numCount : Nat := 0
  textCount : Nat := 0
  deriving DecidableEq, Repr

structure Column where
  natural : Nat
  minSafe : Nat
  numeric : Bool
  prose : Bool
  deriving DecidableEq, Repr

def visualLines (text : Chars) : List Chars :=
  let lines := ((splitlines text).map fun line => line.rdropWhile isPySpace).filter fun line => stripChars line ≠ []
  if lines = [] then [stripChars text] else lines

def inMultiSpan (spans : List Span) (row col : Nat) : Bool :=
  spans.any fun s => s.row = row && decide (1 < s.cols.length) && s.cols.contains col

section Columns
variable (rules : TextRules) (spans : List Span)

def Extent.add (e : Extent) (text : Chars) : Extent :=
  let stripped := stripChars text
  if stripped = [] then e
  else
    let lines := visualLines text
    let longestLen := (longest lines).length
    let maxWordLen := ((pySplit (joined lines)).map List.length).foldl max e.maxWordLen
    if rules.isNumericCell stripped then
      { e with maxWordLen := maxWordLen, numCount := e.numCount + 1, maxNumLen := max e.maxNumLen longestLen }
    else { e with maxWordLen := maxWordLen, textCount := e.textCount + 1, maxTextLen := max e.maxTextLen longestLen }

def extentOf (rows : List (List Chars)) (col : Nat) : Extent :=
  (rows.mapIdx fun row cells => if inMultiSpan spans row col then [] else cells.getD col []).foldl (Extent.add rules) {}

def headerCandidates (skip : Nat → Bool) (col : Nat) : Nat → List (List Chars) → Option (List Chars)
  | _, [] => some []
  | row, cells :: rows =>
    if skip row then headerCandidates skip col (row + 1) rows
    else
      match cells[col]? with
      | none => none
      | some text =>
        (headerCandidates skip col (row + 1) rows).map fun found =>
          if rules.isNumericCell (stripChars text) = false ∧ stripChars text ≠ [] then stripChars text :: found else found

def longestHeader (rows : List (List Chars)) (col : Nat) : Option (Option Chars) :=
  (headerCandidates rules (fun row => inMultiSpan spans row col) col 0 (rows.take 4)).map fun found =>
    if found = [] then none else some (longest found)

def numericColumn (e : Extent) (header : Option Chars) : Option Column :=
  let fit := max (max e.maxNumLen e.maxWordLen) 7
  match header with
  | none => some ⟨max e.maxNumLen fit, fit, true, false⟩
  | some header =>
    (balancedWrapWidth rules header 30).bind fun ideal =>
      (balancedWrapWidth rules header 16).map fun tight =>
        let fit := max fit (min 16 tight)
        ⟨max e.maxNumLen (max fit ideal), fit, true, false⟩

def measureColumn (rows : List (List Chars)) (col : Nat) : Option Column :=
  let e := extentOf rules spans rows col
  let numeric := col ≠ 0 && decide (0 < e.numCount) &&
    (decide (e.textCount ≤ e.numCount) || decide (3 * rows.length ≤ 10 * e.numCount))
  let bodyWords := ((rows.drop 1).map fun cells => (pySplit (cells.getD col [])).length).filter (· ≠ 0)
  -- three and a half words on average, or eight in one cell
  let prose := !numeric && ((bodyWords ≠ [] && decide (7 * bodyWords.length ≤ 2 * bodyWords.sum)) ||
    decide (8 ≤ bodyWords.foldl max 0))
  if numeric then (longestHeader rules spans rows col).bind (numericColumn rules e)
  else if prose then some ⟨e.maxTextLen, max e.maxWordLen 38, numeric, prose⟩
  else if col = 0 then some ⟨max e.maxTextLen e.maxNumLen, max e.maxWordLen (min 38 e.maxTextLen), numeric, prose⟩
  else some ⟨e.maxTextLen, max e.maxWordLen 14, numeric, prose⟩

def headerKey (prefixes : List Nat) (rows : List (List Chars)) (col : Nat) (column : Column) : Option (Option Chars) :=
  if column.numeric = true ∧ col ∉ prefixes then
    (longestHeader rules spans rows col).map fun header =>
      (header.map rules.normalizeHeaderKey).filter fun key => key ≠ [] ∧ rules.isDigit key = false
  else some none

def mirrored (columns : List (Column × Option Chars)) : List Column :=
  columns.map fun (column, key) =>
    if key = none then column
    else
      let group := (columns.filter fun other => other.2 = key).map Prod.fst
      { column with
        natural := (group.map Column.natural).foldl max column.natural
        minSafe := (group.map Column.minSafe).foldl max column.minSafe }

end Columns

/-! ## The budget -/

def effectiveBudget (budget : RenderBudget) (prefixes : List Nat) (columns : List Column) : RenderBudget :=
  let numCols := columns.length
  let numericColumns := ((List.range numCols).tail.filter fun c => c ∉ prefixes).length
  let safeFloorWidth : Int := ((columns.map fun column => max 1 column.minSafe).sum : Nat) +
    budget.columnSpacing * max 0 ((numCols : Int) - 1)
  if budget.denseTableMinColumns ≤ numCols ∧ 4 ≤ numericColumns ∧ budget.maxTableWidth < safeFloorWidth then
    { budget with maxTableWidth := min safeFloorWidth (budget.maxTableWidth + budget.maxDenseTableOverflow) }
  else budget

def initialWidth (prefixes : List Nat) (c : Nat) (column : Column) : Nat :=
  if column.natural = 0 then 0
  else if c ∈ prefixes then min 4 (max 1 column.natural)
  else if column.numeric then max 1 column.natural
  else if column.prose then min 80 (max 1 column.natural)
  else if c = 0 then min 60 (max 1 column.natural)
  else min 35 (max 1 column.natural)

def spansByRow (spans : List Span) : List Span :=
  (spans.map Span.row).reverse.dedup.reverse.flatMap fun row => spans.filter fun s => s.row = row

def widthsOf (widths : List Nat) : List Int := widths.map Int.ofNat

section Spans
variable (rules : TextRules) (budget : RenderBudget) (prefixes : List Nat) (numRows : Nat) (columns : List Column)

def idealSpanTarget (s : Span) (valid positive : List Nat) (shown : Nat) (current : Int) : Option Int :=
  let length := s.text.length
  let full := decide (shown ≤ positive.length)
  if max 1 (numRows - 3) ≤ s.row ∧ (60 < length ∨ full) then some current
  else if valid.head? = some 0 then some (min length (max 58 (30 * positive.length) : Nat))
  else if 3 ≤ s.row ∧ (5 ≤ (pySplit s.text).length ∨ 40 ≤ length) ∧ full = false then some (min length 80 : Nat)
  else if length ≤ 24 then some length
  else (balancedWrapWidth rules s.text 48).map fun w => (w : Int)

def expandSpan (widths : List Nat) (s : Span) : Option (List Nat) :=
  let valid := s.cols.filter (· < widths.length)
  if valid = [] ∨ s.text = [] then some widths
  else
    let positive := valid.filter fun c => 0 < widths.getD c 0
    let shown := if positive = [] then valid.foldl (fun ws c => ws.set c (max (ws.getD c 0) 1)) widths else widths
    let positive := if positive = [] then valid else positive
    let current : Int := ((positive.map fun c => shown.getD c 0).sum : Nat) +
      budget.columnSpacing * max 0 ((positive.length : Int) - 1)
    (idealSpanTarget rules numRows s valid positive (shown.countP (0 < ·)) current).map fun ideal =>
      if current < ideal then
        let expandable := positive.filter fun c => c ∉ prefixes ∧ shown.getD c 0 < 80
        let content := expandable.filter fun c => 0 < ((columns[c]?).map Column.natural).getD 0
        let targets := if content = [] then expandable else content
        let each := ((ideal - current).toNat + targets.length - 1) / targets.length
        targets.foldl (fun ws c => ws.set c (ws.getD c 0 + each)) shown
      else shown

end Spans

def shrink (floor : Nat → Nat) : List Nat → Nat → List Nat → Nat × List Nat
  | [], excess, widths => (excess, widths)
  | c :: cols, excess, widths =>
    let amount := min excess (widths.getD c 0 - floor c)
    shrink floor cols (excess - amount) (widths.set c (widths.getD c 0 - amount))

def expand (want : Nat → Nat → Option Nat) : List Nat → Nat → List Nat → Option (Nat × List Nat)
  | [], room, widths => some (room, widths)
  | c :: cols, room, widths =>
    if room = 0 then some (room, widths)
    else
      match want c (widths.getD c 0) with
      | none => none
      | some extra => expand want cols (room - min extra room) (widths.set c (widths.getD c 0 + min extra room))

section Fit
variable (rules : TextRules) (prefixes : List Nat) (columns : List Column)

def shrinkToBudget (budget : RenderBudget) (widths : List Nat) : List Nat :=
  let excess := (tableWidth budget.columnSpacing (widthsOf widths) - budget.maxTableWidth).toNat
  let safe := fun c => ((columns[c]?).map Column.minSafe).getD 0
  let shrinkable := sortedDown (fun c => (widths.getD c 0 : Int) - safe c)
    ((List.range widths.length).filter fun c => 0 < widths.getD c 0 ∧ c ∉ prefixes)
  let (rest, widths) := shrink safe shrinkable excess widths
  (shrink (fun _ => 3) shrinkable rest widths).2

def useHeadroom (budget : RenderBudget) (rows : List (List Chars)) (widths : List Nat) : Option (List Nat) :=
  let headroom := (budget.maxTableWidth - tableWidth budget.columnSpacing (widthsOf widths)).toNat
  let all := List.range widths.length
  let column : Nat → Column := fun c => (columns[c]?).getD ⟨0, 0, false, false⟩
  let proseWant := fun c w =>
    if 0 < w ∧ (column c).prose = true ∧ c ∉ prefixes then some (min ((column c).natural - w) (80 - w)) else some 0
  let firstWant := fun c w => if 0 < w then some ((column c).natural - w) else some 0
  let textWant := fun c w => if 0 < w ∧ (column c).numeric = false ∧ c ∉ prefixes then some ((column c).natural - w) else some 0
  let headerWant := fun c w =>
    if 0 < w ∧ (column c).numeric = true ∧ c ∉ prefixes then
      (headerCandidates rules (fun _ => false) c 0 (rows.take 4)).bind fun found =>
        if found = [] then some 0 else (balancedWrapWidth rules (longest found) 32).map (· - w)
    else some 0
  (expand proseWant all headroom widths).bind fun (headroom, widths) =>
    (expand firstWant (all.take 1) headroom widths).bind fun (headroom, widths) =>
      (expand textWant all headroom widths).bind fun (headroom, widths) =>
        (expand headerWant all headroom widths).map Prod.snd

end Fit

/-! ## Before the balancing -/

structure Measured where
  widths : List Nat
  minSafe : List Nat
  budget : RenderBudget
  deriving DecidableEq, Repr

structure Grid where
  rows : List (List Chars)
  singleColRows : Option (List (List Chars)) := none
  spans : List Span := []
  prefixes : List Nat := []
  deriving DecidableEq, Repr

def Grid.numCols (grid : Grid) : Nat := (grid.rows.headD []).length

def measure (rules : TextRules) (budget : RenderBudget) (grid : Grid) : Option Measured :=
  let numRows := grid.rows.length
  let rows := (grid.singleColRows.getD grid.rows).take numRows
  if rows.length < numRows then none
  else
    ((List.range grid.numCols).mapM (measureColumn rules grid.spans rows)).bind fun columns =>
      ((columns.zipIdx).mapM fun (column, c) => headerKey rules grid.spans grid.prefixes rows c column).bind fun keys =>
        let budget := effectiveBudget budget grid.prefixes columns
        let columns := mirrored (columns.zip keys)
        let widths := columns.mapIdx fun c column => initialWidth grid.prefixes c column
        ((spansByRow grid.spans).foldlM (expandSpan rules budget grid.prefixes numRows columns) widths).bind fun widths =>
          let widths := shrinkToBudget grid.prefixes columns budget widths
          (useHeadroom rules grid.prefixes columns budget rows widths).map fun widths =>
            ⟨widths, columns.map Column.minSafe, budget⟩

end EdgarSec.Tables.Widths
