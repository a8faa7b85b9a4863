import EdgarSec.Document.PageMarkers
import EdgarSec.Foundation.Unicode

/-! Runs of page labels: which groups of candidates are validated, how a run is repaired, and which
missing pages are inferred from it. -/

namespace EdgarSec.Document
open Foundation Lib

/-- A candidate label of one line. Its `space` is `arabic`, `roman` or the letter of an exhibit. -/
structure PageCandidate where
  start : Nat
  stop : Nat
  startLine : Nat
  endLine : Nat
  text : Chars
  family : PageMarkerKind
  space : Chars
  value : Nat
  relativePosition : Option Int
  leadingColumn : Nat
  template : Chars
  deriving DecidableEq

structure PageNumberRun where
  family : PageMarkerKind
  space : Chars
  candidates : List PageCandidate
  monotoneFraction : ℚ
  gapMean : ℚ
  gapMedian : ℚ
  alignmentFraction : ℚ
  sourceStartLine : Nat
  sourceEndLine : Nat
  strategy : String

structure InferredBoundary where
  line : ℚ
  pageNumber : Nat
  space : Chars
  reason : String

def maxInterpolatedGap : Nat := 64

def pairwise {α : Type} (l : List α) : List (α × α) := l.zip l.tail

/-! ## Validation -/

def monotoneFraction (maxDelta : Nat) (values : List Nat) : ℚ :=
  if values.length < 2 then 0
  else (((pairwise values).countP fun p => decide (p.1 < p.2) && decide (p.2 ≤ p.1 + maxDelta) : Nat) : ℚ) / ((values.length - 1 : Nat) : ℚ)

def alignmentFraction (candidates : List PageCandidate) : ℚ :=
  let buckets := candidates.map fun c => c.leadingColumn / 2
  match (buckets.map fun b => buckets.count b).max? with
  | none => 0
  | some most => (most : ℚ) / candidates.length

def gapsOf (candidates : List PageCandidate) : List Nat :=
  (pairwise candidates).map fun p => p.2.startLine - p.1.startLine

def mean (gaps : List Nat) : ℚ := (gaps.sum : ℚ) / gaps.length

def median (gaps : List Nat) : ℚ :=
  let sorted := gaps.insertionSort (· ≤ ·)
  if sorted.length % 2 = 1 then (sorted.getD (sorted.length / 2) 0 : ℚ)
  else ((sorted.getD (sorted.length / 2 - 1) 0 + sorted.getD (sorted.length / 2) 0 : Nat) : ℚ) / 2

def byPosition (a b : PageCandidate) : Prop := a.startLine < b.startLine ∨ (a.startLine = b.startLine ∧ a.start ≤ b.start)

instance : DecidableRel byPosition := fun _ _ => inferInstanceAs (Decidable (_ ∨ _))

def validateGroup (candidates : List PageCandidate) (strategy : String) (minMembers : Nat) (minMonotone minGapMedian : ℚ) :
    Option PageNumberRun :=
  let ordered := candidates.insertionSort byPosition
  match ordered with
  | [] => none
  | first :: rest =>
    if ordered.length < minMembers then none
    else
      let mono := monotoneFraction 3 (ordered.map PageCandidate.value)
      let gaps := gapsOf ordered
      let gapMean := if gaps = [] then 0 else mean gaps
      let gapMedian := if gaps = [] then 0 else median gaps
      if mono < minMonotone ∨ gapMedian < minGapMedian then none
      else some {
        family := first.family
        space := first.space
        candidates := ordered
        monotoneFraction := mono
        gapMean, gapMedian
        alignmentFraction := alignmentFraction ordered
        sourceStartLine := first.startLine
        sourceEndLine := (rest.getLastD first).endLine
        strategy }

/-! ## Repair -/

/-- The place whose member is popped when the neighbours of `index` are looked at. -/
def repairAt (members : List PageCandidate) (index : Nat) : Option Nat := do
  let left ← members[index - 1]?
  let middle ← members[index]?
  let right ← members[index + 1]?
  let times (v : Nat) : Nat := members.countP fun c => c.value = v
  if left.value < right.value then
    if left.value < middle.value ∧ middle.value < right.value then none else some index
  else if left.value = right.value then
    if middle.value = left.value then none else some index
  else
    let previous := if 2 ≤ index then members[index - 2]? else none
    let following := members[index + 2]?
    -- a descent that a page follows is a restart
    if following.any (fun f => f.value = right.value + 1) then none
    else if 1 < times middle.value then some index
    else if 1 < times right.value then some (index + 1)
    else
      let middleSupported := previous.all fun p => p.value < middle.value
      let rightSupported := following.all fun f => right.value < f.value
      if middleSupported && !rightSupported then some index
      else if rightSupported && !middleSupported then some (index + 1)
      else some index

def innerPlaces (members : List PageCandidate) : List Nat := (List.range (members.length - 2)).map (· + 1)

def popWhile (place : List PageCandidate → Option Nat) : Nat → List PageCandidate → List PageCandidate
  | 0, members => members
  | fuel + 1, members =>
    if members.length < 3 then members
    else match place members with
      | none => members
      | some index => popWhile place fuel (members.eraseIdx index)

def repairSequence (members : List PageCandidate) : List PageCandidate :=
  popWhile (fun members => (innerPlaces members).findSome? (repairAt members)) members.length members

def isDetour (left middle right : PageCandidate) : Bool :=
  decide (left.value < right.value) && decide (right.value < middle.value)

def detourAt (members : List PageCandidate) (index : Nat) : Option Nat := do
  let left ← members[index - 1]?
  let middle ← members[index]?
  let right ← members[index + 1]?
  if isDetour left middle right then some index else none

/-! ## Healing -/

def firstMin (f : PageCandidate → Nat) : List PageCandidate → Option PageCandidate
  | [] => none
  | c :: rest => some (rest.foldl (fun best d => if f d < f best then d else best) c)

def promoteBetween (room : Nat) (candidates : List PageCandidate) (promoted : List PageCandidate)
    (pair : PageCandidate × PageCandidate) : List PageCandidate :=
  let (left, right) := pair
  let between := candidates.filter fun c =>
    decide (left.startLine < c.startLine ∧ c.startLine < right.startLine) &&
      decide (left.value < c.value ∧ c.value < right.value)
  if promoted.length < room then promoted ++ (firstMin (fun c => c.value - left.value - 1) between).toList else promoted

structure Healed where
  members : List PageCandidate
  values : List Nat
  promoted : List PageCandidate

def healMembers (run : PageNumberRun) (pool : List PageCandidate) : Healed :=
  let repaired := repairSequence run.candidates
  let values := repaired.map PageCandidate.value
  let ids := repaired.map fun c => (c.startLine, c.value)
  let members := popWhile (fun members => (innerPlaces members).findSome? (detourAt members)) repaired.length repaired
  let candidates := pool.filter fun c => decide (c.space = run.space ∧ c.family = run.family) &&
    !ids.contains (c.startLine, c.value) && !values.contains c.value
  let promoted := (pairwise members).foldl (promoteBetween (max 1 (members.length / 2)) candidates) []
  if promoted = [] then ⟨members, values, []⟩
  else ⟨((members ++ promoted).dedup).insertionSort (fun a b => a.startLine ≤ b.startLine),
    values ++ promoted.map PageCandidate.value, promoted⟩

def breaksBetween (breaks : Finset Nat) (left right : PageCandidate) : Nat :=
  (breaks.filter fun line => left.startLine < line ∧ line < right.startLine).card

/-- The pages missing between two neighbours; `breaks` is what corroborates them, if anything has to. -/
def inferBetween (space : Chars) (observed : List Nat) (stronger : List Nat) (breaks : Option (Finset Nat))
    (pair : PageCandidate × PageCandidate) : List InferredBoundary :=
  let (left, right) := pair
  let missing := right.value - left.value - 1
  if missing = 0 ∨ maxInterpolatedGap < missing then []
  else if breaks.any (fun lines => breaksBetween lines left right < missing) then []
  else
    let reason := match breaks with
      | none => "interpolated_gap"
      | some lines => if breaksBetween lines left right = missing then "validated_page_break_count" else "page_break_supported"
    ((List.range missing).filter fun rank => !observed.contains (left.value + (rank + 1)) && !stronger.contains (left.value + (rank + 1))).map
      fun rank : Nat => {
        line := left.startLine + ((right.startLine : ℚ) - left.startLine) * ((rank + 1 : Nat) : ℚ) / ((missing + 1 : Nat) : ℚ)
        pageNumber := left.value + (rank + 1)
        space, reason }

/-- `heal_run`: the healed run, the inferred boundaries and the promoted candidates. -/
def healRun (run : PageNumberRun) (pool : List PageCandidate) (stronger : List Nat) (breaks : Option (Finset Nat)) :
    PageNumberRun × List InferredBoundary × List PageCandidate :=
  let healed := healMembers run pool
  ((validateGroup healed.members (run.strategy ++ ":healed") 3 (4 / 5) 0).getD run,
    (pairwise healed.members).flatMap (inferBetween run.space healed.values stronger breaks), healed.promoted)

/-! ## Groups -/

section Groups
variable (u : Unicode)

def clusterIsTableLike (candidates : List PageCandidate) : Bool :=
  if candidates.length < 3 then false
  else if candidates.all (fun c => decide (c.family = .inlinePageNumber) && decide ("page".toList <:+: u.folded c.text)) then false
  else
    let gaps := gapsOf (candidates.insertionSort fun a b => a.startLine ≤ b.startLine)
    let dense := ((gaps.countP fun gap => decide (gap ≤ 3) : Nat) : ℚ) / gaps.length
    decide (mean gaps < 8) || decide (3 / 20 ≤ dense) || decide (mean gaps / median gaps < 1 / 2)

def groupsBy {κ : Type} [DecidableEq κ] (key : PageCandidate → κ) (candidates : List PageCandidate) : List (List PageCandidate) :=
  (candidates.map key).eraseDups.map fun k => candidates.filter fun c => key c = k

def anchoredGroups (candidates : List PageCandidate) : List (List PageCandidate) :=
  groupsBy (fun c => (c.relativePosition, c.family, c.space)) candidates

def anchorlessGroups (candidates : List PageCandidate) : List (List PageCandidate) :=
  groupsBy (fun c => (c.family, c.space, c.leadingColumn / 2, c.template)) candidates

def minGap (anchored : Bool) : ℚ := if anchored then 0 else 8

def strategyOf (anchored : Bool) : String := if anchored then "anchor_relative" else "anchorless"

def spacedRun (anchored : Bool) (members : List PageCandidate) : Option PageNumberRun :=
  match validateGroup members (strategyOf anchored) 3 (4 / 5) (minGap anchored) with
  | some run => some run
  | none =>
    match validateGroup members (strategyOf anchored) 3 0 (minGap anchored) with
    | none => none
    | some provisional =>
      if (healRun provisional members [] none).1.monotoneFraction < 4 / 5 then none else some provisional

/-- The body of the loop of `promote_groups`: the run of a group that is admitted. -/
def promoteGroup (anchored : Bool) (members : List PageCandidate) : Option PageNumberRun :=
  if !anchored && clusterIsTableLike u members then none
  else match spacedRun anchored members with
    | none => none
    | some run =>
      if !anchored && decide (run.alignmentFraction < 3 / 5) && decide (members.length < 10) then none
      else some (healRun run members [] none).1

def mergeable (a b : PageNumberRun) : Option PageNumberRun :=
  if a.space ≠ b.space ∨ a.candidates.length < 2 ∨ b.candidates.length < 2 then none
  else
    let combined := (a.candidates ++ b.candidates).insertionSort byPosition
    if monotoneFraction 2 (combined.map PageCandidate.value) < 17 / 20 then none
    else
      let sources := combined.map fun c => a.candidates.contains c
      let alternations := (pairwise sources).countP fun p => p.1 != p.2
      if (alternations : ℚ) / ((sources.length - 1 : Nat) : ℚ) < 3 / 5 then none
      else validateGroup combined ("alternating_verso_recto:" ++ a.strategy) (max a.candidates.length b.candidates.length) (4 / 5) 0

/-- Takes the first later run that unifies with `a` out of the others. -/
def unifyWith (a : PageNumberRun) : List PageNumberRun → Option (PageNumberRun × List PageNumberRun)
  | [] => none
  | b :: rest =>
    match mergeable a b with
    | some unified => some (unified, rest)
    | none => (unifyWith a rest).map fun (unified, others) => (unified, b :: others)

def unifyAlternatingRuns : Nat → List PageNumberRun → List PageNumberRun
  | _, [] => []
  | 0, runs => runs
  | fuel + 1, a :: rest =>
    match unifyWith a rest with
    | some (unified, others) => unified :: unifyAlternatingRuns fuel others
    | none => a :: unifyAlternatingRuns fuel rest

/-- The runs of `promote_groups`. -/
def promoteGroups (anchored : Bool) (candidates : List PageCandidate) : List PageNumberRun :=
  let groups := if anchored then anchoredGroups candidates else anchorlessGroups candidates
  let runs := groups.filterMap (promoteGroup u anchored)
  unifyAlternatingRuns runs.length runs

/-! ## The analysis -/

/-- What the scans of a document find: the candidates near anchors and those of all lines, the lines
of the anchors, and the lines of the markers that break pages. -/
structure PageScan where
  anchored : List PageCandidate
  fallback : List PageCandidate
  anchorLines : Finset Nat
  firmBreaks : Finset Nat

namespace PageScan
variable (scan : PageScan)

/-- `page_number_runs`, the anchored runs first. -/
def runs : List PageNumberRun :=
  (if scan.anchorLines.Nonempty then promoteGroups u true scan.anchored else []) ++ promoteGroups u false scan.fallback

def pool (run : PageNumberRun) : List PageCandidate :=
  (scan.anchored ++ scan.fallback).filter fun c => decide (c.space = run.space ∧ c.family = run.family)

/-- `firm_breaks or None` -/
def breaks : Option (Finset Nat) := if scan.firmBreaks.Nonempty then some scan.firmBreaks else none

def inferredOf (run : PageNumberRun) : List InferredBoundary := (healRun run (scan.pool run) [] scan.breaks).2.1

def inferred : List InferredBoundary := (scan.runs u).flatMap scan.inferredOf

end PageScan
end Groups
end EdgarSec.Document
