import EdgarSec.Document.PageRuns
import EdgarSec.Foundation.Lines
import EdgarSec.Lexical.Tokens

/-! The candidates of a document's lines, and whether a group that is admitted without anchors is
aligned in the lines of the document. -/

namespace EdgarSec.Document
open Foundation Lib

/-! ## Labels of a line -/

inductive LabelPattern where
  | structuralHeading
  | pageValue
  | simpleWrappedLabel
  | dashLabel
  | pipeLabel
  | parenLabel
  | dottedLabel
  | bareArabic
  | bareRoman
  | leadingNumberLabel
  | trailingNumberLabel
  | pipeHeaderNumberLabel
  | inlinePageLabel
  | letterNumberLabel
  | appendixRomanLabel
  deriving DecidableEq

/-- The spans of a match and of its groups `value` (`page` of a letter label) and `prefix`. -/
structure LabelMatch where
  start : Nat
  stop : Nat
  valueStart : Nat
  valueStop : Nat
  leadStart : Nat
  leadStop : Nat

structure LabelRules where
  find : LabelPattern → Chars → Option LabelMatch
  hasNumericDataShape : Chars → Bool
  romanToInt : Chars → Option Nat
  candidateTemplate : Chars → Chars

def labelChecks : List (LabelPattern × PageMarkerKind × String × Bool) := [
  (.dashLabel, .dashedNumber, "arabic", true),
  (.pipeLabel, .pipeNumber, "arabic", true),
  (.parenLabel, .parenNumber, "arabic", true),
  (.dottedLabel, .dottedNumber, "arabic", true),
  (.bareArabic, .bareNumber, "arabic", true),
  (.bareRoman, .romanNumber, "roman", true),
  (.leadingNumberLabel, .numberFirst, "arabic", false),
  (.trailingNumberLabel, .trailingNumber, "arabic", false),
  (.pipeHeaderNumberLabel, .trailingNumber, "arabic", true),
  (.inlinePageLabel, .inlinePageNumber, "arabic", false)]

section Classify
variable (u : Unicode) (rules : LabelRules)

def labelValue (valueText : Chars) : Option Nat :=
  if u.allDigits valueText then (u.int valueText).toOption.map Int.toNat else rules.romanToInt valueText

def candidate (found : LabelMatch) (line : Chars) (index start : Nat) (family : PageMarkerKind) (valueText space : Chars)
    (relative : Option Int) (wholeLine : Bool) : Option PageCandidate := do
  let value ← labelValue u rules valueText
  if value = 0 then none
  else
    let leading := indentOf line
    let (left, right, text) :=
      if wholeLine then (start + leading, start + (line.rdropWhile isPySpace).length, (line.drop leading).rdropWhile isPySpace)
      else if family = .inlinePageNumber then
        (start + found.leadStart, start + found.valueStop, slice line found.leadStart found.valueStop)
      else (start + found.valueStart, start + found.valueStop, slice line found.start found.stop)
    some {
      start := left
      stop := right
      startLine := index
      endLine := index
      text, family, space, value
      relativePosition := relative
      leadingColumn := leading
      template := rules.candidateTemplate line }

def firstShape (stripped : Chars) : Option (LabelMatch × PageMarkerKind × Chars × Bool) :=
  labelChecks.findSome? fun (pattern, family, space, wholeLine) => do
    let found ← rules.find pattern stripped
    if family ∈ [.numberFirst, .trailingNumber, .inlinePageNumber] ∧ (12 < (Lexical.pySplit stripped).length ∨ 120 < stripped.length) then none
    else if family = .dashedNumber then
      some (found, family, if u.allDigits (slice stripped found.valueStart found.valueStop) then "arabic".toList else "roman".toList, wholeLine)
    else some (found, family, space.toList, wholeLine)

def classifyCandidate (allowLetterNumber : Bool) (line : Chars) (index start : Nat) (relative : Option Int) : Option PageCandidate :=
  let stripped := stripChars line
  let value (found : LabelMatch) : Chars := slice stripped found.valueStart found.valueStop
  let lead (found : LabelMatch) : Chars := u.uppered (slice stripped found.leadStart found.leadStop)
  -- every label is cut out of the stripped line
  let build (found : LabelMatch) (family : PageMarkerKind) (space : Chars) (wholeLine : Bool) : Option PageCandidate :=
    candidate u rules found stripped index (start + indentOf line) family (value found) space relative wholeLine
  if stripped = [] ∨ u.folded stripped ∈ ["<page>".toList, "</page>".toList] then none
  else if (rules.find .structuralHeading stripped).isSome then none
  else if rules.hasNumericDataShape line && !((rules.find .pageValue stripped).isSome ||
      (rules.find .simpleWrappedLabel stripped).isSome || (rules.find .pipeHeaderNumberLabel stripped).isSome) then none
  else match firstShape u rules stripped with
    | some (found, family, space, wholeLine) => build found family space wholeLine
    | none =>
      if !allowLetterNumber then none
      else match rules.find .letterNumberLabel stripped with
        | some found => build found .letterNumber (lead found) true
        | none =>
          match rules.find .appendixRomanLabel stripped with
          | none => none
          | some found => if (rules.romanToInt (value found)).isSome then build found .appendixRoman (lead found) true else none

def lineOffsets (lines : List Chars) : List Nat :=
  (List.range lines.length).map fun i => ((lines.take i).map fun line => line.length + 1).sum

/-- The candidate of a line in `all_candidates`. -/
def getCandidate (allowLetterNumber : Bool) (lines : List Chars) (occupied excluded : List Nat) (index : Nat) : Option PageCandidate :=
  let line := lines.getD index []
  if index ∈ occupied ∨ index ∈ excluded then none
  else if stripChars line = [] ∨ 120 < line.length then none
  else classifyCandidate u rules allowLetterNumber line index ((lineOffsets lines).getD index 0) none

/-- `all_candidates` without anchors. Long documents are probed first, and what the probes find is
found again by the pass over all lines. -/
def allCandidates (allowLetterNumber : Bool) (document : Chars) (occupied excluded : List Nat) : List PageCandidate :=
  let lines := splitlines document
  (List.range lines.length).filterMap (getCandidate u rules allowLetterNumber lines occupied excluded)

end Classify

/-! ## Alignment -/

/-- `leading // 2` of a line as it stands in the document. -/
def indentBucket (line : Chars) : Nat := indentOf line / 2

/-- Three in five members stand in lines of one indentation bucket. -/
def SourceAligned (lines : List Chars) (members : List PageCandidate) : Prop :=
  ∃ bucket, 3 * members.length ≤ 5 * members.countP fun c => indentBucket (lines.getD c.startLine []) = bucket

section
variable {u : Unicode} {rules : LabelRules} {members : List PageCandidate} {c : PageCandidate}

theorem leadingColumn_of_candidate {found : LabelMatch} {line : Chars} {index start : Nat} {family : PageMarkerKind}
    {valueText space : Chars} {relative : Option Int} {wholeLine : Bool}
    (h : candidate u rules found line index start family valueText space relative wholeLine = some c) :
    c.leadingColumn = indentOf line := by
  unfold candidate at h
  rw [Option.bind_eq_bind, Option.bind_eq_some_iff] at h
  obtain ⟨value, -, h⟩ := h
  split at h
  · exact absurd h (Option.some_ne_none c).symm
  · have heq := Option.some.inj h
    rw [← heq]

theorem leadingColumn_of_classify {allowLetterNumber : Bool} {line : Chars} {index start : Nat} {relative : Option Int}
    (h : classifyCandidate u rules allowLetterNumber line index start relative = some c) : c.leadingColumn = 0 := by
  have hbuild : ∀ {found family valueText space wholeLine},
      candidate u rules found (stripChars line) index (start + indentOf line) family valueText space relative wholeLine = some c →
        c.leadingColumn = 0 := by
    intro found family valueText space wholeLine hc
    rw [leadingColumn_of_candidate hc, indentOf_stripChars]
  unfold classifyCandidate at h
  simp only at h
  iterate 3
    split at h
    · exact absurd h (Option.some_ne_none c).symm
  split at h
  · exact hbuild h
  · split at h
    · exact absurd h (Option.some_ne_none c).symm
    · split at h
      · exact hbuild h
      · split at h
        · exact absurd h (Option.some_ne_none c).symm
        · split at h
          · exact hbuild h
          · exact absurd h (Option.some_ne_none c).symm

theorem leadingColumn_of_mem {allowLetterNumber : Bool} {document : Chars} {occupied excluded : List Nat}
    (h : c ∈ allCandidates u rules allowLetterNumber document occupied excluded) : c.leadingColumn = 0 := by
  obtain ⟨index, -, hc⟩ := List.mem_filterMap.mp h
  unfold getCandidate at hc
  simp only at hc
  split_ifs at hc
  exact leadingColumn_of_classify hc

theorem alignmentFraction_eq_one (hne : members ≠ []) (h : ∀ c ∈ members, c.leadingColumn = 0) : alignmentFraction members = 1 := by
  have hbuckets : (members.map fun c => c.leadingColumn / 2) = List.replicate members.length 0 := by
    apply List.eq_replicate_iff.mpr
    refine ⟨List.length_map _, ?_⟩
    intro b hb
    obtain ⟨c, hc, rfl⟩ := List.mem_map.mp hb
    rw [h c hc]
  have hpos : members.length ≠ 0 := fun hzero => hne (List.length_eq_zero_iff.mp hzero)
  have hcounts : ((List.replicate members.length 0).map fun b => (List.replicate members.length 0).count b) =
      List.replicate members.length members.length := by
    rw [List.map_replicate, List.count_replicate_self]
  unfold alignmentFraction
  simp only [hbuckets, hcounts, List.max?_replicate_of_pos (Nat.pos_of_ne_zero hpos)]
  exact div_self (Nat.cast_ne_zero.mpr hpos)

theorem alignmentFraction_of_validateGroup {strategy : String} {minMembers : Nat} {minMonotone minGapMedian : ℚ} {run : PageNumberRun}
    (h : ∀ c ∈ members, c.leadingColumn = 0) (hrun : validateGroup members strategy minMembers minMonotone minGapMedian = some run) :
    run.alignmentFraction = 1 := by
  unfold validateGroup at hrun
  simp only at hrun
  split at hrun
  · exact absurd hrun (Option.some_ne_none run).symm
  · next first rest hordered =>
    have hone : alignmentFraction (members.insertionSort byPosition) = 1 := by
      apply alignmentFraction_eq_one
      · rw [hordered]
        exact List.cons_ne_nil first rest
      · intro c hc
        exact h c ((List.mem_insertionSort _).mp hc)
    split at hrun
    · exact absurd hrun (Option.some_ne_none run).symm
    · by_cases hgate : monotoneFraction 3 ((members.insertionSort byPosition).map PageCandidate.value) < minMonotone ∨
          (if gapsOf (members.insertionSort byPosition) = [] then 0 else median (gapsOf (members.insertionSort byPosition))) < minGapMedian
      · rw [if_pos hgate] at hrun
        exact absurd hrun (Option.some_ne_none run).symm
      · rw [if_neg hgate] at hrun
        rw [← Option.some.inj hrun]
        exact hone

theorem alignmentFraction_of_spacedRun {anchored : Bool} {run : PageNumberRun} (h : ∀ c ∈ members, c.leadingColumn = 0)
    (hrun : spacedRun anchored members = some run) : run.alignmentFraction = 1 := by
  unfold spacedRun at hrun
  split at hrun
  · next run' hvalid =>
    rw [← Option.some.inj hrun]
    exact alignmentFraction_of_validateGroup h hvalid
  · split at hrun
    · exact absurd hrun (Option.some_ne_none run).symm
    · next provisional hvalid =>
      split_ifs at hrun
      rw [← Option.some.inj hrun]
      exact alignmentFraction_of_validateGroup h hvalid

theorem isSome_promoteGroup_iff (h : ∀ c ∈ members, c.leadingColumn = 0) :
    (promoteGroup u false members).isSome ↔ clusterIsTableLike u members = false ∧ (spacedRun false members).isSome := by
  unfold promoteGroup
  cases htable : clusterIsTableLike u members with
  | true => simp
  | false =>
    cases hrun : spacedRun false members with
    | none => simp
    | some run =>
      have hone := alignmentFraction_of_spacedRun h hrun
      have hgate : ¬ run.alignmentFraction < 3 / 5 := by
        rw [hone]
        norm_num
      simp [hgate]

end

def bareNumbers : LabelRules where
  find pattern line :=
    if pattern = .bareArabic ∧ line ≠ [] ∧ line.length ≤ 4 ∧ line.all Char.isDigit then some ⟨0, line.length, 0, line.length, 0, 0⟩ else none
  hasNumericDataShape _ := false
  romanToInt _ := none
  candidateTemplate _ := ['#']

def raggedColumn : Chars :=
  "1\n\n\n\n\n\n\n\n\n\n          2\n\n\n\n\n\n\n\n\n\n                    3\n".toList

end EdgarSec.Document
