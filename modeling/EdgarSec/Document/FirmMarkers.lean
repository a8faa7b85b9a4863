import EdgarSec.Document.LineTable

/-! `firm_markers`: the markers whose shape stands alone, claimed in the order of the patterns. -/

namespace EdgarSec.Document
open Foundation Lib

structure FoundMarker where
  start : Nat
  stop : Nat
  text : Chars
  kind : PageMarkerKind
  pageNumber : Option Nat
  pageCount : Option Nat
  representation : String
  confidence : ℚ
  startLine : Nat
  endLine : Nat
  space : Chars
  family : PageMarkerKind

/-- A match of a pattern in a text: its span and its groups `page`, `count` and `prefix`. -/
structure SpanMatch where
  start : Nat
  stop : Nat
  page : Option Chars
  count : Option Chars
  lead : Option Chars

/-- A match has its span in the text. -/
def SpanMatch.Within (text : Chars) (found : SpanMatch) : Prop := found.start ≤ found.stop ∧ found.stop ≤ text.length

inductive FirmPattern where
  | pageNumberOfTotal
  | numberOfTotal
  | pageNumber
  | dashedNumber
  | letterNumberLabel
  | sgmlLine
  | sgmlInline
  | boundaryToken
  | inlinePageNumberOfTotal
  deriving DecidableEq

/-- What `finditer` finds of the patterns, and whether a text is the furniture of a continuation. -/
structure FirmRules where
  finditer : FirmPattern → Chars → List SpanMatch
  continuationFurniture : Chars → Bool
  within : ∀ pattern text, ∀ found ∈ finditer pattern text, found.Within text

def pageMarkerPatterns : List (PageMarkerKind × FirmPattern) := [
  (.pageNumberOfTotal, .pageNumberOfTotal),
  (.numberOfTotal, .numberOfTotal),
  (.pageNumber, .pageNumber),
  (.dashedNumber, .dashedNumber),
  (.letterNumber, .letterNumberLabel),
  (.sgml, .sgmlLine),
  (.sgml, .sgmlInline)]

/-! ## Spans that are taken -/

abbrev Occupied := List (Nat × Nat)

def isOccupied (occupied : Occupied) (s e : Nat) : Bool :=
  ((occupied.takeWhile fun span => span.1 ≤ s).getLast?.any fun span => s < span.2) ||
    (occupied.dropWhile fun span => span.1 ≤ s).head?.any fun span => span.1 < e

def addOccupied (occupied : Occupied) (s e : Nat) : Occupied :=
  (occupied.takeWhile fun span => span.1 ≤ s) ++ (s, e) :: occupied.dropWhile fun span => span.1 ≤ s

structure FirmState where
  markers : List FoundMarker
  occupied : Occupied

/-! ## Markers -/

/-- `_marker_lines`: from the first character that is no blank. -/
def markerLines (start stop : Nat) (text : Chars) (offsets : List Nat) : Nat × Nat :=
  let first := start + indentOf (slice text start stop)
  (lineForOffset offsets first, lineForOffset offsets (max first (stop - 1)))

section Firm
variable (u : Unicode) (rules : FirmRules) (text : Chars) (representation : String)

/-- `int(value) if value and value.isdigit() else None` -/
def groupDigits (value : Option Chars) : Option Nat :=
  match value with
  | none => none
  | some digits => if u.allDigits digits then (u.int digits).toOption.map Int.toNat else none

def FirmState.claim (state : FirmState) (marker : FoundMarker) : FirmState :=
  ⟨state.markers ++ [marker], addOccupied state.occupied marker.start marker.stop⟩

def claimPattern (kind : PageMarkerKind) (state : FirmState) (found : SpanMatch) : FirmState :=
  if isOccupied state.occupied found.start found.stop then state
  else
    let lines := markerLines found.start found.stop text (lineOffsets (splitlines text))
    let lead := u.uppered (found.lead.getD [])
    state.claim {
      start := found.start
      stop := found.stop
      text := slice text found.start found.stop
      kind
      pageNumber := groupDigits u found.page
      pageCount := groupDigits u found.count
      representation
      confidence := if kind = .letterNumber then 7 / 10 else 95 / 100
      startLine := lines.1
      endLine := lines.2
      space := if lead = [] then "arabic".toList else lead
      family := kind }

def claimBoundary (state : FirmState) (found : SpanMatch) : FirmState :=
  if isOccupied state.occupied found.start found.stop then state
  else
    let lines := markerLines found.start found.stop text (lineOffsets (splitlines text))
    state.claim {
      start := found.start
      stop := found.stop
      text := slice text found.start found.stop
      kind := .boundary
      pageNumber := none
      pageCount := none
      representation
      confidence := 9 / 10
      startLine := lines.1
      endLine := lines.2
      space := []
      family := .boundary }

/-- `_PROSE_PREFIX_SEP.search` -/
def prosePrefixSep (lead : Chars) : Bool :=
  lead.contains '\t' || "  ".toList.isSuffixOf lead || "  \n".toList.isSuffixOf lead

/-- `_PROSE_SUFFIX_SEP.search` -/
def proseSuffixSep (tail : Chars) : Bool := ['\t'].isPrefixOf tail || "  ".toList.isPrefixOf tail

def isGap (c : Char) : Bool := c = ' ' || c = '\t'

/-- The characters of `strip(" -_=—–\t\r")`. -/
def isRule (c : Char) : Bool := c ∈ [' ', '-', '_', '=', '—', '–', '\t', '\r']

def inlineSpan (found : SpanMatch) : Option (Nat × Nat) :=
  let offsets := lineOffsets (splitlines text)
  let index := lineForOffset offsets found.start
  let lineStart := offsets.getD index 0
  let nextLineStart := if index + 1 < offsets.length then offsets.getD (index + 1) 0 else text.length
  let lineEnd := if lineStart < nextLineStart ∧ text[nextLineStart - 1]? = some '\n' then nextLineStart - 1 else nextLineStart
  let before := slice text lineStart found.start
  let behind := slice text found.stop lineEnd
  let hasProsePrefix := stripChars before ≠ [] && !prosePrefixSep before
  let hasProseSuffix := stripChars behind ≠ [] && !proseSuffixSep behind
  if hasProsePrefix && hasProseSuffix then none
  else
    let residue := ((before ++ behind).dropWhile isRule).rdropWhile isRule
    if residue = [] ∨ rules.continuationFurniture residue then some (lineStart, lineEnd)
    else if stripChars behind = [] then some (lineStart + (before.rdropWhile isGap).length, found.stop)
    else if stripChars before = [] then some (found.start, lineEnd - (behind.dropWhile isGap).length)
    else some (lineStart + (before.rdropWhile isGap).length, found.stop)

def inlinePages (found : SpanMatch) : Option (Nat × Nat) := do
  let page ← groupDigits u found.page
  let count ← groupDigits u found.count
  if 1 ≤ page ∧ page ≤ count ∧ count ≤ 9999 then some (page, count) else none

/-- `page N of M` inside a line. -/
def claimInline (state : FirmState) (found : SpanMatch) : FirmState :=
  if isOccupied state.occupied found.start found.stop then state
  else match inlinePages u found, inlineSpan rules text found with
    | some (page, count), some (start, stop) =>
      if isOccupied state.occupied start stop then state
      else
        let lines := markerLines start stop text (lineOffsets (splitlines text))
        state.claim {
          start, stop
          text := slice text start stop
          kind := .pageNumberOfTotal
          pageNumber := some page
          pageCount := some count
          representation
          confidence := 95 / 100
          startLine := lines.1
          endLine := lines.2
          space := "arabic".toList
          family := .pageNumberOfTotal }
    | _, _ => state

/-- `firm_markers`: the state after all patterns. -/
def firmState (allowLetterNumber : Bool) : FirmState :=
  let patterns := pageMarkerPatterns.filter fun p => p.1 ≠ .letterNumber || allowLetterNumber
  let lined := patterns.foldl (fun state p => (rules.finditer p.2 text).foldl (claimPattern u text representation p.1) state) ⟨[], []⟩
  let bounded := (rules.finditer .boundaryToken text).foldl (claimBoundary text representation) lined
  (rules.finditer .inlinePageNumberOfTotal text).foldl (claimInline u rules text representation) bounded

/-- The markers of `firm_markers`, in the order of their starts. -/
def firmMarkers (allowLetterNumber : Bool) : List FoundMarker :=
  (firmState u rules text representation allowLetterNumber).markers.insertionSort fun a b => a.start ≤ b.start

def FoundMarker.lines (marker : FoundMarker) : List Nat := List.range' marker.startLine (marker.endLine + 1 - marker.startLine)

def linesOf (markers : List FoundMarker) : List Nat := markers.flatMap FoundMarker.lines

end Firm

/-! ## Spans -/

def InText (text : Chars) (span : Nat × Nat) : Prop := span.1 ≤ span.2 ∧ span.2 ≤ text.length

/-- Of two spans one ends before the other begins. -/
def Apart (a b : Nat × Nat) : Prop := a.2 ≤ b.1 ∨ b.2 ≤ a.1

theorem Apart.symm {a b : Nat × Nat} (h : Apart a b) : Apart b a := Or.symm h

structure Ordered (occupied : Occupied) : Prop where
  spans : ∀ span ∈ occupied, span.1 ≤ span.2
  ordered : occupied.Pairwise fun a b => a.2 ≤ b.1

theorem Ordered.addOccupied {occupied : Occupied} {s e : Nat} (h : Ordered occupied) (hse : s ≤ e)
    (hfree : isOccupied occupied s e = false) : Ordered (addOccupied occupied s e) := by
  unfold isOccupied at hfree
  unfold Document.addOccupied
  have hsplit : (occupied.takeWhile fun span => decide (span.1 ≤ s)) ++ (occupied.dropWhile fun span => decide (span.1 ≤ s)) = occupied :=
    List.takeWhile_append_dropWhile
  have hbefore : ∀ span ∈ occupied.takeWhile fun span => decide (span.1 ≤ s), span.1 ≤ s :=
    fun span hspan => by simpa using List.mem_takeWhile_imp hspan
  generalize (occupied.takeWhile fun span => decide (span.1 ≤ s)) = before at *
  generalize (occupied.dropWhile fun span => decide (span.1 ≤ s)) = behind at *
  rw [Bool.or_eq_false_iff] at hfree
  have hord := h.ordered
  rw [← hsplit, List.pairwise_append] at hord
  obtain ⟨hordBefore, hordBehind, hcross⟩ := hord
  have hspans : ∀ span ∈ before ++ behind, span.1 ≤ span.2 := by
    rw [hsplit]
    exact h.spans
  -- all spans in front end before the new one
  have hfront : ∀ span ∈ before, span.2 ≤ s := by
    intro span hspan
    rcases List.eq_nil_or_concat' before with hnil | ⟨front, last, hconcat⟩
    · rw [hnil] at hspan
      exact absurd hspan List.not_mem_nil
    · rw [hconcat] at hspan hfree hordBefore
      have hlast : last.2 ≤ s := by simpa using hfree.1
      rcases List.mem_append.mp hspan with hspan | hspan
      · have hle := (List.pairwise_append.mp hordBefore).2.2 span hspan last (by simp)
        have hown := hspans last (by simp [hconcat])
        omega
      · rw [List.mem_singleton.mp hspan]
        exact hlast
  -- all spans behind begin after it
  have hback : ∀ span ∈ behind, e ≤ span.1 := by
    intro span hspan
    cases behind with
    | nil => exact absurd hspan List.not_mem_nil
    | cons next rest =>
      have hnext : e ≤ next.1 := by simpa using hfree.2
      rcases List.mem_cons.mp hspan with rfl | hspan
      · exact hnext
      · have hle := (List.pairwise_cons.mp hordBehind).1 span hspan
        have hown := hspans next (by simp)
        omega
  refine ⟨?_, ?_⟩
  · intro span hspan
    rcases List.mem_append.mp hspan with hspan | hspan
    · exact hspans span (List.mem_append_left _ hspan)
    · rcases List.mem_cons.mp hspan with rfl | hspan
      · exact hse
      · exact hspans span (List.mem_append_right _ hspan)
  · rw [List.pairwise_append, List.pairwise_cons]
    refine ⟨hordBefore, ⟨hback, hordBehind⟩, ?_⟩
    intro a ha b hb
    rcases List.mem_cons.mp hb with rfl | hb
    · exact hfront a ha
    · exact hcross a ha b hb

theorem addOccupied_perm (occupied : Occupied) (s e : Nat) : (addOccupied occupied s e).Perm (occupied ++ [(s, e)]) := by
  have hsplit : (occupied.takeWhile fun span => decide (span.1 ≤ s)) ++ (occupied.dropWhile fun span => decide (span.1 ≤ s)) = occupied :=
    List.takeWhile_append_dropWhile
  have hmiddle := @List.perm_middle _ (s, e) (occupied.takeWhile fun span => decide (span.1 ≤ s))
    (occupied.dropWhile fun span => decide (span.1 ≤ s))
  rw [hsplit] at hmiddle
  exact hmiddle.trans (List.perm_append_singleton _ _).symm

/-! ## The markers that are claimed -/

def FoundMarker.span (marker : FoundMarker) : Nat × Nat := (marker.start, marker.stop)

structure Claimed (text : Chars) (state : FirmState) : Prop where
  spans : (state.markers.map FoundMarker.span).Perm state.occupied
  ordered : Ordered state.occupied
  inText : ∀ m ∈ state.markers, InText text m.span
  lines : ∀ m ∈ state.markers, (m.startLine, m.endLine) = markerLines m.start m.stop text (lineOffsets (splitlines text))

section Claims
variable {u : Unicode} {rules : FirmRules} {text : Chars} {representation : String} {state : FirmState}

theorem Claimed.start : Claimed text ⟨[], []⟩ :=
  ⟨.refl _, ⟨fun _ h => absurd h List.not_mem_nil, .nil⟩, fun _ h => absurd h List.not_mem_nil, fun _ h => absurd h List.not_mem_nil⟩

theorem Claimed.claim (h : Claimed text state) {marker : FoundMarker} (hin : InText text marker.span)
    (hlines : (marker.startLine, marker.endLine) = markerLines marker.start marker.stop text (lineOffsets (splitlines text)))
    (hfree : isOccupied state.occupied marker.start marker.stop = false) : Claimed text (state.claim marker) := by
  refine ⟨?_, h.ordered.addOccupied hin.1 hfree, ?_, ?_⟩
  · show ((state.markers ++ [marker]).map FoundMarker.span).Perm _
    rw [List.map_append, List.map_singleton]
    exact (h.spans.append_right _).trans (addOccupied_perm _ _ _).symm
  · intro m hm
    rcases List.mem_append.mp hm with hm | hm
    · exact h.inText m hm
    · rw [List.mem_singleton.mp hm]
      exact hin
  · intro m hm
    rcases List.mem_append.mp hm with hm | hm
    · exact h.lines m hm
    · rw [List.mem_singleton.mp hm]
      exact hlines

theorem Claimed.pattern {kind : PageMarkerKind} {found : SpanMatch} (h : Claimed text state) (hfound : found.Within text) :
    Claimed text (claimPattern u text representation kind state found) := by
  unfold claimPattern
  split
  case isTrue => exact h
  case isFalse hfree => exact h.claim hfound rfl (Bool.eq_false_iff.mpr hfree)

theorem Claimed.boundary {found : SpanMatch} (h : Claimed text state) (hfound : found.Within text) :
    Claimed text (claimBoundary text representation state found) := by
  unfold claimBoundary
  split
  case isTrue => exact h
  case isFalse hfree => exact h.claim hfound rfl (Bool.eq_false_iff.mpr hfree)

theorem splitlines_ne_nil (htext : text ≠ []) : 0 < (splitlines text).length := by
  rw [splitlines, List.length_map]
  refine List.length_pos_iff.mpr fun hnil => htext ?_
  rw [← splitlinesKeep_flatten text, hnil]
  rfl

theorem lineForOffset_lt (htext : text ≠ []) (p : Nat) : lineForOffset (lineOffsets (splitlines text)) p < (splitlines text).length := by
  have hpos := splitlines_ne_nil htext
  rw [lineForOffset, length_lineOffsets]
  omega

theorem offset_lineForOffset_le (p : Nat) :
    (lineOffsets (splitlines text)).getD (lineForOffset (lineOffsets (splitlines text)) p) 0 ≤ p := by
  generalize hoffsets : lineOffsets (splitlines text) = offsets
  have hhead : ∀ first ∈ offsets.head?, first = 0 := by
    rw [← hoffsets, lineOffsets_eq]
    cases splitlines text <;> simp [offsetsFrom]
  unfold lineForOffset bisectRight
  by_cases hempty : (offsets.takeWhile fun a => decide (a ≤ p)) = []
  · -- only the first line is left, and it begins the text
    rw [hempty]
    cases offsets with
    | nil => exact Nat.zero_le p
    | cons first rest =>
      have hfirst := hhead first rfl
      simp [hfirst]
  · have hpos : 0 < (offsets.takeWhile fun a => decide (a ≤ p)).length := List.length_pos_iff.mpr hempty
    have hle : (offsets.takeWhile fun a => decide (a ≤ p)).length ≤ offsets.length := (List.takeWhile_prefix _).length_le
    have hindex : min ((offsets.takeWhile fun a => decide (a ≤ p)).length - 1) (offsets.length - 1) =
        (offsets.takeWhile fun a => decide (a ≤ p)).length - 1 := by omega
    rw [hindex, List.getD_eq_getElem _ _ (by omega)]
    have hbound : (offsets.takeWhile fun a => decide (a ≤ p)).length - 1 < (offsets.takeWhile fun a => decide (a ≤ p)).length := by omega
    have hmem : (offsets.takeWhile fun a => decide (a ≤ p))[(offsets.takeWhile fun a => decide (a ≤ p)).length - 1] ∈
        offsets.takeWhile fun a => decide (a ≤ p) := List.getElem_mem hbound
    have hval := List.mem_takeWhile_imp hmem
    rw [(List.takeWhile_prefix _).getElem] at hval
    simpa using hval

theorem length_slice_le (text : Chars) (a b : Nat) : (slice text a b).length ≤ b - a := by
  rw [slice, List.length_drop, List.length_take]
  omega

theorem inlineSpan_inText {found : SpanMatch} (hfound : found.Within text) {span : Nat × Nat}
    (h : inlineSpan rules text found = some span) : InText text span := by
  by_cases htext : text = []
  · subst htext
    have hzero : inlineSpan rules [] found = some (0, 0) := by
      simp [inlineSpan, splitlines, splitlinesKeep, lineOffsets, slice, stripChars]
    rw [← Option.some.inj (hzero.symm.trans h)]
    exact ⟨le_refl 0, le_refl 0⟩
  unfold inlineSpan at h
  simp only at h
  generalize hindex : lineForOffset (lineOffsets (splitlines text)) found.start = index at h
  have hlt : index < (splitlines text).length := by
    rw [← hindex]
    exact lineForOffset_lt htext found.start
  generalize hstart : (lineOffsets (splitlines text)).getD index 0 = lineStart at h
  have hstartLe : lineStart ≤ found.start := by
    rw [← hstart, ← hindex]
    exact offset_lineForOffset_le found.start
  generalize hnext : (if index + 1 < (lineOffsets (splitlines text)).length then (lineOffsets (splitlines text)).getD (index + 1) 0 else text.length) = nextLineStart at h
  have hnextLe : nextLineStart ≤ text.length := by
    rw [← hnext]
    split
    case isTrue hlast =>
      rw [length_lineOffsets] at hlast
      have := offset_add_length_le text hlast
      omega
    case isFalse => exact le_refl _
  have hstartNext : lineStart ≤ nextLineStart := by
    rw [← hnext, ← hstart]
    split
    case isTrue hlast =>
      rw [length_lineOffsets] at hlast
      exact offset_le (Nat.le_succ index) hlast
    case isFalse =>
      have := offset_add_length_le text hlt
      omega
  generalize hend : (if lineStart < nextLineStart ∧ text[nextLineStart - 1]? = some '\n' then nextLineStart - 1 else nextLineStart) = lineEnd at h
  have hendBounds : lineStart ≤ lineEnd ∧ lineEnd ≤ text.length := by
    rw [← hend]
    split_ifs with hfeed
    · omega
    · omega
  have hbefore : ((slice text lineStart found.start).rdropWhile isGap).length ≤ found.start - lineStart :=
    (List.rdropWhile_prefix isGap _).length_le.trans (length_slice_le text _ _)
  have hbehind : ((slice text found.stop lineEnd).dropWhile isGap).length ≤ lineEnd - found.stop :=
    (List.dropWhile_suffix isGap).length_le.trans (length_slice_le text _ _)
  obtain ⟨horder, hstop⟩ := hfound
  split_ifs at h with hprose hfurniture htail hlead
  · rw [← Option.some.inj h]
    exact hendBounds
  · rw [← Option.some.inj h]
    exact ⟨by show lineStart + _ ≤ found.stop; omega, hstop⟩
  · rw [← Option.some.inj h]
    -- there is visible text behind the label, which therefore ends before the line does
    have hsome : found.stop < lineEnd := by
      by_contra hle
      have hnil : slice text found.stop lineEnd = [] := List.eq_nil_of_length_eq_zero (by have := length_slice_le text found.stop lineEnd; omega)
      exact htail (by rw [hnil]; rfl)
    exact ⟨by show found.start ≤ lineEnd - _; omega, by show lineEnd - _ ≤ text.length; omega⟩
  · rw [← Option.some.inj h]
    exact ⟨by show lineStart + _ ≤ found.stop; omega, hstop⟩

theorem Claimed.inline {found : SpanMatch} (h : Claimed text state) (hfound : found.Within text) :
    Claimed text (claimInline u rules text representation state found) := by
  unfold claimInline
  split
  case isTrue => exact h
  case isFalse =>
    split
    · next page count start stop hpages hspan =>
      split
      case isTrue => exact h
      case isFalse hfree => exact h.claim (inlineSpan_inText hfound hspan) rfl (Bool.eq_false_iff.mpr hfree)
    · exact h

theorem claimed_firmState (text : Chars) (u : Unicode) (rules : FirmRules) (representation : String) (allowLetterNumber : Bool) :
    Claimed text (firmState u rules text representation allowLetterNumber) := by
  unfold firmState
  refine List.foldlRecOn _ _ ?_ fun state h found hfound => h.inline (rules.within _ text found hfound)
  refine List.foldlRecOn _ _ ?_ fun state h found hfound => h.boundary (rules.within _ text found hfound)
  refine List.foldlRecOn _ _ .start fun state h p _ => ?_
  exact List.foldlRecOn _ _ h fun state h found hfound => h.pattern (rules.within _ text found hfound)

theorem mem_firmMarkers {allowLetterNumber : Bool} {m : FoundMarker} (h : m ∈ firmMarkers u rules text representation allowLetterNumber) :
    m ∈ (firmState u rules text representation allowLetterNumber).markers := (List.mem_insertionSort _).mp h

theorem firmMarkers_apart (text : Chars) (u : Unicode) (rules : FirmRules) (representation : String) (allowLetterNumber : Bool) :
    (firmMarkers u rules text representation allowLetterNumber).Pairwise fun a b => Apart a.span b.span := by
  have hclaimed := claimed_firmState text u rules representation allowLetterNumber
  have hoccupied : (firmState u rules text representation allowLetterNumber).occupied.Pairwise Apart :=
    hclaimed.ordered.ordered.imp Or.inl
  have hmarkers := Iff.mpr (hclaimed.spans.pairwise_iff fun h => h.symm) hoccupied
  rw [List.pairwise_map] at hmarkers
  exact Iff.mpr ((List.perm_insertionSort _ _).pairwise_iff fun h => h.symm) hmarkers

end Claims

/-! ## Lines of a span -/

/-- The characters of a span stand in the lines from `first` to `last`. -/
def LiesIn (text : Chars) (first last start stop : Nat) : Prop :=
  ∀ p, start ≤ p → p < stop → first ≤ lineAt (splitlinesKeep text) p ∧ lineAt (splitlinesKeep text) p ≤ last

def FoundMarker.visibleStart (marker : FoundMarker) (text : Chars) : Nat := marker.start + indentOf (slice text marker.start marker.stop)

theorem liesIn_markerLines {text : Chars} (hone : OneCharEnds text) {m : FoundMarker} (hin : InText text m.span)
    (hlines : (m.startLine, m.endLine) = markerLines m.start m.stop text (lineOffsets (splitlines text))) :
    LiesIn text m.startLine m.endLine (m.visibleStart text) m.stop := by
  obtain ⟨hfirst, hlast⟩ := Prod.mk.inj hlines
  intro p hp hstop
  have hlen : m.stop ≤ text.length := hin.2
  have hv : m.start + indentOf (slice text m.start m.stop) < text.length := by
    have hvp : m.start + indentOf (slice text m.start m.stop) ≤ p := hp
    omega
  have hmax : max (m.start + indentOf (slice text m.start m.stop)) (m.stop - 1) = m.stop - 1 := by
    have hvp : m.start + indentOf (slice text m.start m.stop) ≤ p := hp
    omega
  rw [hfirst, hlast, hmax, lineForOffset_eq hone hv, lineForOffset_eq hone (by omega)]
  exact ⟨lineAt_mono _ hp, lineAt_mono _ (by omega)⟩

end EdgarSec.Document
