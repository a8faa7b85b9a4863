import EdgarSec.Document.FurnitureSpans

/-! `analyze_page_markers`: firm markers, labels of validated runs, and repeated blocks, against the lines of the document. -/

namespace EdgarSec.Document
open Foundation Lib

structure LabelSpans (rules : LabelRules) : Prop where
  value : ∀ {pattern line found}, rules.find pattern line = some found → found.valueStart ≤ found.valueStop
  lead : ∀ {pattern line found}, rules.find pattern line = some found → found.leadStart ≤ found.valueStop
  within : ∀ {pattern line found}, rules.find pattern line = some found → found.valueStop ≤ line.length

structure AnalysisRules where
  firm : FirmRules
  labels : LabelRules
  headers : HeaderRules
  findTocSpan : Chars → Option (Nat × Nat)
  setOrder : List Nat → List Nat
  labelSpans : LabelSpans labels

structure MarkerContext where
  tocLines : List Nat
  allowTableFurniture : Bool

/-! ## Candidates beside anchors -/

section Near
variable (u : Unicode) (rules : LabelRules) (allowLetterNumber : Bool) (lines : List Chars) (occupied excluded : List Nat)

def candidateNear (relative : Int) (index : Nat) : Option PageCandidate :=
  let line := lines.getD index []
  if index ∈ occupied ∨ index ∈ excluded then none
  else if stripChars line = [] ∨ 120 < line.length then none
  else classifyCandidate u rules allowLetterNumber line index ((lineOffsets lines).getD index 0) (some relative)

def scanFrom (scan : Int × Int) : List (Nat × Int) :=
  let (anchor, direction) := scan
  let positions := if 0 < direction then List.range' (anchor + 1).toNat (lines.length - (anchor + 1).toNat)
    else (List.range (min anchor.toNat lines.length)).reverse
  let eligible := (positions.filter fun i => stripChars (lines.getD i []) ≠ [] && !occupied.contains i && !excluded.contains i).take 3
  eligible.zipIdx.map fun (i, rank) => (i, direction * ((rank + 1 : Nat) : Int))

/-- `all_candidates` with anchors. The candidate of a line is kept for later anchors, and with it the nearest place. -/
def nearCandidates (anchors : List Nat) : List PageCandidate :=
  let around := anchors.flatMap fun a : Nat => [((a : Int), (1 : Int)), ((a : Int), -1)]
  let scans := if 2 ≤ anchors.length then around ++ [(-1, 1), ((lines.length : Int), -1)] else around
  let relatives := scans.flatMap (scanFrom lines occupied excluded)
  (List.range lines.length).filterMap fun index =>
    match ((relatives.filter fun p => p.1 = index).map Prod.snd).insertionSort fun a b => a.natAbs ≤ b.natAbs with
    | [] => none
    | relative :: _ => candidateNear u rules allowLetterNumber lines occupied excluded relative index

end Near

/-! ## Markers of runs -/

def markerForCandidate (confidence : ℚ) (candidate : PageCandidate) : FoundMarker where
  start := candidate.start
  stop := candidate.stop
  text := candidate.text
  kind := candidate.family
  pageNumber := some candidate.value
  pageCount := none
  representation := "ascii"
  confidence := confidence
  startLine := candidate.startLine
  endLine := candidate.endLine
  space := candidate.space
  family := candidate.family

def duplicatePages (run : PageNumberRun) (members : List PageCandidate) : List PageCandidate :=
  members.foldl (fun duplicates candidate =>
    if candidate.startLine ∉ (run.candidates ++ duplicates).map PageCandidate.startLine ∧
        candidate.value ∈ run.candidates.map PageCandidate.value then duplicates ++ [candidate]
    else duplicates) []

section Analysis
variable (u : Unicode) (rules : AnalysisRules)

/-- The markers of `promote_groups`. -/
def promotedMarkers (anchored : Bool) (candidates : List PageCandidate) : List FoundMarker :=
  (if anchored then anchoredGroups candidates else anchorlessGroups candidates).flatMap fun members =>
    match promoteGroup u anchored members with
    | none => []
    | some run =>
      if anchored then (run.candidates ++ duplicatePages run members).map (markerForCandidate (88 / 100))
      else run.candidates.map (markerForCandidate (8 / 10))

def addMarker (markers : List FoundMarker) (marker : FoundMarker) : List FoundMarker :=
  if (markers.map FoundMarker.span).contains marker.span then markers else markers ++ [marker]

def bySpan (a b : FoundMarker) : Prop := a.start < b.start ∨ (a.start = b.start ∧ a.stop ≤ b.stop)

instance : DecidableRel bySpan := fun _ _ => inferInstanceAs (Decidable (_ ∨ _))

def labelMarkers (document : Chars) (toc : List Nat) (firm : List FoundMarker) (allowLetterNumber : Bool) : List FoundMarker :=
  let lines := splitlines document
  let occupied := linesOf firm
  let anchors := occupied.dedup
  let anchored := if anchors = [] then []
    else promotedMarkers u true (nearCandidates u rules.labels allowLetterNumber lines occupied toc (rules.setOrder anchors))
  let fallback := promotedMarkers u false (allCandidates u rules.labels allowLetterNumber document occupied toc)
  ((anchored ++ fallback).foldl addMarker firm).insertionSort bySpan

def headerScan (context : MarkerContext) (toc : List Nat) (markers : List FoundMarker) : List FoundMarker × HeaderScan :=
  let labels := markers.filter fun m => m.pageNumber.isSome
  let breaks := markers.filter fun m => m.kind = .sgml || m.kind = .boundary
  let headers := if breaks = [] then labels else breaks
  let footers := if labels = [] then breaks else labels
  (headers ++ footers, ⟨toc, context.allowTableFurniture, linesOf markers, headers.map FoundMarker.startLine, footers.map FoundMarker.startLine⟩)

/-- The markers of `analyze_page_markers`. -/
def analyzePageMarkers (context : MarkerContext) (representation : String) (allowLetterNumber : Bool) (document : Chars) :
    Except String (List FoundMarker) :=
  if document = [] then .ok []
  else if u.folded representation.toList = "html".toList then
    .error ("analyze_page_markers does not accept representation='html'; project the document to a text frame first " ++
      "(edgar_sec.engine.document.page_markers.policy)")
  else
    let firm := firmMarkers u rules.firm document representation allowLetterNumber
    let toc := if context.tocLines = [] then
        match rules.findTocSpan document with
        | some (start, stop) => List.range' start (stop - start)
        | none => []
      else context.tocLines
    let markers := labelMarkers u rules document toc firm allowLetterNumber
    let anchors := headerScan context toc markers
    let repeated := (analyzeRepeatingHeaders u rules.headers document anchors.1 anchors.2).2
    .ok ((markers ++ repeated.filter fun m => !(markers.map FoundMarker.span).contains m.span).insertionSort bySpan)

end Analysis

/-! ## Spans of candidates -/

def InLine (lines : List Chars) (c : PageCandidate) : Prop := OverLines lines c.startLine c.endLine c.start c.stop

section Candidates
variable {u : Unicode} {rules : LabelRules} {c : PageCandidate} {lines : List Chars}

theorem built_of_classify {allowLetterNumber : Bool} {line : Chars} {index start : Nat} {relative : Option Int}
    (h : classifyCandidate u rules allowLetterNumber line index start relative = some c) :
    ∃ pattern found family valueText space wholeLine, rules.find pattern (stripChars line) = some found ∧
      candidate u rules found (stripChars line) index (start + indentOf line) family valueText space relative wholeLine = some c := by
  unfold classifyCandidate at h
  simp only at h
  iterate 3
    split at h
    · exact absurd h (Option.some_ne_none c).symm
  split at h
  · next found family space wholeLine hshape =>
    obtain ⟨⟨pattern, _⟩, -, hshape⟩ := List.exists_of_findSome?_eq_some hshape
    rw [Option.bind_eq_bind, Option.bind_eq_some_iff] at hshape
    obtain ⟨own, hown, hshape⟩ := hshape
    have hsame : own = found := by
      split at hshape
      · exact absurd hshape.symm (Option.some_ne_none _)
      · split at hshape
        · exact (Prod.mk.inj (Option.some.inj hshape)).1
        · exact (Prod.mk.inj (Option.some.inj hshape)).1
    exact ⟨pattern, found, family, _, space, wholeLine, hsame ▸ hown, h⟩
  · split at h
    · exact absurd h (Option.some_ne_none c).symm
    · split at h
      · next found hfound => exact ⟨_, found, _, _, _, _, hfound, h⟩
      · split at h
        · exact absurd h (Option.some_ne_none c).symm
        · next found hfound =>
          split at h
          · exact ⟨_, found, _, _, _, _, hfound, h⟩
          · exact absurd h (Option.some_ne_none c).symm

theorem span_of_candidate {found : LabelMatch} {line : Chars} {index start : Nat} {family : PageMarkerKind} {valueText space : Chars}
    {relative : Option Int} {wholeLine : Bool} (hvalue : found.valueStart ≤ found.valueStop) (hlead : found.leadStart ≤ found.valueStop)
    (hwithin : found.valueStop ≤ line.length) (hindent : indentOf line = 0)
    (h : candidate u rules found line index start family valueText space relative wholeLine = some c) :
    c.startLine = index ∧ c.endLine = index ∧ start ≤ c.start ∧ c.start ≤ c.stop ∧ c.stop ≤ start + line.length := by
  unfold candidate at h
  rw [Option.bind_eq_bind, Option.bind_eq_some_iff] at h
  obtain ⟨value, -, h⟩ := h
  split at h
  · exact absurd h (Option.some_ne_none c).symm
  · have hright : (line.rdropWhile isPySpace).length ≤ line.length := (List.rdropWhile_prefix isPySpace line).length_le
    cases wholeLine with
    | true =>
      rw [← Option.some.inj h]
      refine ⟨rfl, rfl, ?_⟩
      show start ≤ start + indentOf line ∧ start + indentOf line ≤ start + (line.rdropWhile isPySpace).length ∧
        start + (line.rdropWhile isPySpace).length ≤ start + line.length
      omega
    | false =>
      by_cases hfamily : family = .inlinePageNumber
      · simp only [Bool.false_eq_true, if_false, if_pos hfamily] at h
        rw [← Option.some.inj h]
        refine ⟨rfl, rfl, ?_⟩
        simp only
        omega
      · simp only [Bool.false_eq_true, if_false, if_neg hfamily] at h
        rw [← Option.some.inj h]
        refine ⟨rfl, rfl, ?_⟩
        simp only
        omega

theorem indentOf_add_le (line : Chars) : indentOf line + (stripChars line).length ≤ line.length := by
  have hdrop : (line.dropWhile isPySpace).length ≤ line.length := (List.dropWhile_suffix isPySpace).length_le
  have hstrip : (stripChars line).length ≤ (line.dropWhile isPySpace).length := (List.rdropWhile_prefix isPySpace _).length_le
  unfold indentOf
  omega

theorem inLine_of_classify (hspans : LabelSpans rules) {allowLetterNumber : Bool} {index : Nat} {relative : Option Int} (hindex : index < lines.length)
    (h : classifyCandidate u rules allowLetterNumber (lines.getD index []) index ((lineOffsets lines).getD index 0) relative = some c) :
    InLine lines c := by
  obtain ⟨pattern, found, family, valueText, space, wholeLine, hfound, hbuilt⟩ := built_of_classify h
  have hspan := span_of_candidate (hspans.value hfound) (hspans.lead hfound) (hspans.within hfound) (indentOf_stripChars _) hbuilt
  have hline := indentOf_add_le (lines.getD index [])
  obtain ⟨hstart, hend, hbegin, horder, hstop⟩ := hspan
  refine ⟨?_, ?_, ?_, horder, ?_⟩
  · rw [hstart, hend]
  · rw [hend]
    exact hindex
  · rw [hstart]
    omega
  · rw [hend]
    omega

theorem inLine_of_all (hspans : LabelSpans rules) {allowLetterNumber : Bool} {document : Chars} {occupied excluded : List Nat}
    (h : c ∈ allCandidates u rules allowLetterNumber document occupied excluded) : InLine (splitlines document) c := by
  obtain ⟨index, hindex, hc⟩ := List.mem_filterMap.mp h
  unfold getCandidate at hc
  simp only at hc
  split_ifs at hc
  exact inLine_of_classify hspans (List.mem_range.mp hindex) hc

theorem inLine_of_near (hspans : LabelSpans rules) {allowLetterNumber : Bool} {occupied excluded anchors : List Nat}
    (h : c ∈ nearCandidates u rules allowLetterNumber lines occupied excluded anchors) : InLine lines c := by
  obtain ⟨index, hindex, hc⟩ := List.mem_filterMap.mp h
  split at hc
  · exact absurd hc.symm (Option.some_ne_none c)
  · unfold candidateNear at hc
    simp only at hc
    split_ifs at hc
    exact inLine_of_classify hspans (List.mem_range.mp hindex) hc

end Candidates

/-! ## Members of runs -/

section Runs
variable {u : Unicode} {members pool : List PageCandidate} {run : PageNumberRun} {c : PageCandidate}

theorem candidates_of_validateGroup {strategy : String} {minMembers : Nat} {minMonotone minGapMedian : ℚ}
    (h : validateGroup members strategy minMembers minMonotone minGapMedian = some run) : run.candidates ⊆ members := by
  unfold validateGroup at h
  simp only at h
  split at h
  · exact absurd h.symm (Option.some_ne_none run)
  · split_ifs at h
    all_goals
      rw [← Option.some.inj h]
      exact fun c hc => (List.mem_insertionSort _).mp hc

theorem popWhile_subset (place : List PageCandidate → Option Nat) (fuel : Nat) (members : List PageCandidate) : popWhile place fuel members ⊆ members := by
  induction fuel generalizing members with
  | zero => exact List.Subset.refl _
  | succ fuel ih =>
    unfold popWhile
    split
    · exact List.Subset.refl _
    · split
      · exact List.Subset.refl _
      · exact List.Subset.trans (ih _) (List.eraseIdx_subset)

theorem firstMin_mem {f : PageCandidate → Nat} {l : List PageCandidate} (h : firstMin f l = some c) : c ∈ l := by
  cases l with
  | nil => exact absurd h.symm (Option.some_ne_none c)
  | cons d rest =>
    have hfold : rest.foldl (fun best e => if f e < f best then e else best) d ∈ d :: rest := by
      refine List.foldlRecOn (motive := fun best => best ∈ d :: rest) _ _ List.mem_cons_self fun best hbest e he => ?_
      split
      · exact List.mem_cons_of_mem d he
      · exact hbest
    rw [← Option.some.inj h]
    exact hfold

theorem promoted_subset (room : Nat) (pool : List PageCandidate) (pairs : List (PageCandidate × PageCandidate)) :
    pairs.foldl (promoteBetween room pool) [] ⊆ pool := by
  refine List.foldlRecOn (motive := fun promoted => promoted ⊆ pool) _ _ (List.nil_subset pool) fun promoted hpromoted pair _ => ?_
  unfold promoteBetween
  simp only
  split
  · intro c hc
    rcases List.mem_append.mp hc with hc | hc
    · exact hpromoted hc
    · exact List.mem_of_mem_filter (firstMin_mem (Option.mem_toList.mp hc))
  · exact hpromoted

theorem healMembers_subset (run : PageNumberRun) (pool : List PageCandidate) : (healMembers run pool).members ⊆ run.candidates ++ pool := by
  have hrepaired : ∀ place fuel, popWhile place fuel (repairSequence run.candidates) ⊆ run.candidates :=
    fun place fuel => List.Subset.trans (popWhile_subset place fuel _) (popWhile_subset _ _ _)
  unfold healMembers
  simp only
  split
  · exact List.Subset.trans (hrepaired _ _) (List.subset_append_left _ _)
  · intro c hc
    rw [List.mem_insertionSort, List.mem_dedup] at hc
    rcases List.mem_append.mp hc with hc | hc
    · exact List.mem_append_left _ (hrepaired _ _ hc)
    · exact List.mem_append_right _ (List.mem_of_mem_filter (promoted_subset _ _ _ hc))

theorem healRun_subset {stronger : List Nat} {breaks : Option (Finset Nat)} (run : PageNumberRun) (pool : List PageCandidate) :
    (healRun run pool stronger breaks).1.candidates ⊆ run.candidates ++ pool := by
  show ((validateGroup (healMembers run pool).members (run.strategy ++ ":healed") 3 (4 / 5) 0).getD run).candidates ⊆ _
  cases hvalid : validateGroup (healMembers run pool).members (run.strategy ++ ":healed") 3 (4 / 5) 0 with
  | none => exact List.subset_append_left _ _
  | some healed => exact List.Subset.trans (candidates_of_validateGroup hvalid) (healMembers_subset run pool)

theorem spacedRun_subset {anchored : Bool} (h : spacedRun anchored members = some run) : run.candidates ⊆ members := by
  unfold spacedRun at h
  split at h
  · next own hvalid =>
    rw [← Option.some.inj h]
    exact candidates_of_validateGroup hvalid
  · split at h
    · exact absurd h.symm (Option.some_ne_none run)
    · next provisional hvalid =>
      split_ifs at h
      rw [← Option.some.inj h]
      exact candidates_of_validateGroup hvalid

theorem promoteGroup_subset {anchored : Bool} (h : promoteGroup u anchored members = some run) : run.candidates ⊆ members := by
  unfold promoteGroup at h
  split_ifs at h
  split at h
  · exact absurd h.symm (Option.some_ne_none run)
  · next own hspaced =>
    split_ifs at h
    rw [← Option.some.inj h]
    exact List.Subset.trans (healRun_subset own members) (List.append_subset.mpr ⟨spacedRun_subset hspaced, List.Subset.refl _⟩)

theorem duplicatePages_subset (run : PageNumberRun) (members : List PageCandidate) : duplicatePages run members ⊆ members := by
  refine List.foldlRecOn (motive := fun duplicates => duplicates ⊆ members) _ _ (List.nil_subset members) fun duplicates hduplicates c hc => ?_
  split
  · exact List.append_subset.mpr ⟨hduplicates, by simpa using hc⟩
  · exact hduplicates

theorem mem_of_groupsBy {κ : Type} [DecidableEq κ] {key : PageCandidate → κ} {candidates : List PageCandidate}
    (h : members ∈ groupsBy key candidates) : members ⊆ candidates := by
  obtain ⟨k, -, rfl⟩ := List.mem_map.mp h
  exact List.filter_subset_self _

theorem promotedMarkers_of_candidates {anchored : Bool} {candidates : List PageCandidate} {m : FoundMarker}
    (h : m ∈ promotedMarkers u anchored candidates) : ∃ c ∈ candidates, ∃ confidence, m = markerForCandidate confidence c := by
  obtain ⟨members, hmembers, h⟩ := List.mem_flatMap.mp h
  have hgroup : members ⊆ candidates := by
    split at hmembers
    · exact mem_of_groupsBy hmembers
    · exact mem_of_groupsBy hmembers
  split at h
  · exact absurd h List.not_mem_nil
  · next run hrun =>
    have hown := promoteGroup_subset hrun
    split at h
    · obtain ⟨c, hc, rfl⟩ := List.mem_map.mp h
      rcases List.mem_append.mp hc with hc | hc
      · exact ⟨c, hgroup (hown hc), _, rfl⟩
      · exact ⟨c, hgroup (duplicatePages_subset _ _ hc), _, rfl⟩
    · obtain ⟨c, hc, rfl⟩ := List.mem_map.mp h
      exact ⟨c, hgroup (hown hc), _, rfl⟩

end Runs

/-! ## Spans and lines of all markers -/

section Markers
variable {u : Unicode} {rules : AnalysisRules} {document : Chars}

theorem mem_of_addMarker {markers added : List FoundMarker} {m : FoundMarker} (h : m ∈ added.foldl addMarker markers) : m ∈ markers ∨ m ∈ added := by
  revert h
  refine List.foldlRecOn (motive := fun kept => m ∈ kept → m ∈ markers ∨ m ∈ added) _ _ Or.inl fun kept hkept next hnext h => ?_
  unfold addMarker at h
  split at h
  · exact hkept h
  · rcases List.mem_append.mp h with h | h
    · exact hkept h
    · rw [List.mem_singleton.mp h]
      exact .inr hnext

theorem overLines_labelMarkers {toc : List Nat} {firm : List FoundMarker} {allowLetterNumber : Bool} {m : FoundMarker}
    (h : m ∈ labelMarkers u rules document toc firm allowLetterNumber) :
    m ∈ firm ∨ OverLines (splitlines document) m.startLine m.endLine m.start m.stop := by
  unfold labelMarkers at h
  simp only at h
  rcases mem_of_addMarker ((List.mem_insertionSort _).mp h) with h | h
  · exact .inl h
  · refine .inr ?_
    rcases List.mem_append.mp h with h | h
    · split at h
      · exact absurd h List.not_mem_nil
      · obtain ⟨c, hc, confidence, rfl⟩ := promotedMarkers_of_candidates h
        exact inLine_of_near rules.labelSpans hc
    · obtain ⟨c, hc, confidence, rfl⟩ := promotedMarkers_of_candidates h
      exact inLine_of_all rules.labelSpans hc

theorem overLines_of_analysis {context : MarkerContext} {representation : String} {allowLetterNumber : Bool} {markers : List FoundMarker}
    (h : analyzePageMarkers u rules context representation allowLetterNumber document = .ok markers) {m : FoundMarker} (hm : m ∈ markers) :
    m ∈ firmMarkers u rules.firm document representation allowLetterNumber ∨
      OverLines (splitlines document) m.startLine m.endLine m.start m.stop := by
  unfold analyzePageMarkers at h
  by_cases hne : document = []
  · rw [if_pos hne] at h
    rw [← Except.ok.inj h] at hm
    exact absurd hm List.not_mem_nil
  rw [if_neg hne] at h
  split at h
  · cases h
  · rw [← Except.ok.inj h, List.mem_insertionSort] at hm
    rcases List.mem_append.mp hm with hm | hm
    · exact overLines_labelMarkers hm
    · exact .inr (overLines_headers _ _ _ _ _ m (List.mem_of_mem_filter hm))

/-- Every marker has its span in the document, firm markers do not meet, and where every line ends with one character a
firm marker lies from its first visible character on, any other marker as a whole, in the lines that it says. -/
theorem markers_in_lines (u : Unicode) (rules : AnalysisRules) (context : MarkerContext) (representation : String) (allowLetterNumber : Bool)
    (document : Chars) (markers : List FoundMarker)
    (h : analyzePageMarkers u rules context representation allowLetterNumber document = .ok markers) :
    (∀ m ∈ markers, m.start ≤ m.stop ∧ m.stop ≤ document.length) ∧
    (firmMarkers u rules.firm document representation allowLetterNumber).Pairwise (fun a b => Apart a.span b.span) ∧
    (OneCharEnds document → ∀ m ∈ markers,
      (m ∈ firmMarkers u rules.firm document representation allowLetterNumber ∧
        LiesIn document m.startLine m.endLine (m.visibleStart document) m.stop) ∨
      LiesIn document m.startLine m.endLine m.start m.stop) := by
  have hclaimed := claimed_firmState document u rules.firm representation allowLetterNumber
  refine ⟨fun m hm => ?_, firmMarkers_apart document u rules.firm representation allowLetterNumber, fun hone m hm => ?_⟩
  · rcases overLines_of_analysis h hm with hfirm | hover
    · exact hclaimed.inText m (mem_firmMarkers hfirm)
    · exact hover.inText
  · rcases overLines_of_analysis h hm with hfirm | hover
    · have hmem := mem_firmMarkers hfirm
      exact .inl ⟨hfirm, liesIn_markerLines hone (hclaimed.inText m hmem) (hclaimed.lines m hmem)⟩
    · exact .inr (hover.liesIn hone)

end Markers

/-! ## A label below blank lines -/

def labelBelowBlanks : Chars := "\n\nF-3\n".toList

def blankLabelMatch : SpanMatch := ⟨0, 6, some "3".toList, none, some "F".toList⟩

def letterLabels (pattern : FirmPattern) (text : Chars) : List SpanMatch :=
  if pattern = .letterNumberLabel ∧ text = labelBelowBlanks then [blankLabelMatch] else []

theorem letterLabels_within (pattern : FirmPattern) (text : Chars) (found : SpanMatch) (h : found ∈ letterLabels pattern text) : found.Within text := by
  unfold letterLabels at h
  split at h
  case isTrue hsample =>
    rw [List.mem_singleton.mp h, hsample.2]
    exact ⟨by decide, by decide⟩
  case isFalse => exact absurd h List.not_mem_nil

theorem bareNumbers_spans : LabelSpans bareNumbers := by
  have hfound : ∀ {pattern line found}, bareNumbers.find pattern line = some found → found = ⟨0, line.length, 0, line.length, 0, 0⟩ := by
    intro pattern line found h
    unfold bareNumbers at h
    simp only at h
    split at h
    · exact (Option.some.inj h).symm
    · exact absurd h.symm (Option.some_ne_none found)
  refine ⟨fun h => ?_, fun h => ?_, fun h => ?_⟩
  · rw [hfound h]
    exact Nat.zero_le _
  · rw [hfound h]
    exact Nat.zero_le _
  · rw [hfound h]

def plainHeaders : HeaderRules where
  standaloneTag _ := false
  pageTokens line := line
  standalonePageNumbers line := line
  trailingNumber line := line
  proseStopWords _ := []
  itemHeading _ := false
  barePercent _ := false
  checkboxLine _ := false
  gutters _ := []
  separatorLine _ := false
  listMarker _ := false
  isAlpha c := c.isAlpha

def letterLabelRules : AnalysisRules where
  firm := ⟨letterLabels, fun _ => false, letterLabels_within⟩
  labels := bareNumbers
  headers := plainHeaders
  findTocSpan _ := none
  setOrder l := l
  labelSpans := bareNumbers_spans

/-- The marker begins in the first line and says that it is in the third. -/
theorem label_above_its_line : ¬ ∀ markers,
    analyzePageMarkers asciiLetters letterLabelRules ⟨[], false⟩ "ascii" true labelBelowBlanks = .ok markers →
      ∀ m ∈ markers, LiesIn labelBelowBlanks m.startLine m.endLine m.start m.stop := by
  intro h
  have hspans : (analyzePageMarkers asciiLetters letterLabelRules ⟨[], false⟩ "ascii" true labelBelowBlanks).map
      (List.map fun m => (m.start, m.stop, m.startLine)) = .ok [(0, 6, 2)] := by decide +kernel
  cases hout : analyzePageMarkers asciiLetters letterLabelRules ⟨[], false⟩ "ascii" true labelBelowBlanks with
  | error e =>
    rw [hout] at hspans
    cases hspans
  | ok markers =>
    rw [hout] at hspans
    have hmap : markers.map (fun m => (m.start, m.stop, m.startLine)) = [(0, 6, 2)] := Except.ok.inj hspans
    obtain ⟨m, hm, hmspan⟩ : ∃ m ∈ markers, (m.start, m.stop, m.startLine) = (0, 6, 2) := by
      rw [← List.mem_map, hmap]
      exact List.mem_cons_self
    obtain ⟨hstart, hrest⟩ := Prod.mk.inj hmspan
    obtain ⟨hstop, hline⟩ := Prod.mk.inj hrest
    have hlies := h markers hout m hm 0 (by rw [hstart]) (by rw [hstop]; decide)
    rw [hline] at hlies
    exact absurd hlies.1 (by decide +kernel)

theorem markers_in_lines_labelBelowBlanks : ∃ markers,
    analyzePageMarkers asciiLetters letterLabelRules ⟨[], false⟩ "ascii" true labelBelowBlanks = .ok markers ∧ markers.length = 1 ∧
      ∀ m ∈ markers, m.stop ≤ labelBelowBlanks.length := by
  have hcount : (analyzePageMarkers asciiLetters letterLabelRules ⟨[], false⟩ "ascii" true labelBelowBlanks).map List.length = .ok 1 := by
    decide +kernel
  cases hout : analyzePageMarkers asciiLetters letterLabelRules ⟨[], false⟩ "ascii" true labelBelowBlanks with
  | error e =>
    rw [hout] at hcount
    cases hcount
  | ok markers =>
    rw [hout] at hcount
    refine ⟨markers, rfl, Except.ok.inj hcount, fun m hm => ?_⟩
    exact ((markers_in_lines asciiLetters letterLabelRules ⟨[], false⟩ "ascii" true labelBelowBlanks markers hout).1 m hm).2

end EdgarSec.Document
