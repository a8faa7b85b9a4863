import EdgarSec.Foundation.Sha256
import EdgarSec.Document.Machine

/-! The streaming extraction is exact: for every chunking it answers what the delimiters of the
whole file say. -/

namespace EdgarSec.Document
open EdgarSec.Foundation EdgarSec.Lib

/-! ## The verdict -/

section Calls
variable (sha256 : Bytes → String) (casefold : String → String)

structure Expected (selection : Selection) (source : Bytes) (c : BundleDocumentHeader) : Prop where
  filename : mismatches casefold selection.expectedFilename c.filename = false
  documentType : mismatches casefold selection.expectedDocumentType c.documentType = false
  source : mismatches casefold selection.expectedSourceSha256 (some (sha256 source)) = false

structure Succeeds (selection : Selection) (source : Bytes) (s : Extraction)
    (c : BundleDocumentHeader) : Prop where
  failure : s.failure = none
  documentCount : s.documentCount ≠ 0
  matchingSequences : s.matchingSequences = 1
  selected : s.selected = some c
  expected : Expected sha256 casefold selection source c

variable {sha256 casefold} {selection : Selection} {source : Bytes} {s : Extraction}

theorem checkSelected_failure : (checkSelected selection s).failure = none ↔
    s.failure = none ∧ s.documentCount ≠ 0 ∧ s.matchingSequences = 1 := by
  unfold checkSelected
  dsimp only
  split_ifs with hmany
  · simp only [Extraction.failIf_matchingSequences] at hmany
    simp
    omega
  · simp only [Extraction.failIf_matchingSequences] at hmany
    simp only [Extraction.failIf_failure, Extraction.failIf_matchingSequences]
    constructor
    · rintro ⟨⟨hclean, hcount⟩, hfound⟩
      exact ⟨hclean, hcount, by by_contra hone; exact hfound ⟨by omega, hclean, hcount⟩⟩
    · rintro ⟨hclean, hcount, hone⟩
      exact ⟨⟨hclean, hcount⟩, by simp [hone]⟩

@[simp] theorem checkSelected_selected : (checkSelected selection s).selected = s.selected := by
  unfold checkSelected
  dsimp only
  split_ifs <;> simp

theorem checkSelected_of_succeeds {c : BundleDocumentHeader}
    (h : Succeeds sha256 casefold selection source s c) : checkSelected selection s = s := by
  have hmany : ¬ 1 < s.matchingSequences := by simp [h.matchingSequences]
  have hfound : ¬ (s.matchingSequences = 0 ∧ s.failure = none) := by simp [h.matchingSequences]
  unfold checkSelected
  dsimp only
  rw [Extraction.failIf_of_not h.documentCount, Extraction.failIf_of_not hfound, if_neg hmany]

theorem checkExpected_of_succeeds {c : BundleDocumentHeader}
    (h : Succeeds sha256 casefold selection source s c) :
    checkExpected casefold selection (sha256 source) s = s := by
  have hfilename : ¬ mismatches casefold selection.expectedFilename c.filename = true := by
    simp [h.expected.filename]
  have htype : ¬ mismatches casefold selection.expectedDocumentType c.documentType = true := by
    simp [h.expected.documentType]
  have hsource : ¬ mismatches casefold selection.expectedSourceSha256 (some (sha256 source)) = true := by
    simp [h.expected.source]
  unfold checkExpected
  rw [h.selected, h.failure]
  dsimp only
  rw [Extraction.failIf_of_not hfilename, Extraction.failIf_of_not htype,
    Extraction.failIf_of_not hsource]

theorem checkExpected_failure {c : BundleDocumentHeader} (hselected : s.selected = some c)
    (h : (checkExpected casefold selection (sha256 source) s).failure = none) :
    s.failure = none ∧ Expected sha256 casefold selection source c := by
  unfold checkExpected at h
  rw [hselected] at h
  obtain ⟨h, hsource⟩ := Extraction.failIf_failure.mp h
  cases hf : s.failure with
  | some code =>
    rw [hf] at h
    cases hf.symm.trans h
  | none =>
    rw [hf] at h
    obtain ⟨h, htype⟩ := Extraction.failIf_failure.mp h
    obtain ⟨_, hfilename⟩ := Extraction.failIf_failure.mp h
    exact ⟨rfl, by simpa using hfilename, by simpa using htype, by simpa using hsource⟩

@[simp] theorem checkExpected_selected {digest : String} :
    (checkExpected casefold selection digest s).selected = s.selected := by
  unfold checkExpected
  cases hs : s.selected with
  | none => simp [hs]
  | some c =>
    cases hf : s.failure with
    | none => simp [hs]
    | some code => simp [hs]

theorem conclude_of_succeeds {c : BundleDocumentHeader}
    (h : Succeeds sha256 casefold selection source s c) :
    conclude sha256 casefold selection source s =
      ⟨.extracted {
        destination := selection.destination
        selected := c
        documentCount := s.documentCount
        sourceSize := source.length
        sourceSha256 := sha256 source
        bodySize := s.body.length
        bodySha256 := sha256 s.body }, s.file⟩ := by
  simp only [conclude, checkSelected_of_succeeds h, checkExpected_of_succeeds h, h.selected, h.failure]

theorem conclude_of_not_succeeds (h : ∀ c, ¬ Succeeds sha256 casefold selection source s c) :
    ∃ f, conclude sha256 casefold selection source s = ⟨.failed f, none⟩ := by
  unfold conclude
  dsimp only
  rw [checkExpected_selected, checkSelected_selected]
  cases hselected : s.selected with
  | none => exact ⟨_, rfl⟩
  | some c =>
    cases hfailure :
        (checkExpected casefold selection (sha256 source) (checkSelected selection s)).failure with
    | some code => exact ⟨_, rfl⟩
    | none =>
      obtain ⟨hclean, hexpected⟩ :=
        checkExpected_failure (checkSelected_selected.trans hselected) hfailure
      obtain ⟨hclean, hcount, hone⟩ := checkSelected_failure.mp hclean
      exact absurd ⟨hclean, hcount, hone, hselected, hexpected⟩ (h c)

/-- A well-delimited submission whose one document of the requested sequence is `d`. -/
structure Sought (sha256 : Bytes → String) (casefold : String → String) (request : Request)
    (source : Bytes) (docs : List SubDocument) (d : SubDocument) : Prop where
  delimited : Delimited (delimiters.events source) docs
  acceptable : ∀ d ∈ docs, d.Acceptable
  one : docs.filter (fun d => (sequenceOf d.header : Int) = request.sequence) = [d]
  expected : Expected sha256 casefold request.selection source (describeHeader 0 d.header)

/-- What the call promises: for every chunking the same answer, the exact body of the document
that is sought, and a failure without a file where none is. -/
def Exact (sha256 : Bytes → String) (casefold : String → String) (request : Request)
    (source : Bytes) (file : Option Bytes) : Prop :=
  ∀ reads : Reads source,
    (∀ reads' : Reads source, extractBundleSequence sha256 casefold request reads file =
      extractBundleSequence sha256 casefold request reads' file) ∧
    (∀ docs d, Sought sha256 casefold request source docs d →
      ∃ n, extractBundleSequence sha256 casefold request reads file =
        ⟨.extracted {
          destination := request.destination
          selected := describeHeader n d.header
          documentCount := docs.length
          sourceSize := source.length
          sourceSha256 := sha256 source
          bodySize := d.body.length
          bodySha256 := sha256 d.body }, some d.body⟩) ∧
    ((¬ ∃ docs d, Sought sha256 casefold request source docs d) →
      ∃ f, extractBundleSequence sha256 casefold request reads file = ⟨.failed f, none⟩)

variable {request : Request} {file : Option Bytes}

theorem ignores_sequence (request : Request) :
    Extraction.Ignores request.selection.isSelected := fun _ _ _ => rfl

theorem extractBundleSelection_eq (reads : Reads source) :
    extractBundleSelection sha256 casefold selection reads file =
      match Extraction.play selection.isSelected selection.duplicateCode (delimiters.events source)
        (.initial file) with
      | .error s => ⟨.raised, s.file⟩
      | .ok s => conclude sha256 casefold selection source s.endInput := by
  unfold extractBundleSelection
  rw [Lexicon.readChunks_eq Extraction.consume_nil Extraction.consume_append, reads.flatten_eq] <;> rfl

theorem expected_ordinal (m n : Nat) (h : Bytes)
    (hexp : Expected sha256 casefold selection source (describeHeader m h)) :
    Expected sha256 casefold selection source (describeHeader n h) :=
  ⟨hexp.filename, hexp.documentType, hexp.source⟩

theorem succeeds_of_sought {docs : List SubDocument} {d : SubDocument}
    (h : Sought sha256 casefold request source docs d)
    (hsize : ∀ h ∈ headersRead .outside (delimiters.events source), ¬ Oversized h) :
    ∃ n, Extraction.play request.selection.isSelected request.selection.duplicateCode
        (delimiters.events source) (.initial file) =
          .ok ((Extraction.initial file).addDocuments request.selection.isSelected docs) ∧
      Succeeds sha256 casefold request.selection source
        ((Extraction.initial file).addDocuments request.selection.isSelected docs)
        (describeHeader n d.header) := by
  have hadm : Extraction.Admissible request.selection.isSelected (.initial file) docs := by
    rw [Extraction.admissible_iff (ignores_sequence request) rfl]
    rw [headersRead_of_delimited h.delimited fun e he => (h.acceptable e he).size] at hsize
    refine ⟨fun e he => ⟨h.acceptable e he, hsize _ (List.mem_map_of_mem he)⟩, ?_⟩
    have hone : docs.filter (fun d => request.selection.isSelected (describeHeader 0 d.header)) = [d] :=
      h.one
    rw [hone]
    exact le_refl 1
  obtain ⟨hm, ⟨n, hsel⟩, _, _⟩ := Extraction.addDocuments_of_one (s := .initial file)
    (ignores_sequence request) h.one
  refine ⟨n, Extraction.play_of_delimited h.delimited rfl hadm, ?_, ?_, hm, hsel, ?_⟩
  · rw [(Extraction.addDocuments_clean docs rfl).1]
    rfl
  · rw [Extraction.addDocuments_documentCount]
    have hne : docs ≠ [] := by
      rintro rfl
      cases h.one
    have hpos := List.length_pos_iff.mpr hne
    omega
  · exact expected_ordinal 0 n d.header h.expected

theorem sought_of_succeeds {c : BundleDocumentHeader} {s' : Extraction}
    (hplay : Extraction.play request.selection.isSelected request.selection.duplicateCode
      (delimiters.events source) (.initial file) = .ok s')
    (h : Succeeds sha256 casefold request.selection source s'.endInput c) :
    ∃ docs d, Sought sha256 casefold request source docs d := by
  obtain ⟨hclean, hend⟩ := Extraction.endInput_clean.mp h.failure
  obtain ⟨docs, hdocs, hadm, rfl⟩ := Extraction.delimited_of_play rfl hplay hclean hend
  rw [Extraction.endInput_of_outside hend] at h
  obtain ⟨hacc, hone⟩ := (Extraction.admissible_iff (ignores_sequence request) rfl).mp hadm
  generalize hfilter : docs.filter
    (fun d => request.selection.isSelected (describeHeader 0 d.header)) = found at hone
  rcases found with _ | ⟨d, _ | ⟨e, found⟩⟩
  · have hm := (Extraction.addDocuments_of_not (s := .initial file) (ignores_sequence request)
      hfilter).1
    rw [h.matchingSequences] at hm
    cases hm
  · obtain ⟨n, hsel⟩ := (Extraction.addDocuments_of_one (s := .initial file)
      (ignores_sequence request) hfilter).2.1
    have hc : c = describeHeader n d.header := Option.some.inj (h.selected.symm.trans hsel)
    have hexp := h.expected
    rw [hc] at hexp
    exact ⟨docs, d, hdocs, fun e he => (hacc e he).1, hfilter, expected_ordinal n 0 d.header hexp⟩
  · simp at hone

theorem extractBundleSequence_reads (reads reads' : Reads source) :
    extractBundleSequence sha256 casefold request reads file =
      extractBundleSequence sha256 casefold request reads' file := by
  unfold extractBundleSequence
  rw [extractBundleSelection_eq, extractBundleSelection_eq]

theorem extractBundleSequence_raises (hpos : 0 < request.sequence)
    (hover : ∃ h ∈ headersRead .outside (delimiters.events source), Oversized h)
    (reads : Reads source) :
    (extractBundleSequence sha256 casefold request reads file).outcome = .raised := by
  obtain ⟨e, he⟩ := (@Extraction.play_eq_error (.initial file) request.selection.isSelected
    request.selection.duplicateCode _).mpr hover
  rw [extractBundleSequence, if_neg (not_le.mpr hpos), extractBundleSelection_eq, he]

theorem not_exact_of_raised {reads : Reads source}
    (h : (extractBundleSequence sha256 casefold request reads file).outcome = .raised) :
    ¬ Exact sha256 casefold request source file := by
  intro hexact
  obtain ⟨_, hfound, hmissing⟩ := hexact reads
  by_cases hsought : ∃ docs d, Sought sha256 casefold request source docs d
  · obtain ⟨docs, d, hd⟩ := hsought
    obtain ⟨n, hn⟩ := hfound docs d hd
    rw [hn] at h
    cases h
  · obtain ⟨f, hf⟩ := hmissing hsought
    rw [hf] at h
    cases h

theorem exact_of_no_oversized (hpos : 0 < request.sequence)
    (hsize : ∀ h ∈ headersRead .outside (delimiters.events source), ¬ Oversized h) :
    Exact sha256 casefold request source file := by
  refine fun reads => ⟨extractBundleSequence_reads reads, fun docs d h => ?_, fun hnone => ?_⟩
  · obtain ⟨n, hplay, hsucceeds⟩ := @succeeds_of_sought _ _ _ _ file _ _ h hsize
    obtain ⟨_, _, hbody, hfile⟩ := Extraction.addDocuments_of_one (s := .initial file)
      (ignores_sequence request) h.one
    have hstate := (@Extraction.addDocuments_clean (.initial file) request.selection.isSelected
      docs rfl).2
    refine ⟨n, ?_⟩
    rw [extractBundleSequence, if_neg (not_le.mpr hpos), extractBundleSelection_eq, hplay]
    dsimp only
    rw [Extraction.endInput_of_outside hstate, conclude_of_succeeds hsucceeds, hbody, hfile,
      Extraction.addDocuments_documentCount]
    simp [Extraction.initial, Request.selection]
  · rw [extractBundleSequence, if_neg (not_le.mpr hpos), extractBundleSelection_eq]
    cases hplay : Extraction.play request.selection.isSelected request.selection.duplicateCode
        (delimiters.events source) (.initial file) with
    | error e =>
      obtain ⟨h, hh, hover⟩ := Extraction.play_eq_error.mp ⟨e, hplay⟩
      exact absurd hover (hsize h hh)
    | ok s' =>
      exact conclude_of_not_succeeds fun c hc => hnone (sought_of_succeeds hplay hc)

/-- The call keeps its promise unless a header holds a number of more than `maxStrDigits`
digits, or a sequence that no document has is turned away beside a file that was there before. -/
theorem extractBundleSequence_exact_iff (sha256 : Bytes → String) (casefold : String → String)
    (request : Request) (source : Bytes) (file : Option Bytes) :
    Exact sha256 casefold request source file ↔
      (0 < request.sequence ∧
          ∀ h ∈ headersRead .outside (delimiters.events source), ¬ Oversized h) ∨
        (request.sequence ≤ 0 ∧ file = none) := by
  rcases lt_or_ge 0 request.sequence with hpos | hneg
  · simp only [hpos, not_le.mpr hpos, true_and, false_and, or_false]
    constructor
    · intro hexact h hh hover
      have hraised := @extractBundleSequence_raises sha256 casefold source _ file hpos ⟨h, hh, hover⟩ (Reads.whole source)
      exact not_exact_of_raised hraised hexact
    · exact exact_of_no_oversized hpos
  · simp only [not_lt.mpr hneg, hneg, true_and, false_and, false_or]
    -- no document has such a sequence, so the answer is a failure
    have hnone : ¬ ∃ docs d, Sought sha256 casefold request source docs d := by
      rintro ⟨docs, d, h⟩
      have hd : d ∈ docs.filter fun d => (sequenceOf d.header : Int) = request.sequence := by
        rw [h.one]
        exact List.mem_singleton_self d
      obtain ⟨hdocs, hseq⟩ := List.mem_filter.mp hd
      obtain ⟨v, hv, _, hvpos⟩ := (h.acceptable d hdocs).header.sequence
      have hval : sequenceOf d.header = decimalValue v := by simp [sequenceOf, hv]
      have hseq : (sequenceOf d.header : Int) = request.sequence := by simpa using hseq
      omega
    have hcall : ∀ reads : Reads source, extractBundleSequence sha256 casefold request reads file =
        ⟨.failed ⟨.invalidSequence, 0, ""⟩, file⟩ := fun reads => if_pos hneg
    constructor
    · intro hexact
      obtain ⟨f, hf⟩ := (hexact (Reads.whole source)).2.2 hnone
      rw [hcall] at hf
      exact (Result.mk.inj hf).2
    · rintro rfl
      exact fun reads => ⟨extractBundleSequence_reads reads,
        fun docs d h => absurd ⟨docs, d, h⟩ hnone, fun _ => ⟨_, hcall reads⟩⟩

end Calls

/-! ## A sequence of too many digits -/

theorem readField_cons (name : Field) (b : UInt8) (rest : Bytes) :
    readField name (b :: rest) =
      (if (name.tag.map asciiLower).isPrefixOf ((b :: rest).map asciiLower) then
        let value := strip (capture ((b :: rest).drop name.tag.length))
        if value = [] then [] else [value]
      else []) ++ readField name rest := by
  unfold readField
  rw [List.tails_cons, List.filterMap_cons]
  dsimp only
  split_ifs <;> rfl

theorem readField_of_free (name : Field) {p : Bytes} (h : ∀ b ∈ p, b ≠ 60) : readField name p = [] := by
  induction p with
  | nil => cases name <;> decide +kernel
  | cons b p ih =>
    have hb : asciiLower b ≠ 60 := by
      have hne := h b List.mem_cons_self
      unfold asciiLower
      split_ifs with hupper
      · intro hb
        have hval := congrArg UInt8.toNat hb
        rw [UInt8.toNat_add] at hval
        simp only [UInt8.le_iff_toNat_le, UInt8.reduceToNat] at hupper hval
        omega
      · exact hne
    have htag : (name.tag.map asciiLower).head? = some 60 := by cases name <;> rfl
    have hnot : (name.tag.map asciiLower).isPrefixOf ((b :: p).map asciiLower) = false := by
      cases ht : name.tag.map asciiLower with
      | nil => simp [ht] at htag
      | cons a tail =>
        rw [ht] at htag
        obtain rfl := Option.some.inj htag
        simp [List.isPrefixOf]
        intro h
        exact absurd h.symm hb
    rw [readField_cons, hnot, ih fun c hc => h c (List.mem_cons_of_mem b hc)]
    rfl

section Digits
variable (n : Nat)

def ninesSource : Bytes :=
  ascii "<DOCUMENT><SEQUENCE>1<TEXT>a</TEXT></DOCUMENT><DOCUMENT><SEQUENCE>" ++
    (List.replicate n 57 ++ ascii "<TEXT>b</TEXT></DOCUMENT>")

def ninesHeader : Bytes := ascii "<SEQUENCE>" ++ List.replicate n 57

theorem length_ninesHeader : (ninesHeader n).length = 10 + n := by
  rw [ninesHeader, List.length_append, List.length_replicate]
  rfl

theorem events_ninesSource : delimiters.events (ninesSource n) =
    (SubDocument.mk (ascii "<SEQUENCE>1") (ascii "a")).events [] ++
      ((SubDocument.mk (ninesHeader n) (ascii "b")).events [] ++ []) := by
  have hfree : ∀ b ∈ List.replicate n (57 : UInt8), delimiters.norm b ≠ delimiters.marker := by
    intro b hb
    rw [List.eq_of_mem_replicate hb]
    decide +kernel
  have hfirst : delimiters.events (ninesSource n) =
      (SubDocument.mk (ascii "<SEQUENCE>1") (ascii "a")).events [] ++ .tag .documentOpen ::
        ((ascii "<SEQUENCE>").map .data ++
          delimiters.events (List.replicate n 57 ++ ascii "<TEXT>b</TEXT></DOCUMENT>")) := by
    unfold ninesSource
    generalize List.replicate n (57 : UInt8) ++ ascii "<TEXT>b</TEXT></DOCUMENT>" = rest
    rfl
  have hend : delimiters.events (ascii "<TEXT>b</TEXT></DOCUMENT>") =
      .tag .textOpen :: ((ascii "b").map .data ++ [.tag .textClose, .tag .documentClose]) := by rfl
  rw [hfirst, Lexicon.events_append_of_free hfree, hend]
  simp [SubDocument.events, ninesHeader]

theorem readField_ninesHeader (hn : 0 < n) :
    readField .sequence (ninesHeader n) = [List.replicate n 57] := by
  have hstrip : strip (capture (List.replicate n 57)) = List.replicate n 57 := by
    simp [strip, capture, isAsciiSpace, isLatinSpace]
  have hne : List.replicate n (57 : UInt8) ≠ [] := by simpa using hn.ne'
  have hrest : readField .sequence (ascii "SEQUENCE>" ++ List.replicate n 57) = [] := by
    apply readField_of_free
    intro b hb
    rcases List.mem_append.mp hb with hb | hb
    · have hascii : ∀ b ∈ ascii "SEQUENCE>", b ≠ 60 := by decide +kernel
      exact hascii b hb
    · rw [List.eq_of_mem_replicate hb]
      decide +kernel
  show readField .sequence (60 :: (ascii "SEQUENCE>" ++ List.replicate n 57)) = _
  rw [readField_cons, hrest]
  generalize List.replicate n (57 : UInt8) = v at hstrip hne
  have htag : (Field.sequence.tag.map asciiLower).isPrefixOf
      ((60 :: (ascii "SEQUENCE>" ++ v)).map asciiLower) = true := by rfl
  have hdrop : (60 :: (ascii "SEQUENCE>" ++ v)).drop Field.sequence.tag.length = v := by rfl
  rw [htag, hdrop, hstrip]
  simp [hne]

theorem oversized_ninesHeader (hn : maxStrDigits < n) : Oversized (ninesHeader n) := by
  have hpos : 0 < n := by omega
  refine Or.inl ⟨List.replicate n 57, readField_ninesHeader n hpos, ?_, by simpa using hn⟩
  have hne : List.replicate n (57 : UInt8) ≠ [] := by simpa using hpos.ne'
  simp [isDecimal, hne]

end Digits

/-- The first document is wanted and well delimited; the second one makes the call raise. -/
theorem extractBundleSequence_not_exact :
    ¬ Exact sha256Hex id ⟨1, "body.txt", none, none, none⟩ (ninesSource 4301) none := by
  have hread : ninesHeader 4301 ∈ headersRead .outside (delimiters.events (ninesSource 4301)) := by
    rw [events_ninesSource, headersRead_document _ _ _ (by decide +kernel),
      headersRead_document _ _ _ (by rw [length_ninesHeader]; decide)]
    exact List.mem_cons_of_mem _ List.mem_cons_self
  exact not_exact_of_raised (extractBundleSequence_raises (by decide)
    ⟨_, hread, oversized_ninesHeader 4301 (by decide)⟩ (Reads.whole _))

end EdgarSec.Document
