import EdgarSec.Document.ExactExtraction
import EdgarSec.Document.Unpacking

/-! The in-memory reader against the streaming one: on a submission that the streaming reader
accepts, where they see the same documents. -/

namespace EdgarSec.Document
open EdgarSec.Foundation EdgarSec.Lib

/-! ## The blocks of a well-delimited submission -/

def BlockOf (d : SubDocument) (block : Bytes) : Prop :=
  ∃ o c trailer, block = d.header ++ (o ++ (d.body ++ (c ++ trailer))) ∧
    o.length = (delimiters.text .textOpen).length ∧ delimiters.Begins .textOpen o ∧
    delimiters.Begins .textClose c ∧ delimiters.Free .textOpen d.header (o ++ (d.body ++ (c ++ trailer))) ∧
    delimiters.Free .textClose d.body (c ++ trailer)

theorem mem_tokens (t : Token) : t ∈ delimiters.tokens := by
  cases t <;> decide

theorem blocks_of_delimited {events : List SgmlEvent} {docs : List SubDocument} (h : Delimited events docs)
    {s : Bytes} (hs : delimiters.events s = events) : List.Forall₂ BlockOf docs (documentBlocks s) := by
  induction h generalizing s with
  | done =>
    cases s with
    | nil => exact List.Forall₂.nil
    | cons b s =>
      by_cases hbegins : ∃ u, delimiters.Begins u (b :: s)
      · obtain ⟨u, hu⟩ := hbegins
        rw [Lexicon.events_of_begins hu] at hs
        cases hs
      · rw [Lexicon.events_of_not_begins b (not_exists.mp hbegins)] at hs
        cases hs
  | between b _ ih =>
    obtain ⟨q, rfl, hq, hfree⟩ := @Lexicon.of_events_data _ _ delimiters _ [b] _ _ hs
    unfold documentBlocks
    rw [Lexicon.captures_append (mem_tokens _) (hfree _)]
    exact ih hq
  | document d trailer _ ih =>
    unfold SubDocument.events at hs
    simp only [List.cons_append, List.append_assoc, List.nil_append] at hs
    obtain ⟨o₁, q₁, rfl, ho₁, hdocument, hs⟩ := Lexicon.of_events_tag hs
    obtain ⟨q₂, rfl, hs, hheader⟩ := Lexicon.of_events_data hs
    obtain ⟨o₂, q₃, rfl, ho₂, htext, hs⟩ := Lexicon.of_events_tag hs
    obtain ⟨q₄, rfl, hs, hbody⟩ := Lexicon.of_events_data hs
    obtain ⟨c₂, q₅, rfl, hc₂, htextClose, hs⟩ := Lexicon.of_events_tag hs
    obtain ⟨q₆, rfl, hs, htrailer⟩ := Lexicon.of_events_data hs
    obtain ⟨c₁, q₇, rfl, hc₁, hdocumentClose, hs⟩ := Lexicon.of_events_tag hs
    -- up to the end of the document no closing delimiter begins
    have hopen : delimiters.Free .documentClose o₂ (d.body ++ (c₂ ++ (trailer ++ (c₁ ++ q₇)))) :=
      Lexicon.free_of_begins ho₂ htext (by decide)
    have hclose : delimiters.Free .documentClose c₂ (trailer ++ (c₁ ++ q₇)) :=
      Lexicon.free_of_begins hc₂ htextClose (by decide)
    have hfree : delimiters.Free .documentClose (d.header ++ (o₂ ++ (d.body ++ (c₂ ++ trailer)))) (c₁ ++ q₇) := by
      apply Lexicon.Free.append
      · simpa using hheader .documentClose
      apply Lexicon.Free.append
      · simpa using hopen
      apply Lexicon.Free.append
      · simpa using hbody .documentClose
      exact Lexicon.Free.append hclose (htrailer .documentClose)
    have hcaptured := @Lexicon.captures_of_begins _ _ delimiters .documentOpen .documentClose _ o₁
      (d.header ++ (o₂ ++ (d.body ++ (c₂ ++ trailer)))) (c₁ ++ q₇) ho₁ (by simpa using hdocument)
      hdocumentClose hfree
    have hblocks : documentBlocks (o₁ ++ (d.header ++ (o₂ ++ (d.body ++ (c₂ ++ (trailer ++ (c₁ ++ q₇))))))) =
        (d.header ++ (o₂ ++ (d.body ++ (c₂ ++ trailer)))) :: documentBlocks q₇ := by
      have hrest : (c₁ ++ q₇).drop (delimiters.text .documentClose).length = q₇ := by
        rw [← hc₁, List.drop_left]
      rw [hrest] at hcaptured
      simpa [documentBlocks] using hcaptured
    rw [hblocks]
    refine List.Forall₂.cons ⟨o₂, c₂, trailer, rfl, ho₂, htext.of_append ho₂.ge, htextClose.of_append hc₂.ge,
      ?_, ?_⟩ (ih hs)
    · have hlong := hheader .textOpen
      exact Lexicon.Free.of_append (r := c₁ ++ q₇) (by simpa using hlong)
    · have hlong := hbody .textClose
      exact Lexicon.Free.of_append (r := c₁ ++ q₇) (by simpa using hlong)

theorem sliceBody_of_block {d : SubDocument} {block : Bytes} (h : BlockOf d block) :
    sliceBody block = stripLineEnds d.body := by
  obtain ⟨o, c, trailer, rfl, ho, hopen, hclose, hheader, hbody⟩ := h
  unfold sliceBody
  rw [Lexicon.captures_append (mem_tokens _) hheader,
    Lexicon.captures_of_begins ho (hopen.append _) (hclose.append _) hbody]

/-! ## The delimiters in capital letters -/

/-- Openings and closings in turn. -/
def Alternate (steps : List Int) : Prop := ∃ n, steps = (List.replicate n [1, -1]).flatten

theorem checkDepth_eq_none_iff : ∀ {steps : List Int}, (∀ d ∈ steps, d = 1 ∨ d = -1) →
    (checkDepth 0 steps = none ↔ Alternate steps)
  | [], _ => ⟨fun _ => ⟨0, rfl⟩, fun _ => rfl⟩
  | [d], h => by
    have hnot : ¬ Alternate [d] := by
      rintro ⟨n, hn⟩
      have hlength := congrArg List.length hn
      simp at hlength
      omega
    rcases h d List.mem_cons_self with rfl | rfl <;> simp [checkDepth, hnot]
  | d :: e :: steps, h => by
    have hrest : ∀ d ∈ steps, d = 1 ∨ d = -1 :=
      fun d hd => h d (List.mem_cons_of_mem _ (List.mem_cons_of_mem _ hd))
    have hpair : Alternate (d :: e :: steps) ↔ d = 1 ∧ e = -1 ∧ Alternate steps := by
      constructor
      · rintro ⟨n, hn⟩
        cases n with
        | zero => cases hn
        | succ n =>
          rw [List.replicate_succ, List.flatten_cons] at hn
          obtain ⟨hd, hn⟩ := List.cons.inj hn
          obtain ⟨he, hn⟩ := List.cons.inj hn
          exact ⟨hd, he, n, hn⟩
      · rintro ⟨rfl, rfl, n, rfl⟩
        exact ⟨n + 1, rfl⟩
    have ih := checkDepth_eq_none_iff hrest
    rw [hpair]
    rcases h d List.mem_cons_self with rfl | rfl
    · rcases h e (List.mem_cons_of_mem _ List.mem_cons_self) with rfl | rfl
      · simp [checkDepth]
      · simp [checkDepth, ih]
    · simp [checkDepth]

theorem delimiterSteps_eq (raw : Bytes) : ∀ d ∈ delimiterSteps raw, d = 1 ∨ d = -1 := by
  intro d hd
  obtain ⟨rest, _, hrest⟩ := List.mem_filterMap.mp hd
  split_ifs at hrest
  · exact Or.inl (Option.some.inj hrest).symm
  · exact Or.inr (Option.some.inj hrest).symm

theorem checkDocumentDelimiters_eq_none_iff {raw : Bytes} :
    checkDocumentDelimiters raw = none ↔ Alternate (delimiterSteps raw) :=
  checkDepth_eq_none_iff (delimiterSteps_eq raw)

/-! ## Headers -/

def BundleDocumentHeader.scanned (header : BundleDocumentHeader) : SgmlDocumentHeader where
  documentPath := header.filename
  sequence := some header.sequence
  docType := header.documentType
  description := header.description

def documentsSeen (raw : Bytes) : List BundleDocumentHeader :=
  (headersRead .outside (delimiters.events raw)).map (describeHeader 0)

/-- In a block, text included, the first tag of each field at the start of a line has the value that
the header has for this field. -/
structure FieldsFirst (header block : Bytes) : Prop where
  filename : blockField .filename block = (readField .filename header).head?
  sequence : (blockField .sequence block).bind intValue = some (sequenceOf header)
  documentType : (blockField .documentType block).map decodeUpper =
    (readField .documentType header).head?.map decodeUpper
  description : blockField .description block = (readField .description header).head?

theorem decode_injective : Function.Injective decode := by
  intro v w h
  have hchars : v.map (fun b => Char.ofNat b.toNat) = w.map fun b => Char.ofNat b.toNat :=
    String.ofList_injective h
  refine List.map_injective_iff.mpr ?_ hchars
  intro a b hab
  have hvalid : ∀ b : UInt8, (Char.ofNat b.toNat).toNat = b.toNat := by
    intro b
    have hlt : b.toNat < 256 := b.toNat_lt
    have hchar : b.toNat.isValidChar := Or.inl (by omega)
    rw [Char.ofNat, dif_pos hchar]
    rfl
  have hnat := congrArg Char.toNat hab
  simp only [hvalid] at hnat
  exact UInt8.toNat_inj.mp hnat

theorem describe_filename {ordinal sequence : Nat} {length : Option Nat} {header : Bytes}
    (h : (readField .filename header).length ≤ 1) :
    (Extraction.describe ordinal sequence length header).filename = (readField .filename header).head?.map decode := by
  rcases hvalues : readField .filename header with _ | ⟨v, _ | ⟨w, vs⟩⟩
  · simp [Extraction.describe, hvalues]
  · simp [Extraction.describe, hvalues]
  · simp [hvalues] at h

theorem describe_documentType {ordinal sequence : Nat} {length : Option Nat} {header : Bytes}
    (h : (readField .documentType header).length ≤ 1) :
    (Extraction.describe ordinal sequence length header).documentType =
      (readField .documentType header).head?.map decodeUpper := by
  rcases hvalues : readField .documentType header with _ | ⟨v, _ | ⟨w, vs⟩⟩
  · simp [Extraction.describe, hvalues]
  · simp [Extraction.describe, hvalues]
  · simp [hvalues] at h

theorem describe_description {ordinal sequence : Nat} {length : Option Nat} {header : Bytes}
    (h : (readField .description header).length ≤ 1) :
    (Extraction.describe ordinal sequence length header).description =
      (readField .description header).head?.map decode := by
  rcases hvalues : readField .description header with _ | ⟨v, _ | ⟨w, vs⟩⟩
  · simp [Extraction.describe, hvalues]
  · simp [Extraction.describe, hvalues]
  · simp [hvalues] at h

theorem parseHeader_eq_iff {header block : Bytes} (h : ReadableHeader header) :
    parseHeader block = (describeHeader 0 header).scanned ↔ FieldsFirst header block := by
  have hdecode : ∀ a b : Option Bytes, a.map decode = b.map decode ↔ a = b :=
    fun a b => (Option.map_injective decode_injective).eq_iff
  unfold parseHeader describeHeader BundleDocumentHeader.scanned
  rw [describe_filename h.filename, describe_documentType h.documentType, describe_description h.description,
    SgmlDocumentHeader.mk.injEq, hdecode, hdecode]
  constructor
  · rintro ⟨hfilename, hsequence, htype, hdescription⟩
    exact ⟨hfilename, hsequence, htype, hdescription⟩
  · rintro ⟨hfilename, hsequence, htype, hdescription⟩
    exact ⟨hfilename, hsequence, htype, hdescription⟩

theorem map_eq_map_iff_forall_zip {α β γ : Type} {f : α → γ} {g : β → γ} {xs : List α} {ys : List β}
    (h : xs.length = ys.length) : xs.map f = ys.map g ↔ ∀ e ∈ xs.zip ys, f e.1 = g e.2 := by
  induction xs generalizing ys with
  | nil =>
    obtain rfl := List.length_eq_zero_iff.mp h.symm
    simp
  | cons x xs ih =>
    cases ys with
    | nil => simp at h
    | cons y ys =>
      rw [List.map_cons, List.map_cons, List.cons.injEq, ih (Nat.succ.inj h), List.zip_cons_cons,
        List.forall_mem_cons]

/-! ## The two readers -/

section Readers
variable (lower upper stripText : String → String)

structure ReadersAgree (raw body : Bytes) (sequence : Int) (requestedPath : String) (acceptedTypes : List String) :
    Prop where
  scanError : (scanFilingBundle lower upper stripText raw requestedPath acceptedTypes).scanError = none
  documents : (scanFilingBundle lower upper stripText raw requestedPath acceptedTypes).documents =
    (documentsSeen raw).map BundleDocumentHeader.scanned
  payload : ∃ k : Nat, ((documentsSeen raw)[k]?).map (fun header : BundleDocumentHeader => (header.sequence : Int)) = some sequence ∧
    ((documentBlocks raw)[k]?).map (fun block => (resolveBlock block).payload) = some (stripLineEnds body)

variable {sha256 : Bytes → String} {casefold : String → String} {request : Request} {raw body : Bytes}
  {reads : Reads raw} {file : Option Bytes} {e : BundleExtraction}

theorem sought_of_extracted
    (h : extractBundleSequence sha256 casefold request reads file = ⟨.extracted e, some body⟩) :
    ∃ docs d, Sought sha256 casefold request raw docs d ∧ body = d.body := by
  unfold extractBundleSequence at h
  split_ifs at h with hneg
  · cases h
  have hpos := not_le.mp hneg
  have hcall := h
  rw [extractBundleSelection_eq] at h
  cases hplay : Extraction.play request.selection.isSelected request.selection.duplicateCode
      (delimiters.events raw) (.initial file) with
  | error s =>
    rw [hplay] at h
    cases h
  | ok s =>
    rw [hplay] at h
    have hsucceeds : ∃ c, Succeeds sha256 casefold request.selection raw s.endInput c := by
      by_contra hnone
      obtain ⟨f, hf⟩ := conclude_of_not_succeeds (not_exists.mp hnone)
      cases hf.symm.trans h
    obtain ⟨c, hc⟩ := hsucceeds
    obtain ⟨docs, d, hsought⟩ := sought_of_succeeds hplay hc
    have hsize : ∀ h ∈ headersRead .outside (delimiters.events raw), ¬ Oversized h := by
      intro h hh hover
      obtain ⟨s', hs'⟩ := (@Extraction.play_eq_error (.initial file) request.selection.isSelected
        request.selection.duplicateCode _).mpr ⟨h, hh, hover⟩
      cases hplay.symm.trans hs'
    obtain ⟨n, hn⟩ := (exact_of_no_oversized hpos hsize reads).2.1 docs d hsought
    rw [extractBundleSequence, if_neg hneg, hcall] at hn
    exact ⟨docs, d, hsought, Option.some.inj (Result.mk.inj hn).2⟩

end Readers

/-! ## Two submissions -/

def plainSubmission : Bytes :=
  ascii "<DOCUMENT>\n<TYPE>10-K\n<SEQUENCE>1\n<FILENAME>a.htm\n<TEXT>\nbody\n</TEXT>\n</DOCUMENT>\n"

def quotingSubmission : Bytes :=
  ascii "<DOCUMENT>\n<TYPE>10-K\n<SEQUENCE>1\n<TEXT>\n<FILENAME>b.htm\n</TEXT>\n</DOCUMENT>\n"

def firstDocument : Request := ⟨1, "body.txt", none, none, none⟩

def Outcome.extraction : Outcome → Option BundleExtraction
  | .extracted e => some e
  | _ => none

theorem extracted_of_file {result : Result} {body : Bytes} (hfile : result.file = some body)
    (houtcome : result.outcome.extraction.isSome = true) : ∃ e, result = ⟨.extracted e, some body⟩ := by
  obtain ⟨outcome, file⟩ := result
  obtain rfl : file = some body := hfile
  cases outcome with
  | extracted e => exact ⟨e, rfl⟩
  | failed f => cases houtcome
  | raised => cases houtcome

end EdgarSec.Document
