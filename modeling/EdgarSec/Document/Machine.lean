import EdgarSec.Document.Submissions
import EdgarSec.Lib.Outcome

/-! The state machine over the events of a file: it runs without a failure exactly through
acceptable documents, and stops exactly at a number that `int` does not read. -/

namespace EdgarSec.Document
open EdgarSec.Foundation EdgarSec.Lib

namespace Extraction
variable {s s' : Extraction} {code : FailureCode} {data : Bytes}

/-! ## Failures are kept -/

theorem fail_failure_ne : (s.fail code).failure ≠ none := by
  unfold fail
  split_ifs with h
  · simp
  · exact h

theorem failIf_of_not {p : Prop} [Decidable p] (h : ¬ p) : s.failIf p code = s := if_neg h

@[simp] theorem failIf_failure {p : Prop} [Decidable p] :
    (s.failIf p code).failure = none ↔ s.failure = none ∧ ¬ p := by
  unfold failIf
  split_ifs with h
  · simp [h, fail_failure_ne]
  · simp [h]

@[simp] theorem failWith_failure {f : Option FailureCode} :
    (s.failWith f).failure = none ↔ s.failure = none ∧ f = none := by
  cases f with
  | none => simp [failWith]
  | some c => simp [failWith, fail_failure_ne]

theorem fail_eq : s.fail code = { s with failure := (s.fail code).failure } := by
  unfold fail
  split_ifs <;> rfl

@[simp] theorem fail_state : (s.fail code).state = s.state := by rw [fail_eq]
@[simp] theorem fail_header : (s.fail code).header = s.header := by rw [fail_eq]
@[simp] theorem fail_current : (s.fail code).current = s.current := by rw [fail_eq]
@[simp] theorem fail_currentBodySize : (s.fail code).currentBodySize = s.currentBodySize := by
  rw [fail_eq]
@[simp] theorem failIf_selected {p : Prop} [Decidable p] : (s.failIf p code).selected = s.selected := by
  unfold failIf fail
  split_ifs <;> rfl
@[simp] theorem failIf_matchingSequences {p : Prop} [Decidable p] :
    (s.failIf p code).matchingSequences = s.matchingSequences := by
  unfold failIf fail
  split_ifs <;> rfl
@[simp] theorem failIf_state {p : Prop} [Decidable p] : (s.failIf p code).state = s.state := by
  unfold failIf
  split_ifs <;> simp
@[simp] theorem failIf_header {p : Prop} [Decidable p] : (s.failIf p code).header = s.header := by
  unfold failIf
  split_ifs <;> simp
@[simp] theorem failWith_state {f : Option FailureCode} : (s.failWith f).state = s.state := by
  cases f <;> simp [failWith]
@[simp] theorem failWith_header {f : Option FailureCode} : (s.failWith f).header = s.header := by
  cases f <;> simp [failWith]

/-! ## Consuming -/

theorem consume_of_idle (hh : s.state ≠ .header) (hb : s.state ≠ .body) : s.consume data = s := by
  unfold consume
  cases h : s.state <;> simp_all

theorem consume_header (hs : s.state = .header) : s.consume data =
    { s.failIf (maxHeaderSize - s.header.length < data.length) .malformedDelimiters with
      header := s.header ++ data.take (maxHeaderSize - s.header.length) } := by
  simp only [consume, hs, failIf_header]

theorem consume_body (hs : s.state = .body) : s.consume data =
    if s.currentIsSelected = true ∧ s.matchingSequences = 1 then
      { s with
        currentBodySize := s.currentBodySize + data.length, body := s.body ++ data,
        file := s.file.map (· ++ data) }
    else { s with currentBodySize := s.currentBodySize + data.length } := by
  simp only [consume, hs]

@[simp] theorem consume_state : (s.consume data).state = s.state := by
  by_cases hh : s.state = .header
  · rw [consume_header hh]
    exact failIf_state
  · by_cases hb : s.state = .body
    · rw [consume_body hb]
      split_ifs <;> rfl
    · rw [consume_of_idle hh hb]

theorem consume_failure (h : (s.consume data).failure = none) : s.failure = none := by
  by_cases hh : s.state = .header
  · rw [consume_header hh] at h
    exact (failIf_failure.mp h).1
  · by_cases hb : s.state = .body
    · rw [consume_body hb] at h
      split_ifs at h <;> exact h
    · rwa [consume_of_idle hh hb] at h

theorem consume_of_header (hs : s.state = .header)
    (hlen : s.header.length + data.length ≤ maxHeaderSize) :
    s.consume data = { s with header := s.header ++ data } := by
  have hnot : ¬ maxHeaderSize - s.header.length < data.length := by omega
  have htake : data.take (maxHeaderSize - s.header.length) = data := List.take_of_length_le (by omega)
  rw [consume_header hs, failIf_of_not hnot, htake]

theorem header_fits (hs : s.state = .header) (h : (s.consume data).failure = none)
    (hlen : s.header.length ≤ maxHeaderSize) : s.header.length + data.length ≤ maxHeaderSize := by
  rw [consume_header hs] at h
  have hnot := (failIf_failure.mp h).2
  omega

theorem consume_nil (s : Extraction) : s.consume [] = s := by
  by_cases hh : s.state = .header
  · have hnot : ¬ maxHeaderSize - s.header.length < ([] : Bytes).length := by simp
    rw [consume_header hh, failIf_of_not hnot, List.take_nil, List.append_nil]
  · by_cases hb : s.state = .body
    · rw [consume_body hb]
      split_ifs <;> simp
    · exact consume_of_idle hh hb

theorem failIf_failIf {p q : Prop} [Decidable p] [Decidable q] :
    (s.failIf p code).failIf q code = s.failIf (p ∨ q) code := by
  by_cases hp : p
  · have hcode : (s.fail code).failure ≠ none := fail_failure_ne
    have hagain : (s.fail code).fail code = s.fail code := if_neg hcode
    by_cases hq : q <;> simp [failIf, hp, hq, hagain]
  · simp [failIf, hp]

theorem failIf_congr {p q : Prop} [Decidable p] [Decidable q] (h : p ↔ q) :
    s.failIf p code = s.failIf q code := by
  unfold failIf
  exact if_congr h rfl rfl

theorem failIf_with_header {p : Prop} [Decidable p] (h : Bytes) :
    ({ s with header := h }).failIf p code = { s.failIf p code with header := h } := by
  unfold failIf fail
  split_ifs <;> rfl

theorem consume_append (p q : Bytes) (s : Extraction) :
    s.consume (p ++ q) = (s.consume p).consume q := by
  by_cases hh : s.state = .header
  · have hh' : (s.consume p).state = .header := by rw [consume_state, hh]
    rw [consume_header hh', consume_header hh, consume_header hh]
    -- what is left after the first part; nothing once it was too long
    have hleft : maxHeaderSize - (s.header ++ p.take (maxHeaderSize - s.header.length)).length =
        maxHeaderSize - s.header.length - p.length := by
      rw [List.length_append, List.length_take]
      omega
    have hover : maxHeaderSize - s.header.length < (p ++ q).length ↔
        maxHeaderSize - s.header.length < p.length ∨
          maxHeaderSize - s.header.length - p.length < q.length := by
      rw [List.length_append]
      omega
    simp only [hleft, failIf_with_header, failIf_failIf, List.append_assoc, List.take_append,
      failIf_congr hover]
  · by_cases hb : s.state = .body
    · have hb' : (s.consume p).state = .body := by rw [consume_state, hb]
      rw [consume_body hb', consume_body hb, consume_body hb]
      split_ifs with hsel
      · simp [Nat.add_assoc, Function.comp_def]
      · simp [Nat.add_assoc]
    · rw [consume_of_idle hh hb, consume_of_idle hh hb, consume_of_idle hh hb]

/-! ## Reading a header -/

theorem parseSequence_eq_none {vs : List Bytes} :
    parseSequence vs = none ↔ ∃ v, vs = [v] ∧ isDecimal v = true ∧ maxStrDigits < v.length := by
  unfold parseSequence
  rcases vs with _ | ⟨v, _ | ⟨w, vs⟩⟩
  · simp
  · by_cases hv : isDecimal v = true <;> simp [hv, int?]
  · simp

theorem parseSequence_eq_some {vs : List Bytes} {n : Nat} :
    parseSequence vs = some (none, n) ↔
      ∃ v, vs = [v] ∧ isDecimal v = true ∧ v.length ≤ maxStrDigits ∧ 0 < n ∧ n = decimalValue v := by
  unfold parseSequence
  rcases vs with _ | ⟨v, _ | ⟨w, vs⟩⟩
  · simp
  · by_cases hv : isDecimal v = true
    · by_cases hlen : maxStrDigits < v.length
      · have hle : ¬ v.length ≤ maxStrDigits := by omega
        simp [hv, int?, hlen, hle]
      · have hle : v.length ≤ maxStrDigits := by omega
        by_cases hzero : decimalValue v = 0
        · simp [hv, int?, hlen, hzero]
          omega
        · simp [hv, int?, hlen, hzero, hle]
          omega
    · simp [hv]
  · simp

theorem parseLength_eq_none {vs : List Bytes} :
    parseLength vs = none ↔ ∃ v, vs = [v] ∧ isDecimal v = true ∧ maxStrDigits < v.length := by
  unfold parseLength
  rcases vs with _ | ⟨v, _ | ⟨w, vs⟩⟩
  · simp
  · by_cases hv : isDecimal v = true <;> simp [hv, int?]
  · simp

theorem parseLength_eq_some {vs : List Bytes} {l : Option Nat} :
    parseLength vs = some (none, l) ↔ (vs = [] ∧ l = none) ∨
      ∃ v, vs = [v] ∧ isDecimal v = true ∧ v.length ≤ maxStrDigits ∧ l = some (decimalValue v) := by
  unfold parseLength
  rcases vs with _ | ⟨v, _ | ⟨w, vs⟩⟩
  · simpa using ⟨Eq.symm, Eq.symm⟩
  · by_cases hv : isDecimal v = true
    · by_cases hlen : maxStrDigits < v.length
      · have hle : ¬ v.length ≤ maxStrDigits := by omega
        simp [hv, int?, hlen, hle]
      · have hle : v.length ≤ maxStrDigits := by omega
        simpa [hv, int?, hlen, hle] using ⟨Eq.symm, Eq.symm⟩
    · simp [hv]
  · simp

variable {isSelected : BundleDocumentHeader → Bool} {duplicateCode : FailureCode}

theorem beginText_eq_error :
    (∃ e, s.beginText isSelected duplicateCode = .error e) ↔ Oversized s.header := by
  unfold beginText Oversized
  rw [← parseSequence_eq_none, ← parseLength_eq_none]
  cases hseq : parseSequence (readField .sequence s.header) with
  | none => exact ⟨fun _ => Or.inl rfl, fun _ => ⟨s, rfl⟩⟩
  | some r =>
    dsimp only
    rw [failWith_header]
    cases hlen : parseLength (readField .length s.header) with
    | none => exact ⟨fun _ => Or.inr rfl, fun _ => ⟨_, rfl⟩⟩
    | some l => simp only [reduceCtorEq, exists_false, or_self]

/-- The state behind a `<TEXT>` that raises no failure. -/
def opened (isSelected : BundleDocumentHeader → Bool) (s : Extraction) : Extraction :=
  let current := describeHeader s.documentCount s.header
  let s := { s with
    header := [], current := some current, currentIsSelected := isSelected current,
    currentBodySize := 0 }
  if isSelected current = true then
    { s with matchingSequences := 1, selected := some current, body := [], file := some [] }
  else s

theorem readable_iff {h : Bytes} : ReadableHeader h ∧ ¬ Oversized h ↔
    parseSequence (readField .sequence h) = some (none, sequenceOf h) ∧
      parseLength (readField .length h) = some (none, declaredLengthOf h) ∧
      ¬ (1 < (readField .filename h).length ∨ 1 < (readField .documentType h).length ∨
        1 < (readField .description h).length) := by
  rw [parseSequence_eq_some, parseLength_eq_some]
  constructor
  · rintro ⟨hread, hsize⟩
    obtain ⟨v, hv, hdec, hpos⟩ := hread.sequence
    have hval : sequenceOf h = decimalValue v := by simp [sequenceOf, hv]
    have hvlen : v.length ≤ maxStrDigits := not_lt.mp fun hlt => hsize (Or.inl ⟨v, hv, hdec, hlt⟩)
    refine ⟨⟨v, hv, hdec, hvlen, hval ▸ hpos, hval⟩, ?_, ?_⟩
    · rcases hread.length with hnil | ⟨w, hw, hwdec⟩
      · exact Or.inl ⟨hnil, by simp [declaredLengthOf, hnil]⟩
      · have hwlen : w.length ≤ maxStrDigits :=
          not_lt.mp fun hlt => hsize (Or.inr ⟨w, hw, hwdec, hlt⟩)
        exact Or.inr ⟨w, hw, hwdec, hwlen, by simp [declaredLengthOf, hw]⟩
    · have hf := hread.filename
      have ht := hread.documentType
      have hd := hread.description
      omega
  · rintro ⟨⟨v, hv, hdec, hvlen, hpos, hval⟩, hlength, hfields⟩
    refine ⟨⟨⟨v, hv, hdec, hval ▸ hpos⟩, ?_, by omega, by omega, by omega⟩, ?_⟩
    · rcases hlength with ⟨hnil, _⟩ | ⟨w, hw, hwdec, _, _⟩
      · exact Or.inl hnil
      · exact Or.inr ⟨w, hw, hwdec⟩
    · rintro (⟨w, hw, _, hlt⟩ | ⟨w, hw, _, hlt⟩)
      · rw [hv] at hw
        cases hw
        omega
      · rcases hlength with ⟨hnil, _⟩ | ⟨u, hu, _, hulen, _⟩
        · rw [hnil] at hw
          cases hw
        · rw [hu] at hw
          cases hw
          omega

theorem select_failure {current : BundleDocumentHeader} :
    (s.select isSelected duplicateCode current).failure = none ↔
      s.failure = none ∧ (isSelected current = true → s.matchingSequences = 0) := by
  unfold select
  by_cases hsel : isSelected current = true
  · by_cases hzero : s.matchingSequences = 0
    · simp [hsel, hzero]
    · simp [hsel, hzero, fail_failure_ne]
  · simp [hsel]

theorem beginText_of_readable (hread : ReadableHeader s.header ∧ ¬ Oversized s.header)
    (hfirst : isSelected (describeHeader s.documentCount s.header) = true → s.matchingSequences = 0) :
    s.beginText isSelected duplicateCode = .ok (s.opened isSelected) := by
  obtain ⟨hseq, hlen, hmany⟩ := readable_iff.mp hread
  unfold beginText
  rw [hseq]
  dsimp only [failWith]
  rw [hlen]
  dsimp only [failWith]
  rw [failIf_of_not hmany]
  unfold select opened describeHeader at *
  by_cases hsel : isSelected (describe s.documentCount (sequenceOf s.header)
      (declaredLengthOf s.header) s.header) = true
  · simp [hsel, hfirst hsel]
  · simp [hsel]

@[simp] theorem opened_failure : (s.opened isSelected).failure = s.failure := by
  unfold opened
  dsimp only
  split_ifs <;> rfl

theorem beginText_clean (h : s.beginText isSelected duplicateCode = .ok s') (hclean : s'.failure = none) :
    (ReadableHeader s.header ∧ ¬ Oversized s.header) ∧
      (isSelected (describeHeader s.documentCount s.header) = true → s.matchingSequences = 0) ∧
      s' = s.opened isSelected := by
  have hboth : (ReadableHeader s.header ∧ ¬ Oversized s.header) ∧
      (isSelected (describeHeader s.documentCount s.header) = true → s.matchingSequences = 0) := by
    rw [readable_iff]
    have h' := h
    unfold beginText at h'
    cases hseq : parseSequence (readField .sequence s.header) with
    | none => simp [hseq] at h'
    | some r =>
      obtain ⟨f, n⟩ := r
      cases hlen : parseLength (readField .length s.header) with
      | none => simp [hseq, hlen] at h'
      | some l =>
        obtain ⟨g, m⟩ := l
        simp only [hseq, failWith_header, hlen, Except.ok.injEq] at h'
        subst h'
        obtain ⟨hfields, hfirst⟩ := select_failure.mp hclean
        simp only [failIf_failure, failWith_failure] at hfields
        obtain ⟨⟨⟨_, rfl⟩, rfl⟩, hmany⟩ := hfields
        obtain ⟨v, hv, _, _, _, rfl⟩ := parseSequence_eq_some.mp hseq
        have hval : sequenceOf s.header = decimalValue v := by simp [sequenceOf, hv]
        have hm : declaredLengthOf s.header = m := by
          rcases parseLength_eq_some.mp hlen with ⟨hnil, rfl⟩ | ⟨w, hw, _, _, rfl⟩
          · simp [declaredLengthOf, hnil]
          · simp [declaredLengthOf, hw]
        rw [hval, hm]
        refine ⟨⟨rfl, rfl, hmany⟩, ?_⟩
        simpa [describeHeader, hval, hm, failWith, failIf_of_not hmany] using hfirst
  rw [beginText_of_readable hboth.1 hboth.2] at h
  exact ⟨hboth.1, hboth.2, (Except.ok.inj h).symm⟩

/-! ## One document -/

variable {t : Token} {events rest : List SgmlEvent}

theorem validateLength_failure {l : Option Nat} {n : Nat} :
    (s.validateLength l n).failure = none ↔ s.failure = none ∧ ∀ m, l = some m → m = n := by
  unfold validateLength
  cases l with
  | none => simp
  | some m =>
    dsimp only
    split_ifs with hlt hne
    · simp only [fail_failure_ne, false_iff]
      rintro ⟨_, h⟩
      exact absurd (h m rfl) (by omega)
    · simp only [fail_failure_ne, false_iff]
      rintro ⟨_, h⟩
      exact hne (h m rfl)
    · simp [not_not.mp hne]

/-- The length check that `</DOCUMENT>` makes. -/
def lengthChecked (t : Extraction) : Extraction :=
  match t.current with
  | some current => t.validateLength current.declaredLength t.currentBodySize
  | none => t

theorem lengthChecked_clean {t : Extraction} (h : t.lengthChecked.failure = none) :
    t.failure = none ∧ ∀ c, t.current = some c → ∀ n, c.declaredLength = some n → n = t.currentBodySize := by
  unfold lengthChecked at h
  cases hc : t.current with
  | none =>
    rw [hc] at h
    exact ⟨h, by simp⟩
  | some c =>
    rw [hc] at h
    obtain ⟨ht, hlen⟩ := validateLength_failure.mp h
    refine ⟨ht, ?_⟩
    intro c' hc'
    cases hc'
    exact hlen

theorem closeDocument_clean (h : s.closeDocument.failure = none) :
    s.failure = none ∧ s.state = .afterText ∧
      ∀ c, s.current = some c → ∀ n, c.declaredLength = some n → n = s.currentBodySize := by
  unfold closeDocument at h
  cases hs : s.state with
  | afterText =>
    rw [hs] at h
    have hclean : (lengthChecked { s with state := .outside }).failure = none := h
    obtain ⟨hf, hlen⟩ := lengthChecked_clean hclean
    exact ⟨hf, rfl, hlen⟩
  | header =>
    rw [hs] at h
    have hclean : (lengthChecked { s.fail .missingText with state := .outside }).failure = none := h
    exact absurd (lengthChecked_clean hclean).1 fail_failure_ne
  | body =>
    rw [hs] at h
    have hclean : (lengthChecked { s.fail .missingText with state := .outside }).failure = none := h
    exact absurd (lengthChecked_clean hclean).1 fail_failure_ne
  | outside =>
    rw [hs] at h
    have hclean : (lengthChecked (s.fail .malformedDelimiters)).failure = none := h
    exact absurd (lengthChecked_clean hclean).1 fail_failure_ne

theorem closeDocument_of_afterText (hs : s.state = .afterText)
    (hlen : ∀ c, s.current = some c → ∀ n, c.declaredLength = some n → n = s.currentBodySize) :
    s.closeDocument = { s with state := .outside, current := none, currentIsSelected := false } := by
  unfold closeDocument
  simp only [hs]
  cases hc : s.current with
  | none => simp
  | some c =>
    cases hn : c.declaredLength with
    | none => simp [hn, validateLength]
    | some n => simp [hn, validateLength, hlen c hc n hn]

theorem handle_failure (h : s.handle isSelected duplicateCode t = .ok s') (hclean : s'.failure = none) :
    s.failure = none := by
  cases t with
  | documentOpen =>
    simp only [handle] at h
    split_ifs at h
    · cases h
      exact absurd hclean fail_failure_ne
    · cases h
      exact hclean
  | documentClose =>
    cases h
    exact (closeDocument_clean hclean).1
  | textOpen =>
    simp only [handle] at h
    split_ifs at h
    · cases h
      exact absurd hclean fail_failure_ne
    · obtain ⟨u, hu, rfl⟩ := map_eq_ok.mp h
      obtain ⟨_, _, rfl⟩ := beginText_clean hu hclean
      exact opened_failure.symm.trans hclean
  | textClose =>
    simp only [handle] at h
    split_ifs at h
    · cases h
      exact absurd hclean fail_failure_ne
    · cases h
      exact hclean

def place : Token → State
  | .documentOpen => .outside
  | .documentClose => .afterText
  | .textOpen => .header
  | .textClose => .body

theorem place_injective : Function.Injective place := by
  intro t u h
  cases t <;> cases u <;> first | rfl | cases h

theorem handle_place (h : s.handle isSelected duplicateCode t = .ok s') (hclean : s'.failure = none) :
    s.state = place t := by
  cases t with
  | documentClose =>
    cases h
    exact (closeDocument_clean hclean).2.1
  | documentOpen =>
    simp only [handle] at h
    split_ifs at h with hs
    · cases h
      exact absurd hclean fail_failure_ne
    · exact not_not.mp hs
  | textOpen =>
    simp only [handle] at h
    split_ifs at h with hs
    · cases h
      exact absurd hclean fail_failure_ne
    · exact not_not.mp hs
  | textClose =>
    simp only [handle] at h
    split_ifs at h with hs
    · cases h
      exact absurd hclean fail_failure_ne
    · exact not_not.mp hs

abbrev play (isSelected : BundleDocumentHeader → Bool) (duplicateCode : FailureCode) :
    List SgmlEvent → Extraction → Except Extraction Extraction :=
  Lexicon.replay consume (handle isSelected duplicateCode)

theorem play_data (p : Bytes) (events : List SgmlEvent) (s : Extraction) :
    play isSelected duplicateCode (p.map .data ++ events) s =
      play isSelected duplicateCode events (s.consume p) :=
  Lexicon.replay_data consume_nil consume_append p events s

theorem play_failure (h : play isSelected duplicateCode events s = .ok s') (hclean : s'.failure = none) :
    s.failure = none := by
  induction events generalizing s with
  | nil =>
    cases h
    exact hclean
  | cons e events ih =>
    cases e with
    | data b => exact consume_failure (ih h)
    | tag t =>
      obtain ⟨u, hu, h⟩ := bind_eq_ok.mp h
      exact handle_failure hu (ih h)

theorem exists_data_prefix (events : List SgmlEvent) : ∃ (p : Bytes) (rest : List SgmlEvent),
    events = p.map .data ++ rest ∧ (rest = [] ∨ ∃ t rest', rest = .tag t :: rest') := by
  induction events with
  | nil => exact ⟨[], [], rfl, Or.inl rfl⟩
  | cons e events ih =>
    cases e with
    | data b =>
      obtain ⟨p, rest, rfl, hrest⟩ := ih
      exact ⟨b :: p, rest, rfl, hrest⟩
    | tag t => exact ⟨[], .tag t :: events, rfl, Or.inr ⟨t, events, rfl⟩⟩

theorem play_next (hs : s.state = place t) (ht : t ≠ .documentOpen)
    (h : play isSelected duplicateCode events s = .ok s') (hclean : s'.failure = none)
    (hend : s'.state = .outside) :
    ∃ (p : Bytes) (rest : List SgmlEvent) (u : Extraction),
      events = p.map .data ++ .tag t :: rest ∧
      (s.consume p).handle isSelected duplicateCode t = .ok u ∧
      u.failure = none ∧ play isSelected duplicateCode rest u = .ok s' := by
  obtain ⟨p, rest, rfl, rfl | ⟨t', rest, rfl⟩⟩ := exists_data_prefix events
  · rw [play_data] at h
    cases h
    have hplace : place t = place .documentOpen := hs.symm.trans (consume_state.symm.trans hend)
    exact absurd (place_injective hplace) ht
  · rw [play_data] at h
    obtain ⟨u, hu, hrest⟩ := bind_eq_ok.mp h
    have hu' : u.failure = none := play_failure hrest hclean
    have hplace : place t = place t' :=
      hs.symm.trans (consume_state.symm.trans (handle_place hu hu'))
    obtain rfl := place_injective hplace
    exact ⟨p, rest, u, rfl, hu, hu', hrest⟩

def addDocument (isSelected : BundleDocumentHeader → Bool) (d : SubDocument) (s : Extraction) :
    Extraction :=
  let current := describeHeader (s.documentCount + 1) d.header
  let s := { s with
    state := .outside, header := [], current := none, currentIsSelected := false,
    currentBodySize := d.body.length, documentCount := s.documentCount + 1 }
  if isSelected current = true then
    { s with
      matchingSequences := 1, selected := some current, body := d.body, file := some d.body }
  else s

/-- The state after `<DOCUMENT>`. -/
def entered (s : Extraction) : Extraction :=
  { s with
    state := .header, documentCount := s.documentCount + 1, header := [], current := none,
    currentIsSelected := false }

/-- The state at `<TEXT>`. -/
def headed (header : Bytes) (s : Extraction) : Extraction := { s.entered with header := header }

/-- The state after `<TEXT>`. -/
def begun (isSelected : BundleDocumentHeader → Bool) (header : Bytes) (s : Extraction) : Extraction :=
  { (s.headed header).opened isSelected with state := .body }

/-- The state at `</DOCUMENT>`. -/
def finished (isSelected : BundleDocumentHeader → Bool) (d : SubDocument) (s : Extraction) :
    Extraction :=
  { (s.begun isSelected d.header).consume d.body with state := .afterText }

theorem finished_eq (d : SubDocument) (s : Extraction) : s.finished isSelected d =
    { s.addDocument isSelected d with
      state := .afterText, current := some (describeHeader (s.documentCount + 1) d.header)
      currentIsSelected := isSelected (describeHeader (s.documentCount + 1) d.header) } := by
  unfold finished
  rw [consume_body rfl]
  unfold begun headed opened entered addDocument
  by_cases hsel : isSelected (describeHeader (s.documentCount + 1) d.header) = true
  · simp [hsel]
  · simp [hsel]

@[simp] theorem addDocument_state (d : SubDocument) : (s.addDocument isSelected d).state = .outside := by
  unfold addDocument
  dsimp only
  split_ifs <;> rfl

@[simp] theorem addDocument_failure (d : SubDocument) :
    (s.addDocument isSelected d).failure = s.failure := by
  unfold addDocument
  dsimp only
  split_ifs <;> rfl

@[simp] theorem addDocument_currentBodySize (d : SubDocument) :
    (s.addDocument isSelected d).currentBodySize = d.body.length := by
  unfold addDocument
  dsimp only
  split_ifs <;> rfl

theorem handle_documentOpen (hs : s.state = .outside) :
    s.handle isSelected duplicateCode .documentOpen = .ok s.entered := by
  simp only [handle, hs, ne_eq, not_true_eq_false, if_false]
  rfl

theorem consume_headed {header : Bytes} (hsize : header.length ≤ maxHeaderSize) :
    s.entered.consume header = s.headed header :=
  consume_of_header rfl (by simpa [entered] using hsize)

theorem handle_textOpen {header : Bytes} (hread : ReadableHeader header ∧ ¬ Oversized header)
    (hfirst : isSelected (describeHeader (s.documentCount + 1) header) = true →
      s.matchingSequences = 0) :
    (s.headed header).handle isSelected duplicateCode .textOpen = .ok (s.begun isSelected header) := by
  have hbegin : (s.headed header).beginText isSelected duplicateCode =
      .ok ((s.headed header).opened isSelected) := beginText_of_readable hread hfirst
  have hstate : (s.headed header).state = .header := rfl
  simp only [handle, hstate, ne_eq, not_true_eq_false, if_false, hbegin]
  rfl

theorem handle_textClose (d : SubDocument) :
    ((s.begun isSelected d.header).consume d.body).handle isSelected duplicateCode .textClose =
      .ok (s.finished isSelected d) := by
  have hstate : ((s.begun isSelected d.header).consume d.body).state = .body := consume_state
  simp only [handle, hstate, ne_eq, not_true_eq_false, if_false]
  rfl

theorem consume_finished (d : SubDocument) (trailer : Bytes) :
    (s.finished isSelected d).consume trailer = s.finished isSelected d :=
  consume_of_idle (by simp [finished]) (by simp [finished])

theorem closeDocument_finished (d : SubDocument)
    (hlen : ∀ n, declaredLengthOf d.header = some n → n = d.body.length) :
    (s.finished isSelected d).closeDocument = s.addDocument isSelected d := by
  rw [closeDocument_of_afterText rfl]
  · rw [finished_eq]
    unfold addDocument
    dsimp only
    split_ifs <;> rfl
  · rw [finished_eq]
    rintro c hc n hn
    cases hc
    exact (hlen n hn).trans (addDocument_currentBodySize d).symm

theorem play_document (hs : s.state = .outside) (d : SubDocument) (trailer : Bytes)
    (hacc : d.Acceptable) (hsize : ¬ Oversized d.header)
    (hfirst : isSelected (describeHeader (s.documentCount + 1) d.header) = true →
      s.matchingSequences = 0) :
    play isSelected duplicateCode (d.events trailer ++ rest) s =
      play isSelected duplicateCode rest (s.addDocument isSelected d) := by
  have htag : ∀ {t : Token} {u v : Extraction} (events : List SgmlEvent),
      u.handle isSelected duplicateCode t = .ok v →
      play isSelected duplicateCode (.tag t :: events) u = play isSelected duplicateCode events v := by
    intro t u v events h
    show (u.handle isSelected duplicateCode t).bind _ = _
    rw [h]
    rfl
  unfold SubDocument.events
  simp only [List.cons_append, List.append_assoc, List.nil_append]
  rw [htag _ (handle_documentOpen hs), play_data, consume_headed hacc.size,
    htag _ (handle_textOpen ⟨hacc.header, hsize⟩ hfirst), play_data, htag _ (handle_textClose d),
    play_data, consume_finished]
  rw [← closeDocument_finished d hacc.length]
  exact htag rest rfl

theorem play_document_inv (hs : s.state = .outside)
    (h : play isSelected duplicateCode (.tag .documentOpen :: events) s = .ok s')
    (hclean : s'.failure = none) (hend : s'.state = .outside) :
    ∃ (d : SubDocument) (trailer : Bytes) (rest : List SgmlEvent),
      .tag .documentOpen :: events = d.events trailer ++ rest ∧ d.Acceptable ∧
      ¬ Oversized d.header ∧
      (isSelected (describeHeader (s.documentCount + 1) d.header) = true → s.matchingSequences = 0) ∧
      play isSelected duplicateCode rest (s.addDocument isSelected d) = .ok s' := by
  have hplay : play isSelected duplicateCode events s.entered = .ok s' := by
    obtain ⟨u, hu, hrest⟩ := bind_eq_ok.mp h
    rw [handle_documentOpen hs] at hu
    cases hu
    exact hrest
  -- the header
  obtain ⟨header, events₁, u₁, rfl, hu₁, hu₁clean, hplay₁⟩ :=
    play_next (t := .textOpen) rfl (by decide) hplay hclean hend
  have hsize : header.length ≤ maxHeaderSize := by
    have hfits := header_fits (s := s.entered) rfl (handle_failure hu₁ hu₁clean) (Nat.zero_le _)
    simpa [entered] using hfits
  rw [consume_headed hsize] at hu₁
  obtain ⟨hread, hfirst⟩ : (ReadableHeader header ∧ ¬ Oversized header) ∧
      (isSelected (describeHeader (s.documentCount + 1) header) = true → s.matchingSequences = 0) := by
    have hstate : (s.headed header).state = .header := rfl
    simp only [handle, hstate, ne_eq, not_true_eq_false, if_false] at hu₁
    obtain ⟨u, hu, rfl⟩ := map_eq_ok.mp hu₁
    obtain ⟨hread, hfirst, _⟩ := beginText_clean hu hu₁clean
    exact ⟨hread, hfirst⟩
  rw [handle_textOpen hread hfirst] at hu₁
  cases hu₁
  -- the body
  obtain ⟨body, events₂, u₂, rfl, hu₂, _, hplay₂⟩ :=
    play_next (t := .textClose) rfl (by decide) hplay₁ hclean hend
  rw [handle_textClose ⟨header, body⟩] at hu₂
  cases hu₂
  -- what follows it up to the end of the document
  obtain ⟨trailer, rest, u₃, rfl, hu₃, hu₃clean, hplay₃⟩ :=
    play_next (t := .documentClose) rfl (by decide) hplay₂ hclean hend
  rw [consume_finished] at hu₃
  cases hu₃
  have hlen : ∀ n, declaredLengthOf header = some n → n = body.length := by
    intro n hn
    have hcurrent : (s.finished isSelected ⟨header, body⟩).current =
        some (describeHeader (s.documentCount + 1) header) := by rw [finished_eq]
    have hsize : (s.finished isSelected ⟨header, body⟩).currentBodySize = body.length := by
      rw [finished_eq]
      exact addDocument_currentBodySize _
    rw [← hsize]
    exact (closeDocument_clean hu₃clean).2.2 _ hcurrent n hn
  rw [closeDocument_finished ⟨header, body⟩ hlen] at hplay₃
  exact ⟨⟨header, body⟩, trailer, rest, by simp [SubDocument.events], ⟨hsize, hread.1, hlen⟩,
    hread.2, hfirst, hplay₃⟩

/-! ## Where `int` raises -/

def position (s : Extraction) : Place :=
  match s.state with
  | .outside => .outside
  | .header => .header s.header
  | .body => .body
  | .afterText => .afterText

theorem position_consume (b : UInt8) : (s.consume [b]).position = s.position.read b := by
  cases hs : s.state with
  | header =>
    rw [consume_header hs]
    simp [position, hs, Place.read]
  | outside => simp [consume, position, hs, Place.read]
  | afterText => simp [consume, position, hs, Place.read]
  | body => simp [position, hs, Place.read]

theorem handle_eq_error : (∃ e, s.handle isSelected duplicateCode t = .error e) ↔
    t = .textOpen ∧ s.state = .header ∧ Oversized s.header := by
  cases t with
  | documentOpen =>
    simp only [handle]
    split_ifs <;> simp
  | documentClose => simp [handle]
  | textClose =>
    simp only [handle]
    split_ifs <;> simp
  | textOpen =>
    simp only [handle]
    split_ifs with hs
    · simp [hs]
    · rw [← @beginText_eq_error s isSelected duplicateCode]
      cases h : s.beginText isSelected duplicateCode with
      | error e => simpa [Except.map] using hs
      | ok u => simp [Except.map]

theorem closeDocument_position : s.closeDocument.position = s.position.next .documentClose := by
  have hstate : s.closeDocument.state = .outside := by
    have hvalid : ∀ (u : Extraction) l n, (u.validateLength l n).state = u.state := by
      intro u l n
      unfold validateLength
      cases l with
      | none => rfl
      | some m =>
        dsimp only
        split_ifs <;> simp
    unfold closeDocument
    cases hs : s.state <;> dsimp only <;> cases hc : s.current <;> simp [hc, hs, hvalid]
  unfold position
  rw [hstate]
  cases s.state <;> rfl

theorem position_handle (h : s.handle isSelected duplicateCode t = .ok s') :
    s'.position = s.position.next t := by
  have hfail : ∀ c, (s.fail c).position = s.position := fun c => by simp [position]
  cases t with
  | documentClose =>
    cases h
    exact closeDocument_position
  | documentOpen =>
    simp only [handle] at h
    split_ifs at h with hs
    · cases h
      rw [hfail]
      cases hstate : s.state <;> simp_all [position, Place.next]
    · cases h
      simp [position, not_not.mp hs, Place.next]
  | textOpen =>
    simp only [handle] at h
    split_ifs at h with hs
    · cases h
      rw [hfail]
      cases hstate : s.state <;> simp_all [position, Place.next]
    · obtain ⟨u, _, rfl⟩ := map_eq_ok.mp h
      simp [position, not_not.mp hs, Place.next]
  | textClose =>
    simp only [handle] at h
    split_ifs at h with hs
    · cases h
      rw [hfail]
      cases hstate : s.state <;> simp_all [position, Place.next]
    · cases h
      simp [position, not_not.mp hs, Place.next]

theorem play_eq_error : (∃ e, play isSelected duplicateCode events s = .error e) ↔
    ∃ h ∈ headersRead s.position events, Oversized h := by
  induction events generalizing s with
  | nil => simp [play, Lexicon.replay, headersRead]
  | cons e events ih =>
    cases e with
    | data b =>
      have hread : headersRead s.position (.data b :: events) =
          headersRead (s.consume [b]).position events := by
        rw [position_consume, headersRead]
      rw [hread]
      exact ih
    | tag t =>
      have hread : headersRead s.position (.tag t :: events) =
          (if t = .textOpen ∧ s.state = .header then [s.header] else []) ++
            headersRead (s.position.next t) events := by
        cases t <;> cases hs : s.state <;> simp [position, hs, headersRead, Place.next]
      rw [hread]
      simp only [List.mem_append, or_and_right, exists_or]
      cases hu : s.handle isSelected duplicateCode t with
      | error e =>
        obtain ⟨ht, hs, hover⟩ := handle_eq_error.mp ⟨e, hu⟩
        have hplay : play isSelected duplicateCode (.tag t :: events) s = .error e := by
          show (s.handle isSelected duplicateCode t).bind _ = _
          rw [hu]
          rfl
        refine iff_of_true ⟨e, hplay⟩ (Or.inl ⟨s.header, ?_, hover⟩)
        simp [ht, hs]
      | ok u =>
        have hplay : play isSelected duplicateCode (.tag t :: events) s =
            play isSelected duplicateCode events u := by
          show (s.handle isSelected duplicateCode t).bind _ = _
          rw [hu]
          rfl
        have hnone : ¬ ∃ h ∈ (if t = .textOpen ∧ s.state = .header then [s.header] else []),
            Oversized h := by
          rintro ⟨h, hh, hover⟩
          split_ifs at hh with hts
          · obtain rfl := List.mem_singleton.mp hh
            obtain ⟨e, he⟩ := (@handle_eq_error s isSelected duplicateCode t).mpr
              ⟨hts.1, hts.2, hover⟩
            rw [hu] at he
            cases he
          · cases hh
        rw [hplay, ih, position_handle hu]
        simp only [hnone, false_or]

/-! ## Whole files -/

def addDocuments (isSelected : BundleDocumentHeader → Bool) (docs : List SubDocument) (s : Extraction) :
    Extraction := docs.foldl (fun s d => s.addDocument isSelected d) s

def Admissible (isSelected : BundleDocumentHeader → Bool) : Extraction → List SubDocument → Prop
  | _, [] => True
  | s, d :: docs => (d.Acceptable ∧ ¬ Oversized d.header) ∧
      (isSelected (describeHeader (s.documentCount + 1) d.header) = true → s.matchingSequences = 0) ∧
      Admissible isSelected (s.addDocument isSelected d) docs

theorem play_of_delimited {docs : List SubDocument} (h : Delimited events docs)
    (hs : s.state = .outside) (hadm : Admissible isSelected s docs) :
    play isSelected duplicateCode events s = .ok (s.addDocuments isSelected docs) := by
  induction h generalizing s with
  | done => rfl
  | between b _ ih =>
    have hidle : s.consume [b] = s := consume_of_idle (by simp [hs]) (by simp [hs])
    show play isSelected duplicateCode _ (s.consume [b]) = _
    rw [hidle]
    exact ih hs hadm
  | document d trailer _ ih =>
    obtain ⟨⟨hacc, hsize⟩, hfirst, hrest⟩ := hadm
    rw [play_document hs d trailer hacc hsize hfirst]
    exact ih (addDocument_state d) hrest

theorem delimited_of_play (hs : s.state = .outside)
    (h : play isSelected duplicateCode events s = .ok s') (hclean : s'.failure = none)
    (hend : s'.state = .outside) :
    ∃ docs, Delimited events docs ∧ Admissible isSelected s docs ∧
      s' = s.addDocuments isSelected docs := by
  induction hn : events.length using Nat.strong_induction_on generalizing events s with
  | _ n ih =>
    subst hn
    cases events with
    | nil =>
      cases h
      exact ⟨[], .done, trivial, rfl⟩
    | cons e events =>
      cases e with
      | data b =>
        have hidle : s.consume [b] = s := consume_of_idle (by simp [hs]) (by simp [hs])
        have hplay : play isSelected duplicateCode events (s.consume [b]) = .ok s' := h
        rw [hidle] at hplay
        obtain ⟨docs, hdocs, hadm, hend⟩ := ih events.length (by simp) hs hplay rfl
        exact ⟨docs, .between b hdocs, hadm, hend⟩
      | tag t =>
        obtain ⟨u, hu, hrest⟩ := bind_eq_ok.mp h
        have hplace : place t = place .documentOpen :=
          (handle_place hu (play_failure hrest hclean)).symm.trans hs
        obtain rfl := place_injective hplace
        obtain ⟨d, trailer, rest, hevents, hacc, hsize, hfirst, hplay⟩ :=
          play_document_inv hs h hclean hend
        have hlen : rest.length < (Event.tag Token.documentOpen :: events).length := by
          rw [hevents]
          simp [SubDocument.events]
          omega
        obtain ⟨docs, hdocs, hadm, hend⟩ := ih rest.length hlen (addDocument_state d) hplay rfl
        rw [hevents]
        exact ⟨d :: docs, .document d trailer hdocs, ⟨⟨hacc, hsize⟩, hfirst, hadm⟩, hend⟩

/-! ## One selected document -/

theorem addDocuments_cons (d : SubDocument) (docs : List SubDocument) :
    s.addDocuments isSelected (d :: docs) =
      (s.addDocument isSelected d).addDocuments isSelected docs := rfl

def Ignores (isSelected : BundleDocumentHeader → Bool) : Prop :=
  ∀ m n h, isSelected (describeHeader m h) = isSelected (describeHeader n h)

theorem addDocument_of_not {d : SubDocument}
    (h : isSelected (describeHeader (s.documentCount + 1) d.header) = false) :
    (s.addDocument isSelected d).matchingSequences = s.matchingSequences ∧
      (s.addDocument isSelected d).selected = s.selected ∧
      (s.addDocument isSelected d).body = s.body ∧ (s.addDocument isSelected d).file = s.file := by
  simp [addDocument, h]

@[simp] theorem addDocument_documentCount (d : SubDocument) :
    (s.addDocument isSelected d).documentCount = s.documentCount + 1 := by
  unfold addDocument
  dsimp only
  split_ifs <;> rfl

theorem addDocuments_documentCount (docs : List SubDocument) :
    (s.addDocuments isSelected docs).documentCount = s.documentCount + docs.length := by
  induction docs generalizing s with
  | nil => rfl
  | cons d docs ih =>
    rw [addDocuments_cons, ih, addDocument_documentCount, List.length_cons]
    omega

theorem addDocuments_clean (docs : List SubDocument) (hs : s.state = .outside) :
    (s.addDocuments isSelected docs).failure = s.failure ∧
      (s.addDocuments isSelected docs).state = .outside := by
  induction docs generalizing s with
  | nil => exact ⟨rfl, hs⟩
  | cons d docs ih =>
    obtain ⟨hfailure, hstate⟩ := ih (addDocument_state d)
    exact ⟨hfailure.trans (addDocument_failure d), hstate⟩

section Ignoring
variable (hig : Ignores isSelected)
include hig

theorem addDocuments_of_not {docs : List SubDocument}
    (h : docs.filter (fun d => isSelected (describeHeader 0 d.header)) = []) :
    (s.addDocuments isSelected docs).matchingSequences = s.matchingSequences ∧
      (s.addDocuments isSelected docs).selected = s.selected ∧
      (s.addDocuments isSelected docs).body = s.body ∧
      (s.addDocuments isSelected docs).file = s.file := by
  induction docs generalizing s with
  | nil => exact ⟨rfl, rfl, rfl, rfl⟩
  | cons d docs ih =>
    rw [List.filter_eq_nil_iff] at h
    have hd : isSelected (describeHeader (s.documentCount + 1) d.header) = false := by
      rw [hig _ 0]
      simpa using h d List.mem_cons_self
    have hdocs : docs.filter (fun d => isSelected (describeHeader 0 d.header)) = [] := by
      rw [List.filter_eq_nil_iff]
      exact fun e he => h e (List.mem_cons_of_mem d he)
    obtain ⟨hm, hsel, hbody, hfile⟩ := ih (s := s.addDocument isSelected d) hdocs
    obtain ⟨hm', hsel', hbody', hfile'⟩ := addDocument_of_not hd
    exact ⟨hm.trans hm', hsel.trans hsel', hbody.trans hbody', hfile.trans hfile'⟩

theorem addDocuments_of_one {docs : List SubDocument} {d : SubDocument}
    (h : docs.filter (fun d => isSelected (describeHeader 0 d.header)) = [d]) :
    (s.addDocuments isSelected docs).matchingSequences = 1 ∧
      (∃ n, (s.addDocuments isSelected docs).selected = some (describeHeader n d.header)) ∧
      (s.addDocuments isSelected docs).body = d.body ∧
      (s.addDocuments isSelected docs).file = some d.body := by
  induction docs generalizing s with
  | nil => cases h
  | cons e docs ih =>
    rw [addDocuments_cons]
    by_cases he : isSelected (describeHeader 0 e.header) = true
    · rw [List.filter_cons, if_pos he] at h
      obtain ⟨rfl, hdocs⟩ := List.cons.inj h
      have hadd : isSelected (describeHeader (s.documentCount + 1) e.header) = true := by
        rw [hig _ 0, he]
      obtain ⟨hm, hsel, hbody, hfile⟩ :=
        addDocuments_of_not hig (s := s.addDocument isSelected e) hdocs
      rw [hm, hsel, hbody, hfile]
      simp only [addDocument, hadd, if_true]
      exact ⟨trivial, ⟨_, rfl⟩, trivial, trivial⟩
    · rw [List.filter_cons, if_neg he] at h
      exact ih h

theorem admissible_iff_none {docs : List SubDocument} (hs : s.matchingSequences ≠ 0) :
    Admissible isSelected s docs ↔ (∀ d ∈ docs, d.Acceptable ∧ ¬ Oversized d.header) ∧
      docs.filter (fun d => isSelected (describeHeader 0 d.header)) = [] := by
  induction docs generalizing s with
  | nil => simp [Admissible]
  | cons d docs ih =>
    by_cases hd : isSelected (describeHeader 0 d.header) = true
    · simp [Admissible, hig _ 0, hd, hs]
    · have hd' : isSelected (describeHeader (s.documentCount + 1) d.header) = false := by
        rw [hig _ 0]
        simpa using hd
      have hnext : (s.addDocument isSelected d).matchingSequences ≠ 0 := by
        rwa [(addDocument_of_not hd').1]
      simp [Admissible, hd', ih hnext, hd, and_assoc]

theorem admissible_iff {docs : List SubDocument} (hs : s.matchingSequences = 0) :
    Admissible isSelected s docs ↔ (∀ d ∈ docs, d.Acceptable ∧ ¬ Oversized d.header) ∧
      (docs.filter (fun d => isSelected (describeHeader 0 d.header))).length ≤ 1 := by
  induction docs generalizing s with
  | nil => simp [Admissible]
  | cons d docs ih =>
    by_cases hd : isSelected (describeHeader 0 d.header) = true
    · have hd' : isSelected (describeHeader (s.documentCount + 1) d.header) = true := by
        rw [hig _ 0, hd]
      have hnext : (s.addDocument isSelected d).matchingSequences ≠ 0 := by simp [addDocument, hd']
      simp [Admissible, hs, admissible_iff_none hig hnext, hd, and_assoc]
    · have hd' : isSelected (describeHeader (s.documentCount + 1) d.header) = false := by
        rw [hig _ 0]
        simpa using hd
      have hnext : (s.addDocument isSelected d).matchingSequences = 0 := by
        rw [(addDocument_of_not hd').1, hs]
      simp [Admissible, hd', ih hnext, hd, and_assoc]

end Ignoring
theorem endInput_clean : s.endInput.failure = none ↔ s.failure = none ∧ s.state = .outside := by
  unfold endInput
  cases hs : s.state <;> simp [fail_failure_ne]

theorem endInput_of_outside (hs : s.state = .outside) : s.endInput = s := by
  simp only [endInput, hs]

end Extraction

end EdgarSec.Document
