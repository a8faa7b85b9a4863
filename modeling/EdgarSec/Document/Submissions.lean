import EdgarSec.Document.Streaming

/-! Submissions as their delimiters and fields define them, and the headers that are read on
the way through one. -/

namespace EdgarSec.Document
open EdgarSec.Foundation EdgarSec.Lib

abbrev SgmlEvent := Event UInt8 Token

/-! ## Submissions -/

structure SubDocument where
  header : Bytes
  body : Bytes

/-- `<DOCUMENT>` header `<TEXT>` body `</TEXT>` trailer `</DOCUMENT>` -/
def SubDocument.events (d : SubDocument) (trailer : Bytes) : List SgmlEvent :=
  .tag .documentOpen :: (d.header.map .data ++ .tag .textOpen :: (d.body.map .data ++
    .tag .textClose :: (trailer.map .data ++ [.tag .documentClose])))

inductive Delimited : List SgmlEvent → List SubDocument → Prop
  | done : Delimited [] []
  | between (b : UInt8) {events : List SgmlEvent} {docs : List SubDocument} :
      Delimited events docs → Delimited (.data b :: events) docs
  | document (d : SubDocument) (trailer : Bytes) {events : List SgmlEvent} {docs : List SubDocument} :
      Delimited events docs → Delimited (d.events trailer ++ events) (d :: docs)

def sequenceOf (header : Bytes) : Nat :=
  match readField .sequence header with
  | [v] => decimalValue v
  | _ => 0

def declaredLengthOf (header : Bytes) : Option Nat :=
  match readField .length header with
  | [v] => some (decimalValue v)
  | _ => none

structure ReadableHeader (header : Bytes) : Prop where
  sequence : ∃ v, readField .sequence header = [v] ∧ isDecimal v = true ∧ 0 < decimalValue v
  length : readField .length header = [] ∨
    ∃ v, readField .length header = [v] ∧ isDecimal v = true
  filename : (readField .filename header).length ≤ 1
  documentType : (readField .documentType header).length ≤ 1
  description : (readField .description header).length ≤ 1

structure SubDocument.Acceptable (d : SubDocument) : Prop where
  size : d.header.length ≤ maxHeaderSize
  header : ReadableHeader d.header
  length : ∀ n, declaredLengthOf d.header = some n → n = d.body.length

def describeHeader (ordinal : Nat) (header : Bytes) : BundleDocumentHeader :=
  Extraction.describe ordinal (sequenceOf header) (declaredLengthOf header) header

/-- A sequence or a length that `int` does not read. -/
def Oversized (header : Bytes) : Prop :=
  (∃ v, readField .sequence header = [v] ∧ isDecimal v = true ∧ maxStrDigits < v.length) ∨
    ∃ v, readField .length header = [v] ∧ isDecimal v = true ∧ maxStrDigits < v.length

/-! ## Where the machine is -/

inductive Place
  | outside
  | header (read : Bytes)
  | body
  | afterText

def Place.read (b : UInt8) : Place → Place
  | .header h => .header (h ++ [b].take (maxHeaderSize - h.length))
  | p => p

def Place.next : Place → Token → Place
  | .outside, .documentOpen => .header []
  | .header _, .textOpen => .body
  | .header _, .documentClose => .outside
  | .body, .textClose => .afterText
  | .body, .documentClose => .outside
  | .afterText, .documentClose => .outside
  | p, _ => p

/-- The headers that are read: what follows a `<DOCUMENT>` up to a `<TEXT>`, as far as it is kept. -/
def headersRead : Place → List SgmlEvent → List Bytes
  | _, [] => []
  | p, .data b :: events => headersRead (p.read b) events
  | .header h, .tag .textOpen :: events => h :: headersRead .body events
  | p, .tag t :: events => headersRead (p.next t) events

theorem headersRead_data (p : Place) (bs : Bytes) (events : List SgmlEvent) :
    headersRead p (bs.map .data ++ events) = headersRead (bs.foldl (fun p b => p.read b) p) events := by
  induction bs generalizing p with
  | nil => rfl
  | cons b bs ih =>
    rw [List.foldl_cons, ← ih]
    show headersRead p (.data b :: (bs.map .data ++ events)) = _
    rw [headersRead]

theorem foldl_read_header (h bs : Bytes) (hlen : h.length + bs.length ≤ maxHeaderSize) :
    bs.foldl (fun p b => p.read b) (Place.header h) = .header (h ++ bs) := by
  induction bs generalizing h with
  | nil => simp
  | cons b bs ih =>
    have htake : [b].take (maxHeaderSize - h.length) = [b] :=
      List.take_of_length_le (by simp at hlen ⊢; omega)
    rw [List.foldl_cons]
    show bs.foldl (fun p b => p.read b) (Place.header (h ++ [b].take (maxHeaderSize - h.length))) = _
    rw [htake, ih (h ++ [b]) (by simp at hlen ⊢; omega)]
    simp

theorem foldl_read_of_not {p : Place} (hp : ∀ b, p.read b = p) (bs : Bytes) :
    bs.foldl (fun p b => p.read b) p = p := by
  induction bs with
  | nil => rfl
  | cons b bs ih => rw [List.foldl_cons, hp, ih]

theorem headersRead_document (d : SubDocument) (trailer : Bytes) (events : List SgmlEvent)
    (hsize : d.header.length ≤ maxHeaderSize) :
    headersRead .outside (d.events trailer ++ events) = d.header :: headersRead .outside events := by
  unfold SubDocument.events
  simp only [List.cons_append, List.append_assoc, List.nil_append]
  show headersRead (.header []) (d.header.map .data ++ _) = _
  rw [headersRead_data, foldl_read_header [] d.header (by simpa using hsize)]
  show d.header :: headersRead .body (d.body.map .data ++ _) = _
  rw [headersRead_data, foldl_read_of_not fun _ => rfl]
  show d.header :: headersRead .afterText (trailer.map .data ++ _) = _
  rw [headersRead_data, foldl_read_of_not fun _ => rfl]
  rfl

theorem headersRead_of_delimited {events : List SgmlEvent} {docs : List SubDocument}
    (h : Delimited events docs) (hsize : ∀ d ∈ docs, d.header.length ≤ maxHeaderSize) :
    headersRead .outside events = docs.map SubDocument.header := by
  induction h with
  | done => rfl
  | between b _ ih =>
    rw [headersRead]
    exact ih hsize
  | document d trailer _ ih =>
    rw [headersRead_document d trailer _ (hsize d List.mem_cons_self), List.map_cons,
      ih fun e he => hsize e (List.mem_cons_of_mem d he)]

end EdgarSec.Document
