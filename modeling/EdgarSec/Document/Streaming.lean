import EdgarSec.Foundation.Text
import EdgarSec.Lib.Lexicon

/-! Extraction of one document from an SEC submission file that is read in chunks: the
delimiters, the header fields and the state machine over them. -/

namespace EdgarSec.Document
open EdgarSec.Foundation EdgarSec.Lib

/-! ## Delimiters -/

inductive Token
  | documentOpen
  | documentClose
  | textOpen
  | textClose
deriving DecidableEq

/-- `bytes.lower` on one byte. -/
def asciiLower (b : UInt8) : UInt8 := if 65 ≤ b ∧ b ≤ 90 then b + 32 else b

def ascii (s : String) : Bytes := s.toList.map fun c => UInt8.ofNat c.toNat

def Token.text : Token → Bytes
  | .documentOpen => ascii "<DOCUMENT>"
  | .documentClose => ascii "</DOCUMENT>"
  | .textOpen => ascii "<TEXT>"
  | .textClose => ascii "</TEXT>"

def tokens : List Token := [.documentOpen, .documentClose, .textOpen, .textClose]

def maxTokenSize : Nat := (tokens.map fun t => t.text.length).foldl max 0

def maxHeaderSize : Nat := 64 * 1024

def delimiters : Lexicon UInt8 Token where
  tokens := tokens
  text t := t.text.map asciiLower
  norm := asciiLower
  width := maxTokenSize
  marker := 60
  text_eq t _ := ⟨(t.text.map asciiLower).tail, by cases t <;> decide +kernel⟩
  width_le t _ := by cases t <;> decide +kernel
  prefix_free t _ u _ h := by revert h; cases t <;> cases u <;> decide +kernel

/-! ## Header fields -/

inductive Field
  | sequence
  | filename
  | documentType
  | length
  | description
deriving DecidableEq

def Field.tag : Field → Bytes
  | .sequence => ascii "<SEQUENCE>"
  | .filename => ascii "<FILENAME>"
  | .documentType => ascii "<TYPE>"
  | .length => ascii "<LENGTH>"
  | .description => ascii "<DESCRIPTION>"

/-- `\s` in a pattern over bytes. -/
def isAsciiSpace (b : UInt8) : Bool := (9 ≤ b && b ≤ 13) || b == 32

/-- `str.isspace` on the characters of latin-1. -/
def isLatinSpace (b : UInt8) : Bool :=
  (9 ≤ b && b ≤ 13) || (28 ≤ b && b ≤ 32) || b == 0x85 || b == 0xa0

def strip (v : Bytes) : Bytes := ((v.dropWhile isLatinSpace).reverse.dropWhile isLatinSpace).reverse

/-- What a field's pattern captures behind its tag: after blanks, up to a line end or `<`. -/
def capture (rest : Bytes) : Bytes :=
  (rest.dropWhile isAsciiSpace).takeWhile fun b => b ≠ 13 && b ≠ 10 && b ≠ 60

def readField (name : Field) (header : Bytes) : List Bytes :=
  header.tails.filterMap fun rest =>
    if (name.tag.map asciiLower).isPrefixOf (rest.map asciiLower) then
      let value := strip (capture (rest.drop name.tag.length))
      if value = [] then none else some value
    else none

def decode (v : Bytes) : String := String.ofList (v.map fun b => Char.ofNat b.toNat)

/-- `str.upper` on one character of latin-1. -/
def upperChar (b : UInt8) : List Char :=
  if (97 ≤ b ∧ b ≤ 122) ∨ (0xe0 ≤ b ∧ b ≤ 0xfe ∧ b ≠ 0xf7) then [Char.ofNat (b.toNat - 32)]
  else if b = 0xb5 then [Char.ofNat 0x39c]
  else if b = 0xdf then ['S', 'S']
  else if b = 0xff then [Char.ofNat 0x178]
  else [Char.ofNat b.toNat]

def decodeUpper (v : Bytes) : String := String.ofList (v.flatMap upperChar)

/-- `str.isdecimal`: latin-1 has no decimal digits but the ASCII ones. -/
def isDecimal (v : Bytes) : Bool := v ≠ [] && v.all fun b => 48 ≤ b && b ≤ 57

def decimalValue (v : Bytes) : Nat := v.foldl (fun n b => 10 * n + (b.toNat - 48)) 0

/-- The digits `int` reads by default, leading zeros included. -/
def maxStrDigits : Nat := 4300

/-- `int` of a decimal text; it raises on more digits than `maxStrDigits`. -/
def int? (v : Bytes) : Option Nat := if maxStrDigits < v.length then none else some (decimalValue v)

/-! ## The extraction -/

inductive FailureCode
  | notSgml
  | malformedDelimiters
  | missingSequence
  | invalidSequence
  | sequenceNotFound
  | duplicateSequence
  | invalidLength
  | lengthMismatch
  | lengthOutOfBounds
  | missingText
  | sourceMismatch
deriving DecidableEq

structure BundleDocumentHeader where
  ordinal : Nat
  sequence : Nat
  filename : Option String
  documentType : Option String
  description : Option String
  declaredLength : Option Nat
deriving DecidableEq

structure BundleExtraction where
  destination : String
  selected : BundleDocumentHeader
  documentCount : Nat
  sourceSize : Nat
  sourceSha256 : String
  bodySize : Nat
  bodySha256 : String
deriving DecidableEq

structure BundleExtractionFailure where
  code : FailureCode
  matchingSequences : Nat
  sourceSha256 : String
deriving DecidableEq

inductive State
  | outside
  | header
  | body
  | afterText
deriving DecidableEq

/-- The variables of `_extract_bundle_selection`. `body` is what the digest and the size of the
body have been fed, `file` the file at the destination. -/
structure Extraction where
  failure : Option FailureCode
  state : State
  header : Bytes
  current : Option BundleDocumentHeader
  currentIsSelected : Bool
  currentBodySize : Nat
  selected : Option BundleDocumentHeader
  matchingSequences : Nat
  documentCount : Nat
  body : Bytes
  file : Option Bytes
deriving DecidableEq

namespace Extraction

def initial (file : Option Bytes) : Extraction where
  failure := none
  state := .outside
  header := []
  current := none
  currentIsSelected := false
  currentBodySize := 0
  selected := none
  matchingSequences := 0
  documentCount := 0
  body := []
  file := file

def fail (code : FailureCode) (s : Extraction) : Extraction :=
  if s.failure = none then { s with failure := some code } else s

def failIf (p : Prop) [Decidable p] (code : FailureCode) (s : Extraction) : Extraction :=
  if p then s.fail code else s

def consume (data : Bytes) (s : Extraction) : Extraction :=
  match s.state with
  | .header =>
    let remaining := maxHeaderSize - s.header.length
    let s := s.failIf (remaining < data.length) .malformedDelimiters
    { s with header := s.header ++ data.take remaining }
  | .body =>
    let s := { s with currentBodySize := s.currentBodySize + data.length }
    if s.currentIsSelected = true ∧ s.matchingSequences = 1 then
      { s with body := s.body ++ data, file := s.file.map (· ++ data) }
    else s
  | .outside | .afterText => s

/-- The value of `<SEQUENCE>` with the failure it is reported as; nothing when `int` raises. -/
def parseSequence : List Bytes → Option (Option FailureCode × Nat)
  | [] => some (some .missingSequence, 0)
  | [v] =>
    if isDecimal v = true then
      (int? v).map fun n => if n ≤ 0 then (some .invalidSequence, n) else (none, n)
    else some (some .invalidSequence, 0)
  | _ :: _ :: _ => some (some .invalidSequence, 0)

def parseLength : List Bytes → Option (Option FailureCode × Option Nat)
  | [] => some (none, none)
  | [v] =>
    if isDecimal v = true then (int? v).map fun n => (none, some n)
    else some (some .invalidLength, none)
  | _ :: _ :: _ => some (some .invalidLength, none)

def failWith : Option FailureCode → Extraction → Extraction
  | none, s => s
  | some code, s => s.fail code

/-- The header that `current` is set to. -/
def describe (ordinal sequence : Nat) (declaredLength : Option Nat) (header : Bytes) :
    BundleDocumentHeader where
  ordinal := ordinal
  sequence := sequence
  filename := match readField .filename header with | [v] => some (decode v) | _ => none
  documentType := match readField .documentType header with | [v] => some (decodeUpper v) | _ => none
  description := match readField .description header with | [v] => some (decode v) | _ => none
  declaredLength := declaredLength

section Selecting
variable (isSelected : BundleDocumentHeader → Bool) (duplicateCode : FailureCode)

def select (current : BundleDocumentHeader) (s : Extraction) : Extraction :=
  if isSelected current = true then
    let s := { s with matchingSequences := s.matchingSequences + 1 }
    if s.matchingSequences = 1 then { s with selected := some current, body := [], file := some [] }
    else s.fail duplicateCode
  else s

/-- An error is the state in which `int` raises. -/
def beginText (s : Extraction) : Except Extraction Extraction :=
  match parseSequence (readField .sequence s.header) with
  | none => .error s
  | some (sequenceFailure, sequence) =>
    let s := s.failWith sequenceFailure
    match parseLength (readField .length s.header) with
    | none => .error s
    | some (lengthFailure, declaredLength) =>
      let s := s.failWith lengthFailure
      let current := describe s.documentCount sequence declaredLength s.header
      let s := s.failIf (1 < (readField .filename s.header).length ∨
        1 < (readField .documentType s.header).length ∨
        1 < (readField .description s.header).length) .malformedDelimiters
      let s := { s with
        current := some current, currentIsSelected := isSelected current, currentBodySize := 0 }
      let s := s.select isSelected duplicateCode current
      .ok { s with header := [] }

def validateLength (declaredLength : Option Nat) (bodySize : Nat) (s : Extraction) : Extraction :=
  match declaredLength with
  | none => s
  | some n =>
    if bodySize < n then s.fail .lengthOutOfBounds
    else if n ≠ bodySize then s.fail .lengthMismatch
    else s

def closeDocument (s : Extraction) : Extraction :=
  let s := match s.state with
    | .header | .body => { s.fail .missingText with state := .outside }
    | .afterText => { s with state := .outside }
    | .outside => s.fail .malformedDelimiters
  let s := match s.current with
    | some current => s.validateLength current.declaredLength s.currentBodySize
    | none => s
  { s with current := none, currentIsSelected := false }

def handle (token : Token) (s : Extraction) : Except Extraction Extraction :=
  match token with
  | .documentOpen =>
    if s.state ≠ .outside then .ok (s.fail .malformedDelimiters)
    else .ok { s with
      state := .header, documentCount := s.documentCount + 1, header := [], current := none,
      currentIsSelected := false }
  | .documentClose => .ok s.closeDocument
  | .textOpen =>
    if s.state ≠ .header then .ok (s.fail .malformedDelimiters)
    else (s.beginText isSelected duplicateCode).map fun s => { s with state := .body }
  | .textClose =>
    if s.state ≠ .body then .ok (s.fail .malformedDelimiters)
    else .ok { s with state := .afterText }

end Selecting

def endInput (s : Extraction) : Extraction :=
  match s.state with
  | .header => s.fail .missingText
  | .body | .afterText => s.fail .malformedDelimiters
  | .outside => s

end Extraction

structure Reads (source : Bytes) where
  chunks : List Bytes
  flatten_eq : chunks.flatten = source
  ne_nil : ∀ c ∈ chunks, c ≠ []

def Reads.whole (source : Bytes) : Reads source where
  chunks := if source = [] then [] else [source]
  flatten_eq := by
    split_ifs with h
    · exact h.symm
    · exact List.flatten_singleton
  ne_nil c hc := by
    split_ifs at hc with h
    · cases hc
    · rw [List.mem_singleton.mp hc]
      exact h

structure Selection where
  destination : String
  isSelected : BundleDocumentHeader → Bool
  duplicateCode : FailureCode
  notFoundCode : FailureCode
  expectedFilename : Option String
  expectedDocumentType : Option String
  expectedSourceSha256 : Option String

inductive Outcome
  | extracted (e : BundleExtraction)
  | failed (f : BundleExtractionFailure)
  | raised
deriving DecidableEq

structure Result where
  outcome : Outcome
  file : Option Bytes
deriving DecidableEq

/-! `sha256` and `casefold` stand for the functions of the standard library. -/

section Calls
variable (sha256 : Bytes → String) (casefold : String → String)

/-- `expected is not None and (observed is None or the two differ in more than case)` -/
def mismatches (expected observed : Option String) : Bool :=
  expected.any fun e => observed.all fun o => casefold o ≠ casefold e

def checkSelected (selection : Selection) (s : Extraction) : Extraction :=
  let s := s.failIf (s.documentCount = 0) .notSgml
  let s := s.failIf (s.matchingSequences = 0 ∧ s.failure = none) selection.notFoundCode
  if 1 < s.matchingSequences then { s with failure := some selection.duplicateCode } else s

def checkExpected (selection : Selection) (sourceSha256 : String) (s : Extraction) : Extraction :=
  let s := match s.selected, s.failure with
    | some selected, none =>
      let s := s.failIf (mismatches casefold selection.expectedFilename selected.filename = true)
        .sourceMismatch
      s.failIf (mismatches casefold selection.expectedDocumentType selected.documentType = true)
        .sourceMismatch
    | _, _ => s
  s.failIf (mismatches casefold selection.expectedSourceSha256 (some sourceSha256) = true)
    .sourceMismatch

def conclude (selection : Selection) (source : Bytes) (s : Extraction) : Result :=
  let s := checkExpected casefold selection (sha256 source) (checkSelected selection s)
  match s.selected, s.failure with
  | some selected, none =>
    ⟨.extracted {
      destination := selection.destination
      selected := selected
      documentCount := s.documentCount
      sourceSize := source.length
      sourceSha256 := sha256 source
      bodySize := s.body.length
      bodySha256 := sha256 s.body }, s.file⟩
  | _, failure =>
    ⟨.failed ⟨failure.getD selection.notFoundCode, s.matchingSequences, sha256 source⟩, none⟩

/-- An exception of `int` passes through: the destination stays as it is. -/
def extractBundleSelection (selection : Selection) {source : Bytes} (reads : Reads source)
    (file : Option Bytes) : Result :=
  match delimiters.readChunks Extraction.consume
      (Extraction.handle selection.isSelected selection.duplicateCode) reads.chunks
      (.initial file) with
  | .error s => ⟨.raised, s.file⟩
  | .ok s => conclude sha256 casefold selection reads.chunks.flatten s.endInput

structure Request where
  sequence : Int
  destination : String
  expectedFilename : Option String
  expectedDocumentType : Option String
  expectedSourceSha256 : Option String

def Request.selection (request : Request) : Selection where
  destination := request.destination
  isSelected header := (header.sequence : Int) = request.sequence
  duplicateCode := .duplicateSequence
  notFoundCode := .sequenceNotFound
  expectedFilename := request.expectedFilename
  expectedDocumentType := request.expectedDocumentType
  expectedSourceSha256 := request.expectedSourceSha256

/-- `file` is what the destination holds before the call. -/
def extractBundleSequence (request : Request) {source : Bytes} (reads : Reads source)
    (file : Option Bytes) : Result :=
  if request.sequence ≤ 0 then ⟨.failed ⟨.invalidSequence, 0, ""⟩, file⟩
  else extractBundleSelection sha256 casefold request.selection reads file

end Calls
end EdgarSec.Document
