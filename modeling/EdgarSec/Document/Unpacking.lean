import EdgarSec.Document.Submissions

/-! The in-memory reader of a submission: its blocks, their headers, and the two bodies that a
resolution keeps. -/

namespace EdgarSec.Document
open EdgarSec.Foundation EdgarSec.Lib

/-! ## Blocks -/

/-- The blocks that `<DOCUMENT>(.*?)</DOCUMENT>` finds, in any case. -/
def documentBlocks (raw : Bytes) : List Bytes := delimiters.captures .documentOpen .documentClose 0 raw

def isLineEnd (b : UInt8) : Bool := b = 13 || b = 10

/-- `strip(b"\r\n")` -/
def stripLineEnds (v : Bytes) : Bytes := (v.dropWhile isLineEnd).rdropWhile isLineEnd

/-- `_slice_body`: what the first `<TEXT>(.*?)</TEXT>` holds, or the whole block. -/
def sliceBody (block : Bytes) : Bytes :=
  match delimiters.captures .textOpen .textClose 0 block with
  | body :: _ => stripLineEnds body
  | [] => strip block

/-- `_check_document_delimiters`: the steps of its depth, in the order of their positions. The
patterns are those of capital letters. -/
def delimiterSteps (raw : Bytes) : List Int :=
  raw.tails.filterMap fun rest =>
    if Token.documentOpen.text.isPrefixOf rest then some 1
    else if Token.documentClose.text.isPrefixOf rest then some (-1)
    else none

def checkDepth (depth : Int) : List Int → Option String
  | [] => if depth ≠ 0 then some "unbalanced <DOCUMENT> delimiter" else none
  | delta :: rest =>
    if depth + delta < 0 then some "unbalanced </DOCUMENT> delimiter"
    else if 1 < depth + delta then some "nested <DOCUMENT> delimiter"
    else checkDepth (depth + delta) rest

def checkDocumentDelimiters (raw : Bytes) : Option String := checkDepth 0 (delimiterSteps raw)

/-! ## Header fields -/

/-- What `\s*([^\r\n<]+)` captures: behind blanks where something is there, and otherwise the last
blank that is not a line end. -/
def captureValue (rest : Bytes) : Option Bytes :=
  if capture rest ≠ [] then some (capture rest)
  else ((rest.takeWhile isAsciiSpace).reverse.find? fun b => !isLineEnd b).map fun b => [b]

/-- `^\s*<TAG>\s*([^\r\n<]+)` at the start of a line. -/
def lineMatch (name : Field) (line : Bytes) : Option Bytes :=
  let tagged := line.dropWhile isAsciiSpace
  if (name.tag.map asciiLower).isPrefixOf (tagged.map asciiLower) then captureValue (tagged.drop name.tag.length)
  else none

/-- The first match; `lineStart` says that a line starts here. -/
def searchField (name : Field) (lineStart : Bool) : Bytes → Option Bytes
  | [] => none
  | b :: rest =>
    match (if lineStart then lineMatch name (b :: rest) else none) with
    | some value => some value
    | none => searchField name (b = 10) rest

/-- `_clean_b_field` of the first match. -/
def blockField (name : Field) (block : Bytes) : Option Bytes :=
  ((searchField name true block).map strip).filter fun value => value ≠ []

def digitsValue (v : Bytes) : Option Nat :=
  let digits := v.filter fun b => b ≠ 95
  if (v.splitOn 95).all isDecimal && digits.length ≤ maxStrDigits then some (decimalValue digits) else none

/-- `int` of a latin-1 text that is stripped already; nothing where it raises `ValueError`. -/
def intValue (v : Bytes) : Option Int :=
  match v with
  | 43 :: digits => (digitsValue digits).map Int.ofNat
  | 45 :: digits => (digitsValue digits).map fun n => -(n : Int)
  | digits => (digitsValue digits).map Int.ofNat

structure SgmlDocumentHeader where
  documentPath : Option String
  sequence : Option Int
  docType : Option String
  description : Option String
  deriving DecidableEq

/-- A header as `_parse_document_headers` reads it from its block. -/
def parseHeader (block : Bytes) : SgmlDocumentHeader where
  documentPath := (blockField .filename block).map decode
  sequence := (blockField .sequence block).bind intValue
  docType := (blockField .documentType block).map decodeUpper
  description := (blockField .description block).map decode

/-! ## The scan -/

structure ResolvedDocument where
  header : SgmlDocumentHeader
  payload : Bytes

structure FilingResolutionScan where
  documents : List SgmlDocumentHeader
  requested : Option ResolvedDocument
  primary : Option ResolvedDocument
  requestedMatchCount : Nat
  primarySequenceTie : Bool
  primaryInvalidSequence : Bool
  scanError : Option String

def resolveBlock (block : Bytes) : ResolvedDocument := ⟨parseHeader block, sliceBody block⟩

def validSequence (header : SgmlDocumentHeader) : Option Int := header.sequence.filter fun n => 0 < n

section Scan
variable (lower upper stripText : String → String)

def scanFilingBundle (raw : Bytes) (requestedPath : String) (acceptedTypes : List String) : FilingResolutionScan :=
  let blocks := documentBlocks raw
  let requestedBase := lower (stripText requestedPath)
  let matched := blocks.filter fun block =>
    lower (stripText ((parseHeader block).documentPath.getD "")) = requestedBase
  let accepted := acceptedTypes.map fun t => upper (stripText t)
  let matching := blocks.filter fun block =>
    (parseHeader block).docType.any fun t => t ≠ "" && upper t ∈ accepted
  let sequences := matching.filterMap fun block => validSequence (parseHeader block)
  let best := matching.filter fun block =>
    (validSequence (parseHeader block)).any fun n => sequences.all fun m => n ≤ m
  {
    documents := blocks.map parseHeader
    requested := match matched with | [block] => some (resolveBlock block) | _ => none
    primary := match best with | [block] => some (resolveBlock block) | _ => none
    requestedMatchCount := matched.length
    primarySequenceTie := decide (1 < best.length)
    primaryInvalidSequence := matching.any fun block => (validSequence (parseHeader block)).isNone
    scanError := checkDocumentDelimiters raw
  }

end Scan
end EdgarSec.Document
