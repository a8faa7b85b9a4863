import EdgarSec.Dag.Spec
import EdgarSec.Foundation.Text

/-! Worker results of an inventory run, and the rows of `outcomes.parquet` and
`entries.parquet` they become. -/

namespace EdgarSec.Inventory
open Foundation Lib Dag

/-! ## Tables -/

/-- A text or a whole number; a null is `none` in the row. -/
inductive Cell where
  | text (s : String)
  | int (n : Int)
  deriving Repr

namespace Cell

def toSum : Cell → String ⊕ₗ Int
  | text s => toLex (.inl s)
  | int n => toLex (.inr n)

theorem toSum_injective : Function.Injective toSum := by
  intro a b h
  cases a <;> cases b <;> simp_all [toSum]

instance : LinearOrder Cell := LinearOrder.lift' toSum toSum_injective

instance : LawfulBEq (Option Cell) := inferInstance

end Cell

def text (s : String) : Option Cell := some (.text s)

def number (n : Int) : Option Cell := some (.int n)

def entrySchema : Schema where
  names := ["entry_id", "accession", "table_kind", "row_ordinal", "sequence", "document_type",
    "document_label", "description", "filename", "href", "archive_url", "byte_size"]
  nodup := by decide

def outcomeSchema : Schema where
  names := ["accession", "status", "index_url", "page_sha256", "response_size", "entry_count",
    "xbrl_candidate_url", "bundle_url", "bundle_size", "diagnostics_json", "error_code",
    "error_detail", "vehicle", "source_url"]
  nodup := by decide

def outcomeAccession (row : Row Cell) : Option Cell := outcomeSchema.cell row "accession"

def entryAccession (row : Row Cell) : Option Cell := entrySchema.cell row "accession"

/-! ## Statuses -/

def statusParsed : String := "parsed"
def statusParsedEmpty : String := "parsed_empty"
def statusUnrecognized : String := "unrecognized"
def statusParseFailure : String := "parse_failure"
def statusFetchFailed : String := "fetch_failed"
def statusWorkerError : String := "worker_error"

def retryableStatuses : List (Option Cell) := [text statusFetchFailed, text statusWorkerError]

/-- `outcome["status"] in RETRYABLE_STATUSES` -/
def isRetryable (row : Row Cell) : Bool := outcomeSchema.cell row "status" ∈ retryableStatuses

/-! ## Worker results -/

inductive TableKind where
  | documentFormat
  | dataFile
  deriving DecidableEq, Repr

def TableKind.text : TableKind → String
  | documentFormat => "document_format"
  | dataFile => "data_file"

structure InventoryEntry where
  entryId : String
  accession : String
  tableKind : TableKind
  rowOrdinal : Int
  sequence : Option Int
  documentType : Option String
  documentLabel : Option String
  description : Option String
  filename : Option String
  href : Option String
  archiveUrl : Option String
  byteSize : Option Int
  deriving DecidableEq, Repr

inductive DiagnosticCode where
  | unknownTable
  | missingColumn
  | missingSequence
  | invalidSequence
  | duplicateSequence
  | outOfOrderSequence
  | duplicateFilename
  | invalidSize
  | unsafeHref
  | malformedHtml
  | malformedJson
  | malformedXml
  | malformedPackage
  | unsupportedEncoding
  deriving DecidableEq, Repr

def DiagnosticCode.text : DiagnosticCode → String
  | unknownTable => "unknown_table"
  | missingColumn => "missing_column"
  | missingSequence => "missing_sequence"
  | invalidSequence => "invalid_sequence"
  | duplicateSequence => "duplicate_sequence"
  | outOfOrderSequence => "out_of_order_sequence"
  | duplicateFilename => "duplicate_filename"
  | invalidSize => "invalid_size"
  | unsafeHref => "unsafe_href"
  | malformedHtml => "malformed_html"
  | malformedJson => "malformed_json"
  | malformedXml => "malformed_xml"
  | malformedPackage => "malformed_package"
  | unsupportedEncoding => "unsupported_encoding"

structure ParserDiagnostic where
  code : DiagnosticCode
  rowKey : Option (TableKind × Int)
  detail : String
  deriving DecidableEq, Repr

structure ParserDiagnostics where
  items : List ParserDiagnostic
  suppressedCount : Int
  deriving DecidableEq, Repr

inductive Vehicle where
  | index
  | summary
  | package
  deriving DecidableEq, Repr

def Vehicle.text : Vehicle → String
  | index => "index"
  | summary => "summary"
  | package => "package"

inductive WorkerResult where
  | parsedIndexPage (accession sourceUrl pageSha256 : String) (entries : List InventoryEntry)
      (bundleUrl : Option String) (bundleSize : Option Int) (xbrlCandidateUrl : Option String)
      (diagnostics : ParserDiagnostics)
  | unrecognizedIndexPage (accession sourceUrl pageSha256 : String) (diagnostics : ParserDiagnostics)
  | indexParseFailure (accession sourceUrl pageSha256 : String) (diagnostic : ParserDiagnostic)
  | enumeratedDocuments (accession sourceUrl : String) (vehicle : Vehicle) (pageSha256 : String)
      (entries : List InventoryEntry) (bundleUrl : Option String) (diagnostics : ParserDiagnostics)
  | unrecognizedEnumeration (accession sourceUrl : String) (vehicle : Vehicle) (pageSha256 : String)
      (diagnostics : ParserDiagnostics)
  | enumerationFailure (accession sourceUrl : String) (vehicle : Vehicle) (pageSha256 : String)
      (diagnostic : ParserDiagnostic)
  | indexFetchFailure (accession detail : String) (vehicle : Vehicle)
  | indexWorkerFailure (accession detail : String) (vehicle : Vehicle)

namespace WorkerResult

def accession : WorkerResult → String
  | parsedIndexPage accession .. => accession
  | unrecognizedIndexPage accession .. => accession
  | indexParseFailure accession .. => accession
  | enumeratedDocuments accession .. => accession
  | unrecognizedEnumeration accession .. => accession
  | enumerationFailure accession .. => accession
  | indexFetchFailure accession .. => accession
  | indexWorkerFailure accession .. => accession

def entries : WorkerResult → List InventoryEntry
  | parsedIndexPage _ _ _ entries _ _ _ _ => entries
  | enumeratedDocuments _ _ _ _ entries _ _ => entries
  | _ => []

end WorkerResult

structure TypedResult where
  result : WorkerResult
  own : ∀ e ∈ result.entries, e.accession = result.accession

/-! ## Rows -/

def diagnosticsJson (diagnostics : ParserDiagnostics) : String :=
  canonicalJson (.obj [
    ("items", .arr (diagnostics.items.map fun item => .obj [
      ("code", .str item.code.text),
      ("row_key", match item.rowKey with
        | some (kind, ordinal) => .arr [.str kind.text, .int ordinal]
        | none => .null),
      ("detail", .str item.detail)])),
    ("suppressed_count", .int diagnostics.suppressedCount)])

structure Outcome where
  accession : String
  status : String
  indexUrl : String
  pageSha256 : Option String
  responseSize : Option Int
  entryCount : Int
  xbrlCandidateUrl : Option String
  bundleUrl : Option String
  bundleSize : Option Int
  diagnosticsJson : String
  errorCode : Option String
  errorDetail : Option String
  vehicle : Option String
  sourceUrl : Option String
  deriving DecidableEq, Repr

/-- `tuple(outcome.get(field.name) for field in OUTCOME_SCHEMA)` -/
def Outcome.row (o : Outcome) : Row Cell :=
  [text o.accession, text o.status, text o.indexUrl, o.pageSha256.bind text,
    o.responseSize.bind number, number o.entryCount, o.xbrlCandidateUrl.bind text,
    o.bundleUrl.bind text, o.bundleSize.bind number, text o.diagnosticsJson, o.errorCode.bind text,
    o.errorDetail.bind text, o.vehicle.bind text, o.sourceUrl.bind text]

def emptyOutcome (accession indexUrl status : String) : Outcome where
  accession := accession
  status := status
  indexUrl := indexUrl
  pageSha256 := none
  responseSize := none
  entryCount := 0
  xbrlCandidateUrl := none
  bundleUrl := none
  bundleSize := none
  diagnosticsJson := ""
  errorCode := none
  errorDetail := none
  vehicle := none
  sourceUrl := none

def indexVehicle (sourceUrl : String) : String :=
  if "/index.json".toList.isSuffixOf sourceUrl.toList then "index_json" else "index"

def parsedStatus (entries : List InventoryEntry) : String :=
  if entries = [] then statusParsedEmpty else statusParsed

/-- `outcome_row`, as the journal calls it: without a response size. -/
def outcomeRow (result : WorkerResult) (indexUrl : String) : Outcome :=
  match result with
  | .parsedIndexPage accession sourceUrl pageSha256 entries bundleUrl bundleSize xbrlCandidateUrl
      diagnostics =>
    { emptyOutcome accession indexUrl (parsedStatus entries) with
      pageSha256 := pageSha256
      entryCount := entries.length
      xbrlCandidateUrl := xbrlCandidateUrl
      bundleUrl := bundleUrl
      bundleSize := bundleSize
      diagnosticsJson := diagnosticsJson diagnostics
      vehicle := indexVehicle sourceUrl
      sourceUrl := sourceUrl }
  | .enumeratedDocuments accession sourceUrl vehicle pageSha256 entries bundleUrl diagnostics =>
    { emptyOutcome accession indexUrl (parsedStatus entries) with
      pageSha256 := pageSha256
      entryCount := entries.length
      bundleUrl := bundleUrl
      diagnosticsJson := diagnosticsJson diagnostics
      vehicle := vehicle.text
      sourceUrl := sourceUrl }
  | .unrecognizedIndexPage accession sourceUrl pageSha256 diagnostics =>
    { emptyOutcome accession indexUrl statusUnrecognized with
      pageSha256 := pageSha256
      diagnosticsJson := diagnosticsJson diagnostics
      vehicle := indexVehicle sourceUrl
      sourceUrl := sourceUrl }
  | .unrecognizedEnumeration accession sourceUrl vehicle pageSha256 diagnostics =>
    { emptyOutcome accession indexUrl statusUnrecognized with
      pageSha256 := pageSha256
      diagnosticsJson := diagnosticsJson diagnostics
      vehicle := vehicle.text
      sourceUrl := sourceUrl }
  | .indexParseFailure accession sourceUrl pageSha256 diagnostic =>
    { emptyOutcome accession indexUrl statusParseFailure with
      pageSha256 := pageSha256
      diagnosticsJson := diagnosticsJson ⟨[diagnostic], 0⟩
      errorCode := diagnostic.code.text
      errorDetail := diagnostic.detail
      vehicle := indexVehicle sourceUrl
      sourceUrl := sourceUrl }
  | .enumerationFailure accession sourceUrl vehicle pageSha256 diagnostic =>
    { emptyOutcome accession indexUrl statusParseFailure with
      pageSha256 := pageSha256
      diagnosticsJson := diagnosticsJson ⟨[diagnostic], 0⟩
      errorCode := diagnostic.code.text
      errorDetail := diagnostic.detail
      vehicle := vehicle.text
      sourceUrl := sourceUrl }
  | .indexFetchFailure accession detail vehicle =>
    { emptyOutcome accession indexUrl statusFetchFailed with
      errorCode := some statusFetchFailed
      errorDetail := detail
      vehicle := vehicle.text }
  | .indexWorkerFailure accession detail vehicle =>
    { emptyOutcome accession indexUrl statusWorkerError with
      errorCode := some statusWorkerError
      errorDetail := detail
      vehicle := vehicle.text }

def entryValues (entry : InventoryEntry) : Row Cell :=
  [text entry.entryId, text entry.accession, text entry.tableKind.text, number entry.rowOrdinal,
    entry.sequence.bind number, entry.documentType.bind text, entry.documentLabel.bind text,
    entry.description.bind text, entry.filename.bind text, entry.href.bind text,
    entry.archiveUrl.bind text, entry.byteSize.bind number]

@[simp] theorem length_outcome_row (o : Outcome) : o.row.length = outcomeSchema.names.length := rfl

@[simp] theorem length_entryValues (entry : InventoryEntry) :
    (entryValues entry).length = entrySchema.names.length := rfl

@[simp] theorem outcomeAccession_row (o : Outcome) : outcomeAccession o.row = text o.accession := rfl

@[simp] theorem entryAccession_entryValues (entry : InventoryEntry) :
    entryAccession (entryValues entry) = text entry.accession := rfl

@[simp] theorem accession_outcomeRow (result : WorkerResult) (indexUrl : String) :
    (outcomeRow result indexUrl).accession = result.accession := by
  cases result <;> rfl

end EdgarSec.Inventory
