import EdgarSec.Foundation.Unicode
import EdgarSec.Lib.Dict

/-! `_iter_accessions`: the rows of the catalog target parts, in the order of the database, grouped by
accession as they come. -/

namespace EdgarSec.DocumentPlanning.CatalogScope
open Foundation Lib

structure CatalogPart where
  path : String
  relativePath : String
  form : Chars
  rows : Nat
  sha256 : String

structure ScopeRow where
  filename : String
  occurrenceId : Option Chars
  documentLocatorKey : Option Chars
  sourceCik : Option Chars
  accession : Option Chars
  form : Option Chars
  filingDate : Option Chars
  reportDate : Option Chars
  primaryDocument : Option Chars
  documentPath : Option Chars
  archiveUrl : Option Chars
  documentPathSource : Option Chars
  reportedSize : Option Int
  isXbrl : Option Bool
  isInlineXbrl : Option Bool
  isXbrlNumeric : Option Bool
  deriving DecidableEq

structure CatalogOccurrence where
  occurrenceId : Chars
  documentLocatorKey : Chars
  sourceCik : Chars
  primaryDocument : Option Chars
  documentPath : Option Chars
  archiveUrl : Option Chars
  documentPathSource : Option Chars
  reportedSize : Option Int
  isXbrl : Option Bool
  isInlineXbrl : Option Bool
  isXbrlNumeric : Option Bool
  deriving DecidableEq

structure CatalogScopeAccession where
  accession : Chars
  form : Chars
  filingDate : Option Chars
  occurrences : List CatalogOccurrence
  reportDate : Option Chars

structure TargetFiles where
  digest : String → Option String
  rows : String → List ScopeRow

/-! ## Rows -/

/-- `replace(accession, '-', '')`, the key of the database. -/
def sortKey (row : ScopeRow) : Option Chars := row.accession.map fun accession => accession.filter (· ≠ '-')

/-- `str(raw or "").replace("-", "").strip()`, which neighbours are compared by. -/
def normalized (row : ScopeRow) : Chars := stripChars ((row.accession.getD []).filter (· ≠ '-'))

/-- `str(value or "").strip()` -/
def stripped (value : Option Chars) : Chars := stripChars (value.getD [])

/-- `... or None` -/
def strippedDate (value : Option Chars) : Option Chars := if stripped value = [] then none else some (stripped value)

/-- `_ACCESSION_RE` -/
def isAccession (text : Chars) : Bool := decide (text.length = 18) && text.all Char.isDigit

/-- `_occurrence` -/
def occurrenceOf (row : ScopeRow) : Except String CatalogOccurrence :=
  match row.occurrenceId, row.documentLocatorKey, row.sourceCik with
  | some (c :: id), some (d :: locator), some (e :: cik) => .ok {
      occurrenceId := c :: id
      documentLocatorKey := d :: locator
      sourceCik := e :: cik
      primaryDocument := row.primaryDocument
      documentPath := row.documentPath
      archiveUrl := row.archiveUrl
      documentPathSource := row.documentPathSource
      reportedSize := row.reportedSize
      isXbrl := row.isXbrl
      isInlineXbrl := row.isInlineXbrl
      isXbrlNumeric := row.isXbrlNumeric }
  | _, _, _ => .error "catalog occurrence is missing identity metadata"

def partForm (parts : List CatalogPart) (filename : String) : Option Chars :=
  (parts.reverse.find? fun part => part.path = filename).map CatalogPart.form

def checkRow (parts : List CatalogPart) (row : ScopeRow) : Except String Unit :=
  if partForm parts row.filename ≠ row.form then .error "catalog row form does not match its target part"
  else if !isAccession (normalized row) then .error s!"invalid catalog accession: {pyReprOption (row.accession.map String.ofList)}"
  else if stripped row.form = [] then .error s!"catalog accession has no form: {String.ofList (normalized row)}"
  else .ok ()

/-! ## The loop -/

structure Group where
  accession : Chars
  form : Chars
  filingDate : Option Chars
  reportDate : Option Chars
  occurrences : Dict Chars CatalogOccurrence

def Group.finish (group : Group) : CatalogScopeAccession where
  accession := group.accession
  form := group.form
  filingDate := group.filingDate
  occurrences := (group.occurrences.items.map Prod.snd).insertionSort fun a b => a.occurrenceId ≤ b.occurrenceId
  reportDate := group.reportDate

structure LoopState where
  yielded : List CatalogScopeAccession
  current : Option Group

def LoopState.finish (state : LoopState) : List CatalogScopeAccession := state.yielded ++ (state.current.map Group.finish).toList

def clash (a b : Option Chars) : Bool := a.isSome && b.isSome && a != b

def addRow (group : Group) (row : ScopeRow) : Except String Group := do
  let filingDate := strippedDate row.filingDate
  let reportDate := strippedDate row.reportDate
  if group.form ≠ stripped row.form then throw s!"conflicting catalog forms for accession {String.ofList group.accession}"
  if clash group.filingDate filingDate then throw s!"conflicting catalog filing dates for accession {String.ofList group.accession}"
  if clash group.reportDate reportDate then throw s!"conflicting catalog report dates for accession {String.ofList group.accession}"
  let occurrence ← occurrenceOf row
  match group.occurrences.get? occurrence.occurrenceId with
  | some previous =>
    if previous ≠ occurrence then throw s!"conflicting locator metadata for occurrence {String.ofList occurrence.occurrenceId}"
  | none => pure ()
  return { group with
    filingDate := group.filingDate.or filingDate
    reportDate := group.reportDate.or reportDate
    occurrences := group.occurrences.set occurrence.occurrenceId occurrence }

def newGroup (row : ScopeRow) : Group where
  accession := normalized row
  form := stripped row.form
  filingDate := strippedDate row.filingDate
  reportDate := strippedDate row.reportDate
  occurrences := Dict.empty

def takeRow (parts : List CatalogPart) (state : LoopState) (row : ScopeRow) : Except String LoopState := do
  checkRow parts row
  match state.current with
  | none => return ⟨state.yielded, some (← addRow (newGroup row) row)⟩
  | some group =>
    if group.accession ≠ normalized row then
      return ⟨state.yielded ++ [group.finish], some (← addRow (newGroup row) row)⟩
    else return ⟨state.yielded, some (← addRow group row)⟩

/-- The rows for each form: `counts`, with nothing for the forms of the parts without a row. -/
def countForms (parts : List CatalogPart) (rows : List ScopeRow) : Dict Chars Nat :=
  rows.foldl (fun counts row => counts.set (stripped row.form) ((counts.get? (stripped row.form)).getD 0 + 1))
    (parts.foldl (fun counts part => counts.set part.form 0) Dict.empty)

def declaredCounts (parts : List CatalogPart) : Dict Chars Nat :=
  parts.foldl (fun counts part => counts.set part.form ((counts.get? part.form).getD 0 + part.rows)) Dict.empty

def sameEntries (d e : Dict Chars Nat) : Bool :=
  d.items.all (fun p => e.get? p.1 = some p.2) && e.items.all (fun p => d.get? p.1 = some p.2)

/-- `iter_accessions`, with the batches as the reader of the database delivers them. -/
def iterAccessions (files : TargetFiles) (parts : List CatalogPart) (batchSize : Int) (batches : List (List ScopeRow)) :
    Except String (List CatalogScopeAccession) := do
  if batchSize < 1 ∨ 65536 < batchSize then throw "batch_size must be between 1 and 65536"
  match parts.find? fun part => files.digest part.path ≠ some part.sha256 with
  | some part => throw s!"catalog target part changed after pinning: {part.relativePath}"
  | none =>
    if parts = [] then return []
    let state ← batches.foldlM (fun state batch => batch.foldlM (takeRow parts) state) ⟨[], none⟩
    if !sameEntries (countForms parts batches.flatten) (declaredCounts parts) then
      throw "streamed catalog rows do not agree with pinned part counts"
    return state.finish

/-! ## The order of the database -/

def keyLe : Option Chars → Option Chars → Prop
  | _, none => True
  | none, some _ => False
  | some a, some b => a ≤ b

/-- `ORDER BY replace(accession, '-', ''), occurrence_id` -/
def rowLe (r s : ScopeRow) : Prop := keyLe (sortKey r) (sortKey s) ∧ (sortKey r = sortKey s → keyLe r.occurrenceId s.occurrenceId)

def scopeRows (files : TargetFiles) (parts : List CatalogPart) : List ScopeRow :=
  parts.flatMap fun part => (files.rows part.path).map fun row => { row with filename := part.path }

/-- The batches hold the rows of the parts in the order of the database. -/
def Delivers (files : TargetFiles) (parts : List CatalogPart) (batches : List (List ScopeRow)) : Prop :=
  batches.flatten.Perm (scopeRows files parts) ∧ batches.flatten.Pairwise rowLe

end EdgarSec.DocumentPlanning.CatalogScope
