import EdgarSec.DocumentPlanning.ArchiveLocators

/-! Profile requests resolved against catalog metadata and against inventory evidence: the target
rows of a document plan and their URLs. -/

namespace EdgarSec.DocumentPlanning
open Foundation Lib

/-! ## Forms -/

/-- `FORM_FAMILY_ALIASES`, and the families that have a processing profile. -/
structure FormRegistry where
  aliases : List (Chars × List Chars)
  processingFamilies : List Chars

def formFamilySuffixes : List String := ["_A", "_W", "_POS", "-POS", " POS", "MEF", "-W", "/A"]

def lazyIndexFormFamilies : List String :=
  ["10-K", "10-Q", "8-K", "20-F", "S-1", "S-3", "S-4", "S-8", "3", "4", "5", "144", "D", "13D", "13G"]

def removeSuffix (suffix text : Chars) : Chars :=
  if suffix.isSuffixOf text then text.take (text.length - suffix.length) else text

section Forms
variable (u : Unicode) (registry : FormRegistry)

/-- `_ALIAS_LOOKUP.get`; a later family takes an alias over. -/
def aliasLookup (form : Chars) : Option Chars :=
  (registry.aliases.reverse.find? fun (_, aliases) => (aliases.map u.uppered).contains form).map Prod.fst

def formFamily (form : Chars) : Chars :=
  let base := formFamilySuffixes.foldl (fun base suffix => removeSuffix suffix.toList base)
    (stripChars (u.uppered form))
  let joint := fun c => c = '_' || c = '-'
  let bare := (base.dropWhile joint).rdropWhile joint
  if bare = [] then form else bare

def resolveAlias (form : Chars) : Option Chars :=
  if form = [] then none
  else
    let text := u.uppered (stripChars form)
    match aliasLookup u registry text with
    | some family => some family
    | none =>
      let family := formFamily u text
      match aliasLookup u registry family with
      | some family => some family
      | none => if (registry.aliases.map Prod.fst).contains family then some family else none

/-- Whether `get_lazy_index_trigger` has a trigger. -/
def hasLazyIndexTrigger (form : Chars) : Bool :=
  let family := (resolveAlias u registry form).getD (u.uppered (stripChars form))
  form ≠ [] && registry.processingFamilies.contains family && lazyIndexFormFamilies.contains (String.ofList family)

/-- `" ".join(value.split())` -/
def joinedWords (value : Chars) : Chars := [' '].intercalate ((value.splitOnP isPySpace).filter (· ≠ []))

def normalizeForm (value : Chars) : Chars :=
  let normalized := u.uppered (joinedWords value)
  (resolveAlias u registry normalized).getD normalized

end Forms

/-! ## Requests and evidence -/

inductive Role
  | primary
  | exhibit
  | dataFile
  | graphic
  | package
  deriving DecidableEq

inductive DirectSelection
  | submittedPrimary
  | exactFormWithLazyIndex
  deriving DecidableEq

inductive AcquisitionOperation
  | raw
  | renderToTxt
  | renderToXml
  deriving DecidableEq

structure ProfileTarget where
  role : Role
  type : Chars
  optional : Bool
  requestId : String
  catalogDirectSelection : Option DirectSelection
  operations : Option (List AcquisitionOperation)

structure CatalogOccurrence where
  sourceCik : Chars
  primaryDocument : Option Chars
  documentPath : Option Chars
  archiveUrl : Option Chars

structure CatalogScopeAccession where
  accession : Chars
  form : Chars
  filingDate : Option Chars
  occurrences : List CatalogOccurrence
  reportDate : Option Chars

inductive Cell
  | null
  | bool (b : Bool)
  | int (n : Int)
  | other
  deriving DecidableEq

/-- `isinstance(value, int) and not isinstance(value, bool)` -/
def Cell.number : Cell → Option Int
  | .int n => some n
  | _ => none

structure EntryRow where
  entryId : Option Chars
  archiveUrl : Option Chars
  href : Option Chars
  filename : Option Chars
  tableKind : Option Chars
  documentType : Option Chars
  description : Option Chars
  sequence : Cell
  byteSize : Cell

structure AccessionRow where
  bundleUrl : Option Chars
  indexUrl : Option Chars

structure InventoryEvidenceRow where
  accession : Chars
  catalogForm : Chars
  catalogFilingDate : Chars
  indexed : Bool
  accessionRow : Option AccessionRow
  entryRow : Option EntryRow
  catalogReportDate : Option Chars
  vehicle : String

/-- `str(value or "").strip()` -/
def cellText (value : Option Chars) : Chars := stripChars (value.getD [])

/-! ## Candidates and rows -/

inductive RetrievalMode
  | directUrl
  | bundleScan
  | bundleSequence
  | constructedPackage
  | none
  deriving DecidableEq

inductive TargetStatus
  | matched
  | notFiled
  | requiredMissing
  | ambiguous
  | unresolved
  | constructedCandidate
  deriving DecidableEq

def TargetStatus.text : TargetStatus → String
  | .matched => "matched"
  | .notFiled => "not_filed"
  | .requiredMissing => "required_missing"
  | .ambiguous => "ambiguous"
  | .unresolved => "unresolved"
  | .constructedCandidate => "constructed_candidate"

inductive SourceOrigin
  | catalogDirect
  | inventoryIndex
  deriving DecidableEq

structure Candidate where
  entryId : Option Chars
  targetUrl : Option Chars
  retrievalMode : RetrievalMode
  sequence : Option Int
  byteSize : Option Int
  statusReason : Option String
  canonicalPath : Option Chars

def Candidate.nothing : Candidate := ⟨none, none, .none, none, none, none, none⟩

def Candidate.direct (url : Chars) : Candidate := ⟨none, some url, .directUrl, none, none, none, none⟩

structure TargetRow where
  targetId : String
  accession : Chars
  form : Chars
  filingDate : Chars
  reportDate : Option Chars
  requestId : String
  targetRole : Role
  targetType : Chars
  optional : Bool
  inventoryEntryId : Option Chars
  status : TargetStatus
  statusReason : Option String
  sourceOrigin : SourceOrigin
  retrievalMode : RetrievalMode
  targetUrl : Option Chars
  sequence : Option Int
  byteSize : Option Int
  availabilityEvidence : String
  catalogDirectSelection : Option DirectSelection
  canonicalPath : Option Chars
  requestedOperations : Option (List AcquisitionOperation)

section Matching
variable (u : Unicode)

/-! ## Document paths -/

def placeholderPrimaryFilenames : List Chars :=
  ["0001.txt".toList, "0001.htm".toList, "0000.txt".toList, "0000.htm".toList]

def completeSubmissionClasses : List (Char → Bool) :=
  hyphenatedClasses u ++ ".txt".toList.map fun c => (· == c)

def isPlaceholderPrimaryPath (documentPath : Chars) : Except String Bool := do
  if documentPath = [] then .ok false
  else
    let parts ← urlsplit u (stripChars documentPath)
    let path := parts.path
    if Unicode.fullmatch (completeSubmissionClasses u) (path.dropWhile (· = '/')) then .ok false
    else
      .ok (placeholderPrimaryFilenames.contains path ||
        (path.head? = some '/' && placeholderPrimaryFilenames.contains path.tail))

/-- `_NUMBERED_DOCUMENT_NAME`, with a number above zero. -/
def numberedDocumentPath (path : Chars) : Option Chars :=
  let number := path.take 4
  let suffix := path.drop 5
  if number.length = 4 ∧ number.all Char.isDigit = true ∧ (path.drop 4).head? = some '.' ∧ suffix ≠ [] ∧
      suffix.all Char.isAlphanum = true ∧ number ≠ "0000".toList then some path
  else none

def accessionNumberedDocumentPath (accession filename : Chars) : Except String Chars := do
  .ok ((← accessionFromAny u accession) ++ ['-'] ++ filename)

def hasAccessionNumberedLeaf (url accession filename : Chars) : Except String Bool := do
  let expected ← accessionNumberedDocumentPath u accession filename
  .ok ((parseArchiveUrl u url).any fun parsed => u.folded parsed.documentPath = u.folded expected)

/-! ## Validated URLs -/

def unsafeUrl (url accession : Chars) (error : String) : String :=
  if "outside the expected accession".toList <:+: error.toList then
    s!"SEC archive URL is outside accession {String.ofList accession}"
  else s!"unsafe SEC archive URL: {pyRepr (String.ofList url)}"

def validatedArchiveUrl (url accession : Chars) (baseUrl expectedArchiveCik : Option Chars) : Except String Chars :=
  ((match baseUrl with
    | some base => resolveArchiveHref u base url accession expectedArchiveCik
    | none => validateArchiveUrl u url accession expectedArchiveCik).map
      ArchiveUrlParts.url).mapError (unsafeUrl url accession)

def validatedBundleUrl (url accession : Chars) : Except String Chars := do
  let validated ← validatedArchiveUrl u url accession none none
  ensure ((parseArchiveUrl u validated).any (fun parsed => ".txt".toList.isSuffixOf parsed.documentPath) = true)
    s!"unsafe accession bundle URL for {String.ofList accession}"
  .ok validated

/-! ## Rows -/

section Rows
variable (sha256 : Bytes → String)

def chars (text : Chars) : Json := .str (String.ofList text)

def targetRow (planId : String) (accession form filingDate : Chars) (reportDate : Option Chars)
    (target : ProfileTarget) (candidate : Candidate) (status : TargetStatus) (statusReason : Option String)
    (sourceOrigin : SourceOrigin) (availability : String) : TargetRow where
  targetId := canonicalHash sha256 (.arr [.str planId, chars accession, .str target.requestId,
    (candidate.entryId.map chars).getD .null, .str status.text])
  accession := accession
  form := form
  filingDate := filingDate
  reportDate := reportDate
  requestId := target.requestId
  targetRole := target.role
  targetType := target.type
  optional := target.optional
  inventoryEntryId := candidate.entryId
  status := status
  statusReason := statusReason
  sourceOrigin := sourceOrigin
  retrievalMode := candidate.retrievalMode
  targetUrl := candidate.targetUrl
  sequence := candidate.sequence
  byteSize := candidate.byteSize
  availabilityEvidence := availability
  catalogDirectSelection := if sourceOrigin = .catalogDirect then target.catalogDirectSelection else none
  canonicalPath := candidate.canonicalPath.or
    ((candidate.targetUrl.bind (parseArchiveUrl u)).map ArchiveUrlParts.documentPath)
  requestedOperations := target.operations

/-! ## Catalog metadata -/

def filingYear (filingDate : Option Chars) : Option Nat :=
  let year := (cellText filingDate).take 4
  if year.length = 4 then (year.mapM u.decimalOf).map fun digits => digits.foldl (fun n d => 10 * n + d) 0
  else none

def constructedBundleUrl (identity : Chars) : List CatalogOccurrence → Except String Chars
  | [] => .error s!"catalog accession has no source CIK for bundle construction: {String.ofList identity}"
  | occurrence :: rest =>
    let cik := stripChars occurrence.sourceCik
    if cik = [] then constructedBundleUrl identity rest
    else do
      let url ← (fullSubmissionUrlFor u cik identity).mapError fun _ =>
        s!"catalog source CIK cannot build a bundle URL for {String.ofList identity}"
      validatedBundleUrl u url identity

def occurrenceUrl (identity expectedPath : Chars) (occurrence : CatalogOccurrence) : Except String Chars := do
  let observed := occurrence.archiveUrl.getD []
  if observed ≠ [] then
    let safe ← validatedArchiveUrl u observed identity none none
    ensure ((parseArchiveUrl u safe).any
        (fun parsed => decide (u.folded parsed.documentPath = u.folded expectedPath)) = true)
      s!"catalog primary URL disagrees with its path for {String.ofList identity}"
    .ok safe
  else
    let url ← archivesUrl u occurrence.sourceCik identity expectedPath
    validatedArchiveUrl u url identity none (some occurrence.sourceCik)

def onlyPath (candidates : List (Chars × Chars)) (conflict : String) : Except String (Option Chars) :=
  match (candidates.map Prod.fst).dedup with
  | [] => .ok none
  | [_] => .ok ((candidates.map Prod.snd).insertionSort (· ≤ ·)).head?
  | _ => .error conflict

def sameDocument (primary document : Chars) : Bool :=
  primary ≠ [] && (document = [] || u.folded document = u.folded primary)

def numberedPlaceholder (identity : Chars) (occurrence : CatalogOccurrence) :
    Except String (Option (Chars × Chars)) := do
  let primary := cellText occurrence.primaryDocument
  if sameDocument u primary (cellText occurrence.documentPath) = false then .ok none
  else
    match numberedDocumentPath primary with
    | none => .ok none
    | some numbered => do
      if ← isPlaceholderPrimaryPath u primary then
        let expectedPath ← accessionNumberedDocumentPath u identity numbered
        let url ← occurrenceUrl u identity expectedPath occurrence
        .ok (some (u.folded expectedPath, url))
      else .ok none

def catalogNumberedPlaceholderUrl (identity : Chars) (occurrences : List CatalogOccurrence) :
    Except String (Option Chars) := do
  let candidates ← occurrences.mapM (numberedPlaceholder u identity)
  onlyPath candidates.reduceOption s!"conflicting catalog placeholder paths for {String.ofList identity}"

def primaryCandidate (identity : Chars) (occurrence : CatalogOccurrence) :
    Except String (Option (Chars × Chars)) := do
  let primary := cellText occurrence.primaryDocument
  let document := cellText occurrence.documentPath
  if sameDocument u primary document = false then .ok none
  else
    let path := if document = [] then primary else document
    let placeholder ← isPlaceholderPrimaryPath u path
    match numberedDocumentPath path with
    | some numbered => do
      let expectedPath ← accessionNumberedDocumentPath u identity numbered
      primaryUrl path expectedPath
    | none => if placeholder then .ok none else primaryUrl path path
where
  primaryUrl (path expectedPath : Chars) : Except String (Option (Chars × Chars)) := do
    if occurrence.archiveUrl.getD [] = [] ∧ ((path.splitOn '/').contains ['.', '.'] = true ∨ '\\' ∈ path) then .ok none
    else
      let url ← occurrenceUrl u identity expectedPath occurrence
      .ok (some (u.folded expectedPath, url))

def catalogPrimaryUrl (identity : Chars) (occurrences : List CatalogOccurrence) : Except String (Option Chars) := do
  let candidates ← occurrences.mapM (primaryCandidate u identity)
  onlyPath candidates.reduceOption s!"conflicting catalog primary paths for {String.ofList identity}"

variable (registry : FormRegistry)

def noPrimaryCandidate (accession : CatalogScopeAccession) (identity : Chars) (target : ProfileTarget) :
    Except String Candidate := do
  match ← catalogNumberedPlaceholderUrl u identity accession.occurrences with
  | some url => .ok (.direct url)
  | none =>
    match filingYear u accession.filingDate with
    | none => .ok .nothing
    | some year =>
      if accession.occurrences = [] then .ok .nothing
      else if year < 2000 then
        let url ← constructedBundleUrl u identity accession.occurrences
        .ok ⟨none, some url, .bundleScan, none, none, some "sgml_bundle_scan_pre2000", none⟩
      else if target.catalogDirectSelection = some .exactFormWithLazyIndex ∧
          hasLazyIndexTrigger u registry accession.form = true then
        let url ← constructedBundleUrl u identity accession.occurrences
        .ok ⟨none, some url, .bundleSequence, some 1, none, some "sgml_bundle_sequence1_ge2000", none⟩
      else .ok .nothing

def catalogCandidate (accession : CatalogScopeAccession) (identity : Chars) (catalogUrl : Option Chars)
    (target : ProfileTarget) : Except String Candidate :=
  match catalogUrl with
  | some url => .ok (.direct url)
  | none => if target.role = .primary then noPrimaryCandidate u registry accession identity target else .ok .nothing

def catalogUrlFor (identity : Chars) (occurrences : List CatalogOccurrence) (targets : List ProfileTarget) :
    Except String (Option Chars) :=
  if targets = [] then .ok none else catalogPrimaryUrl u identity occurrences

def catalogOnlyRows (planId : String) (accession : CatalogScopeAccession) (targets : List ProfileTarget) :
    Except String (List TargetRow) := do
  let identity ← accessionFromAny u accession.accession
  let catalogUrl ← catalogUrlFor u identity accession.occurrences targets
  targets.mapM fun target => do
    let candidate ← catalogCandidate u registry accession identity catalogUrl target
    .ok (targetRow u sha256 planId identity accession.form (accession.filingDate.getD []) accession.reportDate
      target candidate (if candidate.targetUrl.isSome then .matched else .unresolved)
      (candidate.statusReason.or (if candidate.targetUrl.isSome then none else some "no_usable_primary_path"))
      .catalogDirect "catalog_metadata")

/-! ## Inventory evidence -/

def typeMatches (value requested : Chars) : Bool :=
  let normalized := u.uppered (stripChars value)
  let requested := u.uppered requested
  if requested.getLast? = some '*' then requested.dropLast.isPrefixOf normalized else normalized = requested

def matchesTarget (entry : EntryRow) (target : ProfileTarget) (form : Chars) : Bool :=
  let tableKind := String.ofList (entry.tableKind.getD [])
  let documentType := u.uppered (cellText entry.documentType)
  match target.role with
  | .primary =>
    tableKind = "document_format" && normalizeForm u registry documentType = normalizeForm u registry form
  | .exhibit => tableKind = "document_format" && typeMatches u documentType target.type
  | .dataFile =>
    tableKind = "data_file" &&
      if target.type = "extracted_xbrl_instance".toList then
        u.uppered (joinedWords (entry.description.getD [])) = "EXTRACTED XBRL INSTANCE DOCUMENT".toList &&
          documentType = "XML".toList
      else typeMatches u documentType target.type
  | .graphic => tableKind = "document_format" && documentType = "GRAPHIC".toList
  | .package => false

def isDirectoryOnlyArchiveLocator (locator accession : Chars) : Except String Bool :=
  match urlsplit u locator with
  | .error _ => .ok false
  | .ok parts =>
    match parts.port u with
    | .error _ => .ok false
    | .ok port =>
      let path := parts.path
      let segments := (path.splitOn '/').filter (· ≠ [])
      if parts.query ≠ [] ∨ parts.fragment ≠ [] ∨ parts.username ≠ none ∨ parts.password ≠ none ∨ port ≠ none ∨
          (parts.scheme ≠ [] ∧ u.folded parts.scheme ≠ "https".toList) ∨
          (parts.netloc ≠ [] ∧ parts.hostname u ≠ some "www.sec.gov".toList) ∨
          (parts.scheme = [] ∧ parts.netloc ≠ []) then .ok false
      else if path.head? ≠ some '/' ∨ hasUnsafeSegment path = true then .ok false
      else if segments.take 3 ≠ ["Archives".toList, "edgar".toList, "data".toList] then .ok false
      else
        match segments.drop 3 with
        | [cik] => .ok (u.allDigits cik)
        | [cik, directory] =>
          if u.allDigits cik then do .ok (directory = withoutHyphens (← accessionFromAny u accession))
          else .ok false
        | _ => .ok false

def numberedAccessionUrl (url filename accession : Chars) (baseUrl : Option Chars) : Except String (Option Chars) :=
  match numberedDocumentPath filename with
  | none => .ok none
  | some numbered =>
    if url = [] then .ok none
    else do
      let safe ← validatedArchiveUrl u url accession baseUrl none
      if ← hasAccessionNumberedLeaf u safe accession numbered then .ok (some safe) else .ok none

inductive Observed
  | missing
  | directory
  | mismatch
  | url (text : Chars)
  deriving DecidableEq

def Observed.urls : Observed → List Chars
  | .url text => [text]
  | _ => []

structure Locators where
  entryId : Chars
  archiveUrl : Chars
  href : Chars
  bundleUrl : Chars
  referenceBase : Chars
  filename : Chars

def Locators.of (entry : EntryRow) (row : Option AccessionRow) : Locators where
  entryId := entry.entryId.getD []
  archiveUrl := cellText entry.archiveUrl
  href := cellText entry.href
  bundleUrl := cellText (row.bind AccessionRow.bundleUrl)
  referenceBase :=
    if cellText (row.bind AccessionRow.indexUrl) = [] then cellText (row.bind AccessionRow.bundleUrl)
    else cellText (row.bind AccessionRow.indexUrl)
  filename := cellText entry.filename

/-- `reference_base or None` -/
def Locators.base (l : Locators) : Option Chars := if l.referenceBase = [] then none else some l.referenceBase

def isDirectoryHref (l : Locators) (accession observed : Chars) : Except String Bool :=
  if observed = l.href then isDirectoryOnlyArchiveLocator u observed accession else .ok false

def observeLocator (l : Locators) (accession observed : Chars) : Except String Observed := do
  if observed = [] then .ok .missing
  else
    if ← isDirectoryHref u l accession observed then
      ensure (l.archiveUrl = []) s!"inventory archive_url and href disagree for {String.ofList l.entryId}"
      .ok .directory
    else
      let parts ← urlsplit u observed
      ensure (parts.scheme ≠ [] ∨ l.referenceBase ≠ [])
        s!"relative inventory locator has no SEC URL base for {String.ofList accession}"
      let safe ← validatedArchiveUrl u observed accession l.base none
      match numberedDocumentPath l.filename with
      | none => .ok (.url safe)
      | some numbered =>
        if ← hasAccessionNumberedLeaf u safe accession numbered then .ok (.url safe) else .ok .mismatch

def positiveSequence (entry : EntryRow) : Option Int := entry.sequence.number.filter (1 ≤ ·)

def orNone (text : Chars) : Option Chars := if text = [] then none else some text

def placeholderCandidate (entry : EntryRow) (l : Locators) (accession : Chars) : Except String Candidate := do
  match ← numberedAccessionUrl u l.archiveUrl l.filename accession l.base with
  | some url => .ok ⟨some l.entryId, some url, .directUrl, none, entry.byteSize.number, none, none⟩
  | none =>
    match positiveSequence entry with
    | none =>
      .ok ⟨some l.entryId, none, .none, none, none, some "placeholder_primary_missing_positive_sequence", none⟩
    | some sequence =>
      if l.bundleUrl = [] then
        .ok ⟨some l.entryId, none, .none, none, none, some "placeholder_primary_missing_bundle_url", none⟩
      else
        let bundle ← validatedBundleUrl u l.bundleUrl accession
        .ok ⟨some l.entryId, some bundle, .bundleSequence, some sequence, entry.byteSize.number, none,
          orNone l.filename⟩

def bundleCandidate (entry : EntryRow) (l : Locators) (accession : Chars) (target : ProfileTarget) :
    Except String Candidate := do
  if target.role = .exhibit ∧ entry.sequence ≠ .null ∧ l.bundleUrl ≠ [] then
    let bundle ← validatedBundleUrl u l.bundleUrl accession
    match positiveSequence entry with
    | none => .error s!"invalid bundle sequence for {String.ofList l.entryId}"
    | some sequence =>
      .ok ⟨some l.entryId, some bundle, .bundleSequence, some sequence, entry.byteSize.number, none,
        orNone l.filename⟩
  else .ok ⟨some l.entryId, none, .none, none, none, some "no_usable_retrieval_locator", none⟩

def isPlaceholderPrimary (target : ProfileTarget) (filename : Chars) : Except String Bool :=
  if target.role = .primary then isPlaceholderPrimaryPath u filename else .ok false

def entryCandidate (entry : EntryRow) (row : Option AccessionRow) (accession : Chars) (target : ProfileTarget) :
    Except String Candidate := do
  let l := Locators.of entry row
  ensure (l.entryId ≠ []) s!"inventory entry lacks identity for {String.ofList accession}"
  if ← isPlaceholderPrimary u target l.filename then placeholderCandidate u entry l accession
  else
    let first ← observeLocator u l accession l.archiveUrl
    let second ← observeLocator u l accession l.href
    let mismatch := first = .mismatch ∨ second = .mismatch
    match first.urls ++ second.urls with
    | url :: others =>
      ensure ((∀ other ∈ others, other = url) ∧ ¬ mismatch)
        s!"inventory archive_url and href disagree for {String.ofList l.entryId}"
      .ok ⟨some l.entryId, some url, .directUrl, none, entry.byteSize.number, none, none⟩
    | [] =>
      ensure (¬ (l.archiveUrl ≠ [] ∨ (l.href ≠ [] ∧ second ≠ .directory)) ∨ mismatch)
        s!"unsafe inventory locator for {String.ofList l.entryId}"
      bundleCandidate u entry l accession target

def packageRow (planId : String) (evidence : InventoryEvidenceRow) (target : ProfileTarget) :
    Except String TargetRow := do
  let accession := evidence.accession
  let bundleUrl := cellText (evidence.accessionRow.bind AccessionRow.bundleUrl)
  let row := targetRow u sha256 planId accession evidence.catalogForm evidence.catalogFilingDate
    evidence.catalogReportDate target
  if bundleUrl = [] then
    .ok (row .nothing .unresolved (some "no_usable_bundle_url") .inventoryIndex "none")
  else
    let bundle ← validatedBundleUrl u bundleUrl accession
    let parsed ← urlsplit u bundle
    ensure (".txt".toList <:+ parsed.path) s!"inventory bundle URL is not a .txt filing: {String.ofList accession}"
    let url := urlunsplit ⟨parsed.scheme, parsed.netloc, packagePath parsed.path, [], []⟩
    .ok (row ⟨none, some url, .constructedPackage, none, none, none, none⟩ .constructedCandidate
      (some "constructed_not_verified") .inventoryIndex "constructed")

def entryStatus (ambiguous : Bool) (candidate : Candidate) : TargetStatus × Option String :=
  if ambiguous then (.ambiguous, candidate.statusReason)
  else if candidate.targetUrl = none then
    (.unresolved, candidate.statusReason.or (some "no_usable_retrieval_locator"))
  else (.matched, none)

def missingStatus (target : ProfileTarget) : TargetStatus := if target.optional then .notFiled else .requiredMissing

def inventoryTargetRows (planId : String) (first : InventoryEvidenceRow) (evidence : List InventoryEvidenceRow)
    (target : ProfileTarget) : Except String (List TargetRow) := do
  let row := targetRow u sha256 planId first.accession first.catalogForm first.catalogFilingDate
    first.catalogReportDate target
  if first.indexed = false then
    .ok [row .nothing .unresolved (some "accession_not_indexed") .inventoryIndex "none"]
  else if target.role = .package then do
    .ok [← packageRow u sha256 planId first target]
  else
    let candidates := ((evidence.filterMap InventoryEvidenceRow.entryRow).filter fun entry =>
      matchesTarget u registry entry target first.catalogForm).insertionSort fun a b =>
        a.entryId.getD [] ≤ b.entryId.getD []
    if candidates = [] then
      .ok [row .nothing (missingStatus target) (some "no_matching_entry")
        .inventoryIndex first.vehicle]
    else
      candidates.mapM fun entry => do
        let candidate ← entryCandidate u entry first.accessionRow first.accession target
        let (status, reason) := entryStatus (1 < candidates.length) candidate
        .ok (row candidate status reason .inventoryIndex first.vehicle)

def inventoryRows (planId : String) (evidence : List InventoryEvidenceRow) (targets : List ProfileTarget) :
    Except String (List TargetRow) :=
  match evidence with
  | [] => .error "list index out of range"
  | first :: _ => do .ok (← targets.mapM (inventoryTargetRows u sha256 registry planId first evidence)).flatten

end Rows
end Matching
end EdgarSec.DocumentPlanning
