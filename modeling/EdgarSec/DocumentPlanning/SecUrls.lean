import EdgarSec.Foundation.Urls

/-! SEC archive URLs: how they are built, parsed, resolved and validated. -/

namespace EdgarSec.DocumentPlanning
open Foundation Lib

section Identity
variable (u : Unicode)

/-! ## Accession numbers and CIKs -/

def hyphenatedClasses : List (Char → Bool) :=
  List.replicate 10 u.isDecimal ++ [(· == '-')] ++ List.replicate 2 u.isDecimal ++ [(· == '-')] ++
    List.replicate 6 u.isDecimal

def isHyphenatedAccession (value : Chars) : Bool := Unicode.fullmatch (hyphenatedClasses u) value

def withoutHyphens (text : Chars) : Chars := text.filter (· ≠ '-')

/-- `AccessionNumber(raw)` -/
def accessionNumber (raw : Chars) : Except String Chars :=
  if isHyphenatedAccession u (stripChars raw) then .ok (stripChars raw)
  else .error s!"invalid SEC accession number format: '{String.ofList raw}'"

/-- `AccessionNumber.from_any`, as the hyphenated text the object holds. -/
def accessionFromAny (raw : Chars) : Except String Chars :=
  let text := stripChars raw
  let digits := withoutHyphens text
  -- `$` also matches in front of a newline at the end
  let body := if digits.getLast? = some '\n' then digits.dropLast else digits
  if isHyphenatedAccession u text = false ∧ Unicode.fullmatch (List.replicate 18 u.isDecimal) body = true then
    accessionNumber u
      (digits.take 10 ++ ['-'] ++ (digits.drop 10).take 2 ++ ['-'] ++ digits.drop 12)
  else accessionNumber u text

/-- `Cik.from_raw` of a text. -/
def cikFromRaw (raw : Chars) : Except String Int := do
  let cleaned := (stripChars raw).dropWhile (· = '0')
  let value ← if cleaned = [] then .ok 0 else u.int cleaned
  ensure (0 ≤ value ∧ value ≤ 9999999999) s!"invalid CIK value: {value}"
  .ok value

def normalizeAccession (accession : Chars) : Option Chars :=
  let compact := withoutHyphens (stripChars accession)
  if u.allDigits compact ∧ 10 ≤ compact.length ∧ compact.length ≤ 18 then some compact else none

def canonicalAccession (accession : Chars) : Except String Chars :=
  match normalizeAccession u accession with
  | some canonical => .ok canonical
  | none => .error s!"accession must be canonicalizable: {pyRepr (String.ofList accession)}"

def accessionHyphenated (accession : Chars) : Except String Chars := do
  let canonical ← canonicalAccession u accession
  if canonical.length = 18 then
    .ok (canonical.take 10 ++ ['-'] ++ (canonical.drop 10).take 2 ++ ['-'] ++ canonical.drop 12)
  else .ok (canonical.take 10 ++ ['-'] ++ canonical.drop 10)

/-! ## Building and parsing -/

def secOrigin : Chars := "https://www.sec.gov".toList

def archiveRoot : Chars := "/Archives/edgar/data/".toList

/-- `archives_url` of a CIK that is a number. -/
def archivesUrlOf (cik : Int) (accession document : Chars) : Chars :=
  secOrigin ++ archiveRoot ++ (toString cik).toList ++ ['/'] ++ withoutHyphens accession ++ ['/'] ++ document

def archivesUrl (cik accession document : Chars) : Except String Chars := do
  .ok (archivesUrlOf (← u.int cik) accession document)

def fullSubmissionUrlFor (archiveCik accession : Chars) : Except String Chars := do
  let canonical ← canonicalAccession u accession
  let dashed ← accessionHyphenated u canonical
  let cik ← u.int archiveCik
  .ok (archivesUrlOf cik canonical (dashed ++ ".txt".toList))

structure ArchiveUrlParts where
  url : Chars
  archiveCik : Chars
  accession : Chars
  documentPath : Chars
  deriving DecidableEq

/-- The groups of `_ARCHIVE_PATH_RE`: neither kind of digit is a slash, so each group ends at one. -/
def archiveGroups (path : Chars) : Option (Chars × Chars × Chars) :=
  if archiveRoot.isPrefixOf path then
    let (cik, rest) := partition '/' (path.drop archiveRoot.length)
    let (accession, document) := partition '/' (rest.getD [])
    match document with
    | none => none
    | some document =>
      if cik ≠ [] ∧ cik.all u.isDecimal = true ∧ accession.all u.isDecimal = true ∧ 10 ≤ accession.length ∧
          accession.length ≤ 18 ∧ document ≠ [] ∧ '\n' ∉ document then some (cik, accession, document)
      else none
  else none

def archiveParts (path url : Chars) : Option ArchiveUrlParts :=
  match archiveGroups u path with
  | none => none
  | some (cik, accession, document) =>
    match normalizeAccession u accession with
    | none => none
    | some normalized =>
      if document.all (· = '/') then none else some ⟨url, cik, normalized, document⟩

def parseArchiveUrl (url : Chars) : Option ArchiveUrlParts :=
  let value := stripChars url
  if (secOrigin ++ archiveRoot).isPrefixOf value then archiveParts u (value.drop secOrigin.length) value
  else none

/-! ## Validation -/

def allowedSchemes : List Chars := ["https".toList]

def allowedHosts : List Chars := ["www.sec.gov".toList]

def hasUnsafeSegment (path : Chars) : Bool :=
  '%' ∈ path || '\\' ∈ path || decide (['/', '/'] <:+: path) ||
    (path.splitOn '/').any fun segment => segment = ['.'] || segment = ['.', '.']

/-- The part of `validate_archive_url` that looks at the whole text. -/
def checkUrlText (url : Chars) : Except String Unit := do
  ensure (url ≠ [] ∧ url = stripChars url) "archive URL must be a trimmed non-empty string"
  ensure ('?' ∉ url ∧ '#' ∉ url ∧ url.all (fun c => 32 < c.toNat && c.toNat ≠ 127) = true)
    "archive URL contains a query, fragment, or control character"

def checkOrigin (parts : SplitResult) : Except String Unit := do
  let port ← (parts.port u).mapError fun _ => "archive URL is malformed"
  ensure (u.folded parts.scheme ∈ allowedSchemes ∧
      (parts.hostname u).any (fun host => decide (u.folded host ∈ allowedHosts)) = true ∧
      parts.username = none ∧ parts.password = none ∧ port = none)
    "archive URL host or scheme is not allowed"
  ensure (hasUnsafeSegment parts.path = false) "archive URL path contains an unsafe segment"

def checkArchiveCik (archive : ArchiveUrlParts) : Option Chars → Except String Unit
  | none => .ok ()
  | some raw => do
    let expected ← (cikFromRaw u raw).mapError fun _ => "expected archive CIK is invalid"
    let found ← u.int archive.archiveCik
    ensure (found = expected) "archive URL has the wrong archive CIK"

def validateArchiveUrl (url accession : Chars) (expectedArchiveCik : Option Chars) :
    Except String ArchiveUrlParts := do
  checkUrlText url
  let parts ← (urlsplit u url).mapError fun _ => "archive URL is malformed"
  checkOrigin u parts
  let expected ← (accessionFromAny u accession).mapError fun _ => "expected accession is invalid"
  match archiveParts u parts.path url with
  | none => .error "archive URL is outside the expected accession"
  | some archive => do
    ensure (archive.accession = withoutHyphens expected) "archive URL is outside the expected accession"
    checkArchiveCik u archive expectedArchiveCik
    .ok archive

/-! ## Resolving references -/

def resolveReference (baseUrl reference : Chars) : Except String Chars := do
  let base ← urlsplit u baseUrl
  let href ← urlsplit u reference
  if href.scheme ≠ [] then .ok reference
  else if href.netloc ≠ [] then .ok (base.scheme ++ [':'] ++ reference)
  else
    let path :=
      if href.path.head? = some '/' then href.path
      else if href.path ≠ [] then ((rpartition '/' base.path).1.getD base.path) ++ ['/'] ++ href.path
      else base.path
    let query := if '?' ∈ reference then href.query else if href.path = [] then base.query else []
    .ok (urlunsplit ⟨base.scheme, base.netloc, path, query, href.fragment⟩)

def originOf (parts : SplitResult) : Chars × Chars := (u.folded parts.scheme, u.folded parts.netloc)

def wrappedDocument (parts base : SplitResult) : Option Chars :=
  if u.folded parts.scheme ≠ "https".toList ∨ u.folded parts.netloc ≠ "www.sec.gov".toList ∨
      originOf u parts ≠ originOf u base ∨ u.folded parts.path ≠ "/ix".toList ∨ parts.fragment ≠ [] then none
  else
    match parseQs parts.query with
    | some [(name, document)] => if name = "doc".toList then some document else none
    | _ => none

def resolveSecHref (baseUrl reference : Chars) : Except String Chars := do
  let resolved ← resolveReference u baseUrl reference
  let base ← urlsplit u baseUrl
  let parts ← urlsplit u resolved
  match wrappedDocument u parts base with
  | none => .ok resolved
  | some document => do
    let unwrapped ← resolveReference u (urlunsplit ⟨parts.scheme, parts.netloc, ['/'], [], []⟩) document
    let unwrappedParts ← urlsplit u unwrapped
    if originOf u unwrappedParts ≠ originOf u parts then .ok resolved else .ok unwrapped

def resolveArchiveHref (baseUrl reference accession : Chars) (expectedArchiveCik : Option Chars) :
    Except String ArchiveUrlParts := do
  let base ← validateArchiveUrl u baseUrl accession expectedArchiveCik
  let resolved ← resolveSecHref u base.url reference
  let source ← urlsplit u base.url
  let target ← urlsplit u resolved
  ensure (originOf u source = originOf u target) "archive href is outside the base origin"
  validateArchiveUrl u resolved accession expectedArchiveCik

end Identity
end EdgarSec.DocumentPlanning
