import EdgarSec.Broker.Messages
import EdgarSec.DocumentPlanning.ArchiveLocators
import EdgarSec.FilingCatalog.PlanBundles
import EdgarSec.SecHttp.Streaming

/-! The broker's handler of staged fetches: what it checks before and after the client has
streamed a body to a file of the staging directory, and the clean-up on each exit. -/

namespace EdgarSec.Broker
open Foundation Lib DocumentPlanning SecHttp FilingCatalog

abbrev Fields := List (String × Json)

def field (fields : Fields) (name : String) (default : Json) : Json := (get fields name).getD default

/-! ## The scope of a request -/

structure Scope where
  cik : Int
  accession : Chars

namespace Scope
variable (scope : Scope)

def directory : Chars :=
  archiveRoot ++ (toString scope.cik).toList ++ ['/'] ++ withoutHyphens scope.accession ++ ['/']

/-- `Cik.to_10digit` -/
def paddedCik : Chars :=
  List.replicate (10 - (toString scope.cik).length) '0' ++ (toString scope.cik).toList

end Scope

def unquote (text : Chars) : Chars := unquoteFrom [] text

section Validation
variable (u : Unicode)

def cikOf : Option Json → Except String Int
  | some (.str raw) => cikFromRaw u raw.toList
  | some (.int value) => do
    ensure (0 ≤ value ∧ value ≤ 9999999999) s!"invalid CIK value: {value}"
    .ok value
  | _ => .error "invalid accession CIK"

def accessionOf : Option Json → Except String Chars
  | some (.str raw) => accessionFromAny u raw.toList
  | _ => .error "invalid accession number"

/-- The first half of `_accession_redirect_validator`. -/
def accessionScope (archiveCik accessionNumber : Option Json) : Except String Scope := do
  let cik ← cikOf u archiveCik
  let accession ← accessionOf u accessionNumber
  .ok ⟨cik, accession⟩

def Scope.validate (scope : Scope) (url : String) : Except String Unit := do
  let _ ← validateArchiveUrl u url.toList scope.accession (some scope.paddedCik)
  let parsed ← urlsplit u url.toList
  let path := unquote parsed.path
  ensure (scope.directory.isPrefixOf path ∧ path.drop scope.directory.length ≠ [] ∧
      (path.splitOn '/').all (fun part => part ≠ ['.'] && part ≠ ['.', '.']) = true)
    "unsafe redirect outside accession directory"

end Validation

/-! ## Answers -/

/-- Exceptions, as far as the `except` clauses tell them apart; those of the client with their
`status_code`. -/
inductive StreamError where
  | permanentHttpError (statusCode : Option Int)
  | responseTooLarge (statusCode : Option Int)
  | retryExhausted (statusCode : Option Int)
  | valueError
  | other

structure StagedReply where
  requestId : Json
  ok : Bool
  path : Option String
  sha256 : Option String
  size : Int
  requestedUrl : String
  finalUrl : Json
  statusCode : Json
  contentType : Json
  contentEncoding : Json
  errorCode : Option String
  retryable : Option Bool

def streamFailureCodes : List String := ["http_not_found", "http_error", "timeout", "transport_error",
  "response_too_large", "unsafe_redirect", "empty_body"]

/-- The local `failed`. -/
def failed (request : Fields) (code : String) (retryable : Bool) (statusCode finalUrl : Json) : StagedReply where
  requestId := (get request "request_id").getD .null
  ok := false
  path := none
  sha256 := none
  size := 0
  requestedUrl := match get request "url" with
    | some (.str url) => url
    | _ => ""
  finalUrl := finalUrl
  statusCode := statusCode
  contentType := .null
  contentEncoding := .null
  errorCode := some code
  retryable := some retryable

/-- The `except` clauses. -/
def rescued (request : Fields) : StreamError → StagedReply
  | .permanentHttpError status =>
    failed request (if status = some 404 then "http_not_found" else "http_error") false (ofOption .int status) .null
  | .responseTooLarge status => failed request "response_too_large" false (ofOption .int status) .null
  | .retryExhausted status => failed request "http_error" true (ofOption .int status) .null
  | .valueError => failed request "unsafe_redirect" false .null .null
  | .other => failed request "transport_error" true .null .null

/-! ## What the handler meets -/

inductive Prepared where
  | raised (e : StreamError)
  | notDirectory
  | directory (root : String) (folder : Folder)

/-- The surroundings of the handler; `defaultRoot` is where it stages without a root of the
request's own. -/
structure Site where
  unicode : Unicode
  defaultRoot : String
  prepare : String → Prepared
  mkstemp : Folder → Except StreamError String

/-- `stream_to_file`: the folder it leaves and the fields of what it returns, for any way the
client can behave. -/
abbrev StreamClient :=
  (String → Except String Unit) → SecHttp.StreamCall → Folder → Folder × Except StreamError Fields

structure Admitted where
  url : String
  limit : Int
  scope : Scope
  root : String

def allowedFields : List String := ["operation", "request_id", "url", "max_response_bytes",
  "accession_cik", "accession_number", "staging_root"]

def requestUrl (request : Fields) : Option String :=
  match get request "request_id", get request "url" with
  | some (.str requestId), some (.str url) => if requestId = "" then none else some url
  | _, _ => none

def requestLimit (request : Fields) : Option Int :=
  match get request "max_response_bytes" with
  | some (.int limit) => if 0 < limit then some limit else none
  | _ => none

section Handler
variable (site : Site) (client : StreamClient) (request : Fields)

def requestRoot : Option String :=
  match get request "staging_root" with
  | none => some site.defaultRoot
  | some .null => some site.defaultRoot
  | some (.str root) => if root.toList.head? = some '/' then some root else none
  | some _ => none

def requestScope (url : String) : Except String Scope := do
  let scope ← accessionScope site.unicode (get request "accession_cik") (get request "accession_number")
  scope.validate site.unicode url
  .ok scope

def checkRequest : Except String Admitted :=
  if (request.map Prod.fst).all (fun name => allowedFields.contains name) = false then .error "invalid_request"
  else
    match requestUrl request, requestLimit request with
    | some url, some limit =>
      match requestScope site request url with
      | .error _ => .error "invalid_scope"
      | .ok scope =>
        match requestRoot site request with
        | none => .error "invalid_path"
        | some root => .ok ⟨url, limit, scope, root⟩
    | _, _ => .error "invalid_request"

def childPath (root name : String) : String := if root = "/" then "/" ++ name else root ++ "/" ++ name

/-- A destination that `mkstemp` has made, with the directory around it. -/
structure Staged where
  root : String
  name : String
  folder : Folder

def Staged.path (staged : Staged) : String := childPath staged.root staged.name

def Staged.file (staged : Staged) : Option Bytes := staged.folder.get? staged.name

def Staged.unlink (staged : Staged) : Staged := { staged with folder := staged.folder.erase staged.name }

/-- `destination.is_file()` with the size that is reported. -/
def Staged.hasSize (staged : Staged) (size : Int) : Bool :=
  staged.file.any fun content => (content.length : Int) = size

def streamedReply (call : Admitted) (path digest finalUrl : String) (size statusCode : Int)
    (streamed : Fields) : StagedReply where
  requestId := (get request "request_id").getD .null
  ok := true
  path := some path
  sha256 := some digest
  size := size
  requestedUrl := call.url
  finalUrl := .str finalUrl
  statusCode := .int statusCode
  contentType := field streamed "content_type" .null
  contentEncoding := field streamed "content_encoding" .null
  errorCode := none
  retryable := none

def acceptStreamed (call : Admitted) (staged : Staged) (streamed : Fields) :
    Except StreamError (StagedReply × Bool) :=
  match field streamed "sha256" .null, field streamed "byte_size" .null,
      field streamed "status_code" .null, field streamed "final_url" .null with
  | .str digest, .int size, .int statusCode, .str finalUrl =>
    if isSha256HexDigest digest = true ∧ 0 < size ∧ size ≤ call.limit ∧ staged.hasSize size = true then
      match call.scope.validate site.unicode finalUrl with
      | .error _ => .error .valueError
      | .ok _ =>
        .ok (streamedReply request call staged.path digest finalUrl size statusCode streamed, true)
    else .ok (failed request "transport_error" false .null .null, false)
  | _, _, _, _ => .ok (failed request "transport_error" false .null .null, false)

def reportFailure (code : Json) (streamed : Fields) : Except StreamError (StagedReply × Bool) :=
  let reply (known : Bool) (code : String) :=
    failed request (if known then code else "transport_error") (field streamed "retryable" (.bool false)).truthy
      (field streamed "http_status" (field streamed "status_code" .null)) (field streamed "final_url" .null)
  match code with
  | .arr _ => .error .other
  | .obj _ => .error .other
  | .str code => .ok (reply (streamFailureCodes.contains code) code, false)
  | _ => .ok (reply false "", false)

def judge (call : Admitted) (staged : Staged) (streamed : Fields) : Except StreamError (StagedReply × Bool) :=
  match field streamed "code" .null with
  | .null => acceptStreamed site request call staged streamed
  | code => reportFailure request code streamed

/-- How the `try` is left: the destination, and the answer with the flag to keep the file. -/
structure Tried where
  staged : Option Staged
  answer : Except StreamError (StagedReply × Bool)

def tryStream (call : Admitted) : Tried :=
  match site.prepare call.root with
  | .raised e => ⟨none, .error e⟩
  | .notDirectory => ⟨none, .ok (failed request "invalid_path" false .null .null, false)⟩
  | .directory root folder =>
    match site.mkstemp folder with
    | .error e => ⟨none, .error e⟩
    | .ok name =>
      match client (call.scope.validate site.unicode) ⟨call.url, name, call.limit⟩ (folder.set name []) with
      | (folder, .error e) => ⟨some ⟨root, name, folder⟩, .error e⟩
      | (folder, .ok streamed) =>
        ⟨some ⟨root, name, folder⟩, judge site request call ⟨root, name, folder⟩ streamed⟩

structure Exit where
  reply : StagedReply
  staged : Option Staged
  active : Int

/-- The `except` and `finally` clauses. -/
def finish (active : Int) (tried : Tried) : Exit :=
  let (reply, keep) := match tried.answer with
    | .ok answer => answer
    | .error e => (rescued request e, false)
  ⟨reply, if keep then tried.staged else tried.staged.map Staged.unlink, active - 1⟩

/-- `_stream_file` with the count of active requests. -/
def streamFile (active : Int) : Exit :=
  match checkRequest site request with
  | .error code => ⟨failed request code false .null .null, none, active⟩
  | .ok call => finish request (active + 1) (tryStream site client request call)

end Handler

/-! ## The SEC client -/

def failureCode : StreamFailureCode → String
  | .httpNotFound => "http_not_found"
  | .httpError => "http_error"
  | .timeout => "timeout"
  | .transportError => "transport_error"
  | .responseTooLarge => "response_too_large"
  | .unsafeRedirect => "unsafe_redirect"
  | .emptyBody => "empty_body"

def streamedFields (r : StreamedResponse) : Fields := [("status_code", .int r.statusCode),
  ("requested_url", .str r.requestedUrl), ("final_url", .str r.finalUrl), ("sha256", .str r.sha256),
  ("byte_size", .int r.byteSize), ("content_type", ofOption .str r.contentType),
  ("content_encoding", ofOption .str r.contentEncoding), ("path", .str r.path)]

def failureFields (f : StreamFailure) : Fields := [("code", .str (failureCode f.code)),
  ("retryable", .bool f.retryable), ("http_status", ofOption .int f.httpStatus), ("detail", .str f.detail)]

/-- The client that owns the connection to the SEC, in any surroundings; `errorOf` tells the class
of an exception it raises. -/
def secHttpClient (s : Surroundings) (settings : SecHttp.Client) (ledger : Option Ledger)
    (errorOf : String → StreamError) : StreamClient := fun validate call folder =>
  match streamToFile { s with validateRedirect := validate } settings call ⟨folder, ledger, []⟩ with
  | (w, .streamed r) => (w.folder, .ok (streamedFields r))
  | (w, .failed f) => (w.folder, .ok (failureFields f))
  | (w, .raised detail) => (w.folder, .error (errorOf detail))

end EdgarSec.Broker
