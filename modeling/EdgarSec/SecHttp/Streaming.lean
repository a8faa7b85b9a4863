import EdgarSec.Foundation.Unicode
import EdgarSec.SecHttp.FailureLedger

/-! `stream_to_file`: attempts, redirects, a bounded body written to a temporary file beside
the target, and the exits of an attempt with their cleanup. -/

namespace EdgarSec.SecHttp
open Foundation Lib

/-! ## What a call meets -/

/-- Exceptions: the timeouts and the other exceptions of `requests`, and all others. -/
inductive TransportError where
  | timeout (detail : String)
  | request (detail : String)
  | other (detail : String)
  deriving DecidableEq, Repr

structure Response where
  status : Int
  url : Option String := none
  location : Option String := none
  contentLength : Option String := none
  contentType : Option String := none
  contentEncoding : Option String := none
  chunks : List Bytes := []
  ending : Option TransportError := none
  deriving DecidableEq, Repr

inductive Reply where
  | raised (e : TransportError)
  | response (r : Response)
  deriving DecidableEq, Repr

/-- What the operations on the temporary file of one attempt do: whether the file can be made,
each write, flushing with `fsync`, the first `close`, and `os.replace` return. A file whose
`close` has raised is closed. -/
structure Disk where
  create : Bool := true
  write : Nat → Bool := fun _ => true
  sync : Bool := true
  close : Bool := true
  replace : Bool := true

abbrev Folder := Dict String Bytes

structure Surroundings where
  unicode : Unicode
  sha256 : Bytes → String
  urljoin : String → String → Except String String
  validateRedirect : String → Except String Unit
  reply : Nat → Reply
  disk : Nat → Disk
  waits : Nat → Bool
  recordReturns : Bool
  clearReturns : Bool
  mkstemp : Folder → String
  mkstemp_fresh : ∀ folder : Folder, folder.get? (mkstemp folder) = none

structure StreamCall where
  url : String
  target : String
  maxResponseBytes : Int

structure World where
  folder : Folder
  ledger : Option Ledger
  sent : List (Nat × String)

/-! ## Results -/

inductive StreamFailureCode where
  | httpNotFound
  | httpError
  | timeout
  | transportError
  | responseTooLarge
  | unsafeRedirect
  | emptyBody
  deriving DecidableEq, Repr

structure StreamFailure where
  code : StreamFailureCode
  retryable : Bool
  httpStatus : Option Int
  detail : String
  deriving DecidableEq, Repr

structure StreamedResponse where
  statusCode : Int
  requestedUrl : String
  finalUrl : String
  sha256 : String
  byteSize : Nat
  contentType : Option String
  contentEncoding : Option String
  path : String
  deriving DecidableEq, Repr

inductive StreamResult where
  | streamed (r : StreamedResponse)
  | failed (f : StreamFailure)
  | raised (detail : String)
  deriving DecidableEq, Repr

inductive Turn where
  | done (result : StreamResult)
  | again
  deriving DecidableEq, Repr

section Call
variable (s : Surroundings) (client : Client) (call : StreamCall)

/-- The local `failure`: recorded where there is a ledger, then returned. -/
def failure (w : World) (code : StreamFailureCode) (detail : String) (retryable : Bool)
    (statusCode : Option Int) (kind : String) (permanent : Bool) : World × StreamResult :=
  match w.ledger with
  | none => (w, .failed ⟨code, retryable, statusCode, detail⟩)
  | some ledger =>
    if s.recordReturns then
      ({ w with ledger := some (ledger.record s.sha256 call.url ⟨kind, detail, statusCode, permanent⟩) },
        .failed ⟨code, retryable, statusCode, detail⟩)
    else (w, .raised "sqlite3.OperationalError")

/-- `failure` as the end of an attempt. -/
def giveUp (w : World) (code : StreamFailureCode) (detail : String) (retryable : Bool)
    (statusCode : Option Int) (kind : String) (permanent : Bool) : World × Turn :=
  let result := failure s call w code detail retryable statusCode kind permanent
  (result.1, .done result.2)

/-! ## Requests -/

inductive Sent where
  | answered (r : Response) (currentUrl : String)
  | rejected (status : Int) (detail : String)
  | raised (e : TransportError)

def isRedirect (status : Int) : Bool := [301, 302, 303, 307, 308].contains status

/-- `getattr(response, "url", None) or current_url` -/
def responseUrl (r : Response) (currentUrl : String) : String :=
  match r.url with
  | none => currentUrl
  | some url => if url = "" then currentUrl else url

def redirectTo (r : Response) : Option String :=
  if isRedirect r.status then r.location.filter (· ≠ "") else none

inductive Hop where
  | settled (sent : Sent)
  | redirected (status : Int) (url : String)

def request (attempt : Nat) (w : World) (currentUrl : String) : World × Hop :=
  let asked := { w with sent := w.sent ++ [(attempt, currentUrl)] }
  match s.reply w.sent.length with
  | .raised e => (asked, .settled (.raised e))
  | .response r =>
    match redirectTo r with
    | none => (asked, .settled (.answered r currentUrl))
    | some location =>
      match s.urljoin (responseUrl r currentUrl) location with
      | .error detail => (asked, .settled (.raised (.other detail)))
      | .ok redirectUrl =>
        match s.validateRedirect redirectUrl with
        | .error detail => (asked, .settled (.rejected r.status ("redirect rejected: " ++ detail)))
        | .ok _ => (asked, .redirected r.status redirectUrl)

/-- `DEFAULT_REDIRECT_LIMIT` of `requests`, less the redirect that reaches it. -/
def followedRedirects : Nat := 29

def exchange (attempt : Nat) : Nat → World → String → World × Sent
  | left, w, currentUrl =>
    match request s attempt w currentUrl with
    | (w, .settled sent) => (w, sent)
    | (w, .redirected status redirectUrl) =>
      match left with
      | 0 => (w, .rejected status "redirect limit exceeded")
      | left + 1 => exchange attempt left w redirectUrl

/-! ## The body -/

inductive Received where
  | complete (content : Bytes)
  | tooLarge (content : Bytes)
  | failed (content : Bytes) (e : TransportError)
  deriving DecidableEq

def receive (write : Nat → Bool) (limit : Int) (ending : Option TransportError) :
    Nat → Bytes → List Bytes → Received
  | _, content, [] =>
    match ending with
    | none => .complete content
    | some e => .failed content e
  | written, content, chunk :: chunks =>
    if chunk = [] then receive write limit ending written content chunks
    else if limit < ((content ++ chunk).length : Int) then .tooLarge content
    else if write written then receive write limit ending (written + 1) (content ++ chunk) chunks
    else .failed content (.other "OSError")

def receiveAll (attempt : Nat) (r : Response) : Received :=
  receive (s.disk attempt).write call.maxResponseBytes r.ending 0 [] r.chunks

/-- `Content-Length` as a number; what is none counts as zero. -/
def declaredSize (r : Response) : Int :=
  match r.contentLength with
  | none => 0
  | some text =>
    if text = "" then 0
    else
      match s.unicode.int text.toList with
      | .ok n => n
      | .error _ => 0

/-! ## Exits -/

def World.unlink (w : World) (name : String) : World := { w with folder := w.folder.erase name }

def World.write (w : World) (name : String) (content : Bytes) : World :=
  { w with folder := w.folder.set name content }

/-- `finally` with the temporary file open: closed, then unlinked. When `close` raises, the
file stays. -/
def cleanUp (attempt : Nat) (w : World) (temporary : String) (turn : Turn) : World × Turn :=
  if (s.disk attempt).close then (w.unlink temporary, turn) else (w, .done (.raised "OSError"))

/-- The `except` clauses. -/
def handle (last : Bool) (w : World) : TransportError → World × Turn
  | .timeout detail =>
    if last then giveUp s call w .timeout detail true none "timeout" false else (w, .again)
  | .request detail =>
    if last then giveUp s call w .transportError detail true none "network" false else (w, .again)
  | .other detail => (w, .done (.raised detail))

def refuse (last : Bool) (w : World) (status : Int) : World × Turn :=
  if status = 404 then
    giveUp s call w .httpNotFound ("HTTP 404: " ++ call.url) false (some 404) "not_found" true
  else if classify status = .throttle ∨ classify status = .retry then
    if last then
      giveUp s call w .httpError ("HTTP " ++ toString status ++ ": retry budget exhausted") true
        (some status) "retryable_http" false
    else (w, .again)
  else
    giveUp s call w .httpError ("HTTP " ++ toString status ++ ": " ++ call.url) false (some status)
      "permanent" true

/-- The temporary file closed and unlinked, then the failure. A `close` that raises is made up
for by `finally`, which closes again and unlinks. -/
def discard (attempt : Nat) (w : World) (temporary : String) (code : StreamFailureCode)
    (detail : String) (status : Int) (kind : String) : World × Turn :=
  if (s.disk attempt).close then
    giveUp s call (w.unlink temporary) code detail false (some status) kind true
  else (w.unlink temporary, .done (.raised "OSError"))

def streamedResponse (r : Response) (currentUrl : String) (content : Bytes) : StreamedResponse where
  statusCode := r.status
  requestedUrl := call.url
  finalUrl := responseUrl r currentUrl
  sha256 := s.sha256 content
  byteSize := content.length
  contentType := r.contentType
  contentEncoding := r.contentEncoding
  path := call.target

def publish (attempt : Nat) (w : World) (temporary : String) (r : Response) (currentUrl : String)
    (content : Bytes) : World × Turn :=
  if (s.disk attempt).sync = false then cleanUp s attempt w temporary (.done (.raised "OSError"))
  else if (s.disk attempt).close = false ∨ (s.disk attempt).replace = false then
    (w.unlink temporary, .done (.raised "OSError"))
  else
    let placed := (w.unlink temporary).write call.target content
    match placed.ledger with
    | none => (placed, .done (.streamed (streamedResponse s call r currentUrl content)))
    | some ledger =>
      if s.clearReturns then
        ({ placed with ledger := some (ledger.clear s.sha256 call.url) },
          .done (.streamed (streamedResponse s call r currentUrl content)))
      else (placed, .done (.raised "sqlite3.OperationalError"))

def download (attempt : Nat) (last : Bool) (w : World) (r : Response) (currentUrl : String) :
    World × Turn :=
  if call.maxResponseBytes < declaredSize s r then
    giveUp s call w .responseTooLarge ("declared response size " ++ toString (declaredSize s r) ++
      " exceeds " ++ toString call.maxResponseBytes ++ " bytes") false (some r.status)
      "size_exceeded" true
  else if (s.disk attempt).create = false then (w, .done (.raised "OSError"))
  else
    let temporary := s.mkstemp w.folder
    match receiveAll s call attempt r with
    | .failed content e =>
      let handled := handle s call last (w.write temporary content) e
      cleanUp s attempt handled.1 temporary handled.2
    | .tooLarge content =>
      discard s call attempt (w.write temporary content) temporary .responseTooLarge
        ("response exceeded " ++ toString call.maxResponseBytes ++ " bytes") r.status "size_exceeded"
    | .complete content =>
      if content = [] then
        discard s call attempt (w.write temporary content) temporary .emptyBody
          "successful response had an empty body" r.status "empty_body"
      else publish s call attempt (w.write temporary content) temporary r currentUrl content

def attemptOnce (attempt : Nat) (last : Bool) (w : World) : World × Turn :=
  match exchange s attempt followedRedirects w call.url with
  | (w, .raised e) => handle s call last w e
  | (w, .rejected status detail) =>
    giveUp s call w .unsafeRedirect detail false (some status) "unsafe_redirect" true
  | (w, .answered r currentUrl) =>
    if r.status = 200 then download s call attempt last w r currentUrl
    else refuse s call last w r.status

def attempts : Nat → Nat → World → World × StreamResult
  | 0, _, w =>
    failure s call w .transportError "exhausted all retry attempts" true none "network" false
  | left + 1, attempt, w =>
    match attemptOnce s call attempt (left = 0) w with
    | (w, .done result) => (w, result)
    | (w, .again) => if s.waits attempt then attempts left (attempt + 1) w else (w, .raised "ValueError")

/-- `range(policy.max_retries + 1)` -/
def attemptBudget : Nat := (client.maxRetries + 1).toNat

def streamToFile (w : World) : World × StreamResult :=
  if call.maxResponseBytes ≤ 0 then
    (w, .raised "max_response_bytes must be a positive finite integer")
  else
    match preflightSkip s.sha256 client w.ledger call.url with
    | some skipped => (w, .failed ⟨.httpError, false, skipped.statusCode, skipped.text⟩)
    | none => attempts s call (attemptBudget client) 0 w

end Call

end EdgarSec.SecHttp
