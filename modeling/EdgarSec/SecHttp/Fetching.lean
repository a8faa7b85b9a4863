import EdgarSec.Foundation.Unicode
import EdgarSec.SecHttp.FailureLedger

/-! `get_bytes` and the calls over it: the response cache, the attempts, and what each exit
writes to the cache and to its failure ledger. -/

namespace EdgarSec.SecHttp
open Foundation Lib

/-! ## The response cache -/

/-- A row of `url_responses`. What is stored compressed is read back as it was. -/
structure CachedResponse where
  url : String
  payload : Bytes
  payloadSha256 : String
  byteSize : Nat
  contentKind : String
  fetchedAt : String
  expiresAt : Option String
  deriving DecidableEq, Repr

structure Store where
  responses : Dict String CachedResponse
  failures : Ledger

def Store.empty : Store := ⟨.empty, .empty⟩

/-- `SqlCache.get`; expiry times are compared as texts. -/
def Store.get (sha256 : Bytes → String) (store : Store) (url now : String) : Option Bytes :=
  (store.responses.get? (sha256Text sha256 url)).bind fun row =>
    match row.expiresAt with
    | some expiresAt => if expiresAt ≤ now then none else some row.payload
    | none => some row.payload

/-! ## What a call meets -/

inductive Answer where
  | timeout (detail : String)
  | request (detail : String)
  | other (detail : String)
  | answered (status : Int) (retryAfter : Option String) (content : Bytes)
  deriving DecidableEq, Repr

structure FetchSurroundings where
  unicode : Unicode
  answer : Nat → Answer
  waits : Nat → Bool
  now : String
  expiresAt : Option String
  putReturns : Bool
  recordReturns : Bool
  clearReturns : Bool

structure Fetch where
  url : String
  contentKind : String
  forceRefresh : Bool
  deriving DecidableEq, Repr

structure FetchWorld where
  store : Option Store
  sent : Nat

structure RetryExhausted where
  url : String
  reason : String
  statusCode : Option Int
  deriving DecidableEq, Repr

inductive FetchResult where
  | content (payload : Bytes)
  | permanent (e : PermanentHttpError)
  | tooLarge (e : PermanentHttpError)
  | exhausted (e : RetryExhausted)
  | raised (detail : String)
  deriving DecidableEq, Repr

inductive FetchTurn where
  | done (result : FetchResult)
  | again
  deriving DecidableEq, Repr

section Call
variable (sha256 : Bytes → String) (s : FetchSurroundings) (client : Client) (fetch : Fetch)

/-! ## Exits -/

/-- `record_failure` where there is a cache, then the exception. -/
def recorded (w : FetchWorld) (report : FailureReport) (result : FetchResult) :
    FetchWorld × FetchResult :=
  match w.store with
  | none => (w, result)
  | some store =>
    if s.recordReturns then
      ({ w with store := some { store with
          failures := store.failures.record sha256 fetch.url report } }, result)
    else (w, .raised "sqlite3.OperationalError")

/-- `recorded` as the end of an attempt. -/
def ended (w : FetchWorld) (report : FailureReport) (result : FetchResult) :
    FetchWorld × FetchTurn :=
  let out := recorded sha256 s fetch w report result
  (out.1, .done out.2)

def retried (last : Bool) (w : FetchWorld) (report : FailureReport) (reason : String)
    (statusCode : Option Int) : FetchWorld × FetchTurn :=
  if last then
    ended sha256 s fetch w report (.exhausted ⟨fetch.url, reason, statusCode⟩)
  else (w, .again)

def cachedResponse (content : Bytes) : CachedResponse where
  url := fetch.url
  payload := content
  payloadSha256 := sha256 content
  byteSize := content.length
  contentKind := fetch.contentKind
  fetchedAt := s.now
  expiresAt := s.expiresAt

def accept (w : FetchWorld) (content : Bytes) : FetchWorld × FetchTurn :=
  match w.store with
  | none => (w, .done (.content content))
  | some store =>
    if s.putReturns = false then (w, .done (.raised "sqlite3.OperationalError"))
    else
      let responses := store.responses.set (sha256Text sha256 fetch.url)
        (cachedResponse sha256 s fetch content)
      if s.clearReturns then
        ({ w with store := some ⟨responses, store.failures.clear sha256 fetch.url⟩ },
          .done (.content content))
      else
        ({ w with store := some { store with responses := responses } },
          .done (.raised "sqlite3.OperationalError"))

def exceeded (content : Bytes) : Option Int :=
  client.maxResponseBytes.filter fun limit => limit < (content.length : Int)

/-- A `Retry-After` of digits that `float` does not read. -/
def unreadable (retryAfter : Option String) : Bool :=
  match retryAfter with
  | none => false
  | some text => s.unicode.allDigits text.toList && !text.toList.all s.unicode.isDecimal

def settle (attempt : Nat) (last : Bool) (w : FetchWorld) : Answer → FetchWorld × FetchTurn
  | .timeout detail =>
    retried sha256 s fetch last w ⟨"timeout", detail, none, false⟩
      ("timeout after " ++ toString (attempt + 1) ++ " attempts") none
  | .request detail =>
    retried sha256 s fetch last w ⟨"network", detail, none, false⟩ ("network error: " ++ detail) none
  | .other detail => (w, .done (.raised detail))
  | .answered status retryAfter content =>
    if status = 200 then
      match exceeded client content with
      | some limit =>
        ended sha256 s fetch w
          ⟨"size_exceeded", "response size " ++ toString content.length ++ " > " ++ toString limit,
            some 200, true⟩
          (.tooLarge ⟨fetch.url, "response exceeded " ++ toString limit ++ " bytes", some 200⟩)
      | none => accept sha256 s fetch w content
    else
      match classify status with
      | .throttle =>
        if unreadable s retryAfter then (w, .done (.raised "ValueError"))
        else
          retried sha256 s fetch last w ⟨"throttle", "HTTP 429 rate limit exceeded", some 429, false⟩
            "rate limit 429 retries exhausted" (some 429)
      | .retry =>
        retried sha256 s fetch last w
          ⟨"retryable_http", "HTTP " ++ toString status, some status, false⟩
          ("server error " ++ toString status) (some status)
      | .ok | .permanent =>
        ended sha256 s fetch w ⟨"permanent", "HTTP " ++ toString status, some status, true⟩
          (.permanent ⟨fetch.url, "HTTP " ++ toString status, some status⟩)

def fetchOnce (attempt : Nat) (last : Bool) (w : FetchWorld) : FetchWorld × FetchTurn :=
  settle sha256 s client fetch attempt last { w with sent := w.sent + 1 } (s.answer w.sent)

def fetchAttempts : Nat → Nat → FetchWorld → FetchWorld × FetchResult
  | 0, _, w => (w, .exhausted ⟨fetch.url, "exhausted all retry attempts", none⟩)
  | left + 1, attempt, w =>
    match fetchOnce sha256 s client fetch attempt (left = 0) w with
    | (w, .done result) => (w, result)
    | (w, .again) =>
      if s.waits attempt then fetchAttempts left (attempt + 1) w else (w, .raised "ValueError")

/-! ## The calls -/

def cachedPayload (store : Option Store) : Option Bytes :=
  if fetch.forceRefresh then none else store.bind fun st => st.get sha256 fetch.url s.now

def getBytes (w : FetchWorld) : FetchWorld × FetchResult :=
  match cachedPayload sha256 s fetch w.store with
  | some payload => (w, .content payload)
  | none =>
    match preflightSkip sha256 client (w.store.map (·.failures)) fetch.url with
    | some skipped => (w, .permanent skipped)
    | none =>
      fetchAttempts sha256 s client fetch (client.maxRetries + 1).toNat 0 w

/-- What `json.loads` makes of a payload. -/
inductive Parsed where
  | malformed (detail : String)
  | object
  | other
  | raised (detail : String)
  deriving DecidableEq, Repr

/-- `get_json` and `get_json_ex`, which parse what `get_bytes` returns. -/
def getJson (loads : Bytes → Parsed) (w : FetchWorld) : FetchWorld × FetchResult :=
  match getBytes sha256 s client fetch w with
  | (w, .content payload) =>
    match loads payload with
    | .malformed detail =>
      recorded sha256 s fetch w ⟨"bad_json", "malformed JSON: " ++ detail, some 200, true⟩
        (.permanent ⟨fetch.url, "invalid JSON response: " ++ detail, none⟩)
    | .other => (w, .permanent ⟨fetch.url, "expected JSON object at root", none⟩)
    | .object => (w, .content payload)
    | .raised detail => (w, .raised detail)
  | out => out

end Call

end EdgarSec.SecHttp
