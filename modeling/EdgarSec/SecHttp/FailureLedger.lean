import EdgarSec.Foundation.Text
import EdgarSec.Lib.Dict

/-! The failure ledger of the response cache, and the preflight that reads it before a
request is made. -/

namespace EdgarSec.SecHttp
open Foundation Lib

/-! ## Retry policy -/

inductive StatusKind where
  | ok
  | throttle
  | retry
  | permanent
  deriving DecidableEq, Repr

def classify (statusCode : Int) : StatusKind :=
  if statusCode = 200 then .ok
  else if statusCode = 429 then .throttle
  else if statusCode = 408 ∨ statusCode = 425 then .retry
  else if 500 ≤ statusCode ∧ statusCode < 600 then .retry
  else .permanent

/-! ## The ledger -/

/-- A row of `url_failures`. -/
structure FailureEntry where
  url : String
  failedRuns : Nat
  lastKind : String
  lastStatus : Option Int
  lastDetail : String
  permanent : Bool
  deriving DecidableEq, Repr

/-- `url_failures`, by the digest of the URL. -/
abbrev Ledger := Dict String FailureEntry

structure FailureReport where
  kind : String
  detail : String
  statusCode : Option Int
  permanent : Bool
  deriving DecidableEq, Repr

namespace Ledger
variable (sha256 : Bytes → String)

def load (ledger : Ledger) (url : String) : Option FailureEntry :=
  ledger.get? (sha256Text sha256 url)

def entryOf (old : Option FailureEntry) (url : String) (report : FailureReport) : FailureEntry where
  url := (old.map (·.url)).getD url
  failedRuns := (old.map (·.failedRuns)).getD 0 + 1
  lastKind := report.kind
  lastStatus := report.statusCode
  lastDetail := String.ofList (report.detail.toList.take 500)
  permanent := report.permanent

def record (ledger : Ledger) (url : String) (report : FailureReport) : Ledger :=
  ledger.set (sha256Text sha256 url) (entryOf (ledger.load sha256 url) url report)

def clear (ledger : Ledger) (url : String) : Ledger := ledger.erase (sha256Text sha256 url)

end Ledger

/-! ## The preflight -/

structure Client where
  maxRetries : Int
  maxFailureAttempts : Int
  ignoreFailureHistory : Bool
  maxResponseBytes : Option Int := none

structure PermanentHttpError where
  url : String
  reason : String
  statusCode : Option Int
  deriving DecidableEq, Repr

def statusText : Option Int → String
  | none => "None"
  | some status => toString status

def PermanentHttpError.text (e : PermanentHttpError) : String :=
  "permanent error for " ++ e.url ++ ": " ++ e.reason ++ " (status=" ++ statusText e.statusCode ++ ")"

def skipReason (client : Client) (entry : FailureEntry) : Option String :=
  if entry.permanent then
    some ("permanent failure on a previous run (" ++ entry.lastKind ++ ": " ++ entry.lastDetail ++ ")")
  else if 0 < client.maxFailureAttempts ∧ client.maxFailureAttempts ≤ entry.failedRuns then
    some ("failed " ++ toString entry.failedRuns ++ " independent run(s), reaching budget of " ++
      toString client.maxFailureAttempts ++ ": " ++ entry.lastDetail)
  else none

/-- `_preflight_skip`; without a cache there is no ledger. -/
def preflightSkip (sha256 : Bytes → String) (client : Client) (ledger : Option Ledger) (url : String) :
    Option PermanentHttpError :=
  if client.ignoreFailureHistory then none
  else
    (ledger.bind fun l => l.load sha256 url).bind fun entry =>
      (skipReason client entry).map fun reason => ⟨url, reason, entry.lastStatus⟩

end EdgarSec.SecHttp
