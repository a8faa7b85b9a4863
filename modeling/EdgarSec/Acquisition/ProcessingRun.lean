import EdgarSec.Acquisition.OperationProcessing

/-! Processing runs (`processing/run.py`): the attempts they record on the operations of an
acquired target, the result manifest they leave, and the retry of failed operations. -/

namespace EdgarSec.Acquisition.Processing
open Foundation Lib FilingCatalog

inductive ReportedStatus where
  | notRequested
  | notSelected
  | unsupported
  | blocked
  | available
  | pending
  | failed
  deriving DecidableEq, Repr

def operationStatus (state : OperationState) : ReportedStatus :=
  match state.status with
  | .notRequested => .notRequested
  | .notSelected => .notSelected
  | .blocked => .blocked
  | .unsupported => .unsupported
  | .succeeded => .available
  | .pending => .pending
  | .failed =>
    let errorCode := (state.errorCode.getD "").toList
    if "blocked:".toList <+: errorCode then .blocked
    else if "unsupported:".toList <+: errorCode then .unsupported
    else .failed

def eligible (state : OperationState) (retryFailures : Bool) : Bool :=
  state.status = .pending || (retryFailures && state.status = .failed && state.retryable)

/-- An acquired target with its rows in the run database, its result manifest and whether
its body has a consumption receipt. -/
structure TargetRun where
  target : AcquiredTarget
  states : List OperationState
  manifest : Option ResultManifest
  receipt : Bool

structure TargetRun.Ready (run : TargetRun) : Prop where
  states : run.states = run.target.rows.map readyState
  manifest : run.manifest = none
  receipt : run.receipt = false

def TargetRun.stateOf (run : TargetRun) (operationId : String) : Option OperationState :=
  run.states.find? (·.operationId = operationId)

inductive ProcessingFailure where
  | integration (message : String)
  | processing (message : String)

section
variable (sha256 : Bytes → String)

def reusedIds (run : TargetRun) (retryFailures : Bool) : List String :=
  operationIds (run.target.operations.filter fun operation =>
    operation.requested && (run.stateOf operation.operationId).any fun state =>
      (state.status = .succeeded || state.status = .failed) && !eligible state retryFailures)

def retriedIds (run : TargetRun) (retryFailures : Bool) : List String :=
  operationIds (run.target.operations.filter fun operation =>
    operation.requested && (run.stateOf operation.operationId).any (eligible · retryFailures))

/-- `_process_target` -/
def processOperations (env : ProcessingEnvironment) (run : TargetRun)
    (priorResult : Option ResultManifest) (retryFailures : Bool) :
    Except ProcessingFailure (List OperationResult × Bool) :=
  let reused := reusedIds run retryFailures
  if reused = [] then
    (processTarget sha256 run.target env run.receipt none none).mapError .processing
  else match priorResult with
  | none => .error (.integration "completed operation state has no validated result manifest")
  | some manifest =>
    (processTarget sha256 run.target env run.receipt (some (priorResults manifest reused))
      (some (retriedIds run retryFailures))).mapError .processing

/-! ## Attempts -/

structure AttemptFields where
  status : ResultStatus
  errorCode : Option String
  retryable : Bool

/-- The branches of `_target_result_attempts` on a result. -/
def attemptFields (outcome : OperationResult) : Except String AttemptFields :=
  let code := (outcome.diagnostics.head?.map (·.code)).getD outcome.status.text
  match outcome.status with
  | .available => pure ⟨.available, none, false⟩
  | .unsupported => pure ⟨.unsupported, some code, false⟩
  | .blocked => pure ⟨.blocked, some code, false⟩
  | .failed => pure ⟨.failed, some code, "handler_failed:".toList <+: code.toList⟩
  | .notRequested => throw "requested operation did not reach a terminal status"

/-- What the exception branch of `process_acquired_target` records. -/
def processingFailed : AttemptFields := ⟨.failed, some "target_processing_failed", false⟩

def AttemptFields.storedCode (fields : AttemptFields) : Option String :=
  if fields.status = .available then none
  else
    let code := fields.errorCode.getD ""
    some (fields.status.text ++ ":" ++ if code = "" then fields.status.text else code)

def attemptOn (env : ProcessingEnvironment) (state : OperationState) (fields : AttemptFields) :
    OperationAttempt where
  attemptId := operationAttemptId sha256 state.operationId (state.attemptCount + 1)
  operationId := state.operationId
  attemptNumber := state.attemptCount + 1
  outcome := if fields.status = .available then .succeeded else .failed
  retryable := fields.retryable
  errorCode := fields.storedCode
  startedAtUtc := env.startedAtUtc
  finishedAtUtc := env.finishedAtUtc

/-- `append_operation_attempt` on the rows of a target. -/
def appendAttempt (attempt : OperationAttempt) (states : List OperationState) :
    Except String (List OperationState) := do
  (operationArguments sha256 attempt).mapError fun _ => "operation attempt identity or fields are invalid"
  match states.find? (·.operationId = attempt.operationId) with
  | none => throw "operation is missing or unrequested"
  | some current =>
    ensure (current.requested ∧ current.selected ∧ current.supportStatus = .supported)
      "operation is missing or unrequested"
    ensure (attempt.attemptNumber = current.attemptCount + 1)
      "operation attempt number is not the next attempt"
    ensure current.eligible "operation status is not eligible for an attempt"
    ensure (current.record attempt).check "CHECK constraint failed: operation_state"
    pure (states.map (OperationState.record attempt))

def recordAttempt (env : ProcessingEnvironment) (operationId : String) (fields : AttemptFields)
    (states : List OperationState) : Except String (List OperationState) :=
  match states.find? (·.operationId = operationId) with
  | none => throw "work-order operation state is missing"
  | some state => appendAttempt sha256 (attemptOn sha256 env state fields) states

def recordAttempts (env : ProcessingEnvironment) (run : TargetRun) (retryFailures : Bool)
    (fieldsOf : OperationRequest → Except String AttemptFields) : Except String (List OperationState) :=
  run.target.operations.foldlM (fun states operation =>
    if operation.requested && (run.stateOf operation.operationId).any (eligible · retryFailures) then do
      let fields ← fieldsOf operation
      recordAttempt sha256 env operation.operationId fields states
    else pure states) run.states

def resultFields (results : List OperationResult) (operation : OperationRequest) :
    Except String AttemptFields :=
  match results.find? (·.operationId = operation.operationId) with
  | none => throw "processing result operation coverage differs from work order"
  | some outcome => attemptFields outcome

/-! ## Runs -/

def processAcquiredTarget (env : ProcessingEnvironment) (retryFailures : Bool) (run : TargetRun) :
    Except String (Bool × TargetRun) := do
  let ids := run.target.rows.map (·.operationId)
  ensure ((∀ state ∈ run.states, state.operationId ∈ ids) ∧ ∀ id ∈ ids, (run.stateOf id).isSome)
    "operation state disagrees with pinned work order"
  let priorResult ← readPriorProcessingResult run.target run.receipt run.manifest
  let eligibleRow := run.target.rows.any fun row =>
    row.requested && (run.stateOf row.operationId).any (eligible · retryFailures)
  if !eligibleRow then do
    ensure (¬ (priorResult = none ∧ ∃ state ∈ run.states, state.status = .succeeded))
      "completed operations have no result manifest"
    pure (false, run)
  else match processOperations sha256 env run priorResult retryFailures with
  | .error (.integration message) => throw message
  | .error (.processing _) => do
    let states ← recordAttempts sha256 env run retryFailures fun _ => pure processingFailed
    pure (true, { run with states := states })
  | .ok (results, receipt) => do
    let manifest ← persistProcessingResult run.target results receipt
    let states ← recordAttempts sha256 env run retryFailures (resultFields results)
    pure (true, ⟨run.target, states, some manifest, receipt⟩)

/-- What `execute_processing_run` leaves of the acquired targets; `env` is what the run finds
for each of them. -/
def executeProcessingRun (env : String → ProcessingEnvironment) (retryFailures : Bool)
    (runs : List TargetRun) : Except String (List TargetRun) :=
  runs.mapM fun run =>
    (processAcquiredTarget sha256 (env run.target.targetId) retryFailures run).map (·.2)

inductive Reached : List TargetRun → Prop
  | ready {runs : List TargetRun} (h : ∀ run ∈ runs, run.Ready) : Reached runs
  | run {runs later : List TargetRun} {env : String → ProcessingEnvironment} {retryFailures : Bool}
      (h : Reached runs) (hrun : executeProcessingRun sha256 env retryFailures runs = .ok later) :
      Reached later

end
end EdgarSec.Acquisition.Processing
