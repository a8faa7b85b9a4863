import EdgarSec.Foundation.Text
import EdgarSec.Lib.Transactions

/-! The run-state database of document acquisition: its tables with their constraints,
and the writers of `run_state/store.py` and `run_state/operations.py`. -/

namespace EdgarSec.Acquisition
open Foundation Lib

/-! ## Values -/

inductive AcquisitionStatus where
  | pending
  | acquired
  | notFiled
  | requiredMissing
  | ambiguous
  | failed
  | skipped
  deriving DecidableEq, Repr

inductive AcquisitionSource where
  | liveSec
  | fixtureReplay
  deriving DecidableEq, Repr

inductive AttemptKind where
  | documentBody
  | lazyIndex
  deriving DecidableEq, Repr

structure Evidence where
  sourceSha256 : Option String
  sourceByteSize : Option Int
  sourceBodyRelativePath : Option String
  selectedSha256 : Option String
  selectedByteSize : Option Int
  selectedBodyRelativePath : Option String
  deriving DecidableEq, Repr

def Evidence.none : Evidence := ⟨.none, .none, .none, .none, .none, .none⟩

def sizeCheck (size : Option Int) : Bool := size.all (0 ≤ ·)

def Evidence.check (evidence : Evidence) : Bool :=
  sizeCheck evidence.sourceByteSize && sizeCheck evidence.selectedByteSize

structure AcquisitionAttempt where
  attemptId : String
  targetId : String
  attemptNumber : Int
  attemptKind : AttemptKind
  source : AcquisitionSource
  requestedUrl : String
  outcome : AcquisitionStatus
  retryable : Bool
  errorCode : Option String
  httpStatus : Option Int
  finalUrl : Option String
  startedAtUtc : String
  finishedAtUtc : String
  evidence : Evidence
  selectedFilename : Option String
  deriving DecidableEq, Repr

structure AcquisitionOutcome where
  targetId : String
  source : Option AcquisitionSource
  status : AcquisitionStatus
  attemptCount : Int
  lastAttemptId : Option String
  errorCode : Option String
  retryable : Bool
  evidence : Evidence
  deriving DecidableEq, Repr

inductive Selector where
  | submittedPrimary
  | exactFormWithLazyIndex
  | sgmlBundleScan
  deriving DecidableEq, Repr

inductive ScreenKind where
  | none
  | sgmlType
  | htmlCover
  deriving DecidableEq, Repr

inductive ScreenResult where
  | notRun
  | formMatch
  | typeMismatch
  | unverifiable
  deriving DecidableEq, Repr

inductive RetrievalMode where
  | directUrl
  | bundleSequence
  | bundleScan
  deriving DecidableEq, Repr

inductive ResolutionResult where
  | acceptedSequence1
  | recovered
  | selectedInBundle
  | notFiled
  | requiredMissing
  | ambiguous
  | failed
  deriving DecidableEq, Repr

/-- The fields of `TargetSlotResolution` that are stored. -/
structure TargetSlotResolution where
  resolutionSchemaVersion : String
  resolutionId : String
  targetId : String
  selector : Selector
  expectedStatutoryType : String
  initialSequence : Option Int
  screenKind : ScreenKind
  screenResult : ScreenResult
  evaluatorVersion : Option String
  initialBodySha256 : String
  indexAttemptId : Option String
  indexResponseSha256 : Option String
  indexParserVersion : Option String
  matchingEntryIds : List String
  selectedSequence : Option Int
  selectedRetrievalMode : Option RetrievalMode
  selectedUrl : Option String
  result : ResolutionResult
  deriving DecidableEq, Repr

structure WorkOrderTargetSeed where
  targetId : String
  executable : Bool
  skipReason : Option String

/-- A row of `target_state`. -/
structure TargetState where
  targetId : String
  executable : Bool
  skipReason : Option String
  outcome : AcquisitionStatus
  source : Option AcquisitionSource := none
  retryable : Bool := false
  attemptCount : Int := 0
  lastAttemptId : Option String := none
  errorCode : Option String := none
  evidence : Evidence := .none
  deriving DecidableEq, Repr

inductive RequestMode where
  | mandatoryRaw
  | profile
  | defaultCandidate
  | notRequested
  deriving DecidableEq, Repr

inductive SupportStatus where
  | supported
  | unsupported
  | notEvaluated
  deriving DecidableEq, Repr

inductive OperationStatus where
  | pending
  | notRequested
  | unsupported
  | notSelected
  | blocked
  | succeeded
  | failed
  deriving DecidableEq, Repr

inductive OperationOutcome where
  | succeeded
  | failed
  deriving DecidableEq, Repr

def OperationOutcome.status : OperationOutcome → OperationStatus
  | succeeded => .succeeded
  | failed => .failed

structure WorkOrderOperationSeed where
  operationId : String
  targetId : String
  operation : String
  requested : Bool
  requestMode : RequestMode
  selected : Bool
  sourceRequestId : Option String
  inputOrdinal : Option Int
  inputRole : Option String
  supportStatus : SupportStatus
  supportReason : Option String
  capabilityId : Option String
  capabilityVersion : Option String
  handlerId : Option String
  handlerVersion : Option String
  outputKind : Option String
  deriving DecidableEq, Repr

/-- A row of `operation_state`. -/
structure OperationState extends WorkOrderOperationSeed where
  status : OperationStatus
  retryable : Bool := false
  attemptCount : Int := 0
  lastAttemptId : Option String := none
  errorCode : Option String
  deriving DecidableEq, Repr

structure OperationAttempt where
  attemptId : String
  operationId : String
  attemptNumber : Int
  outcome : OperationOutcome
  retryable : Bool
  errorCode : Option String
  startedAtUtc : String
  finishedAtUtc : String
  deriving DecidableEq, Repr

/-- The database file; `userVersion` is 0 while it has no tables. -/
structure Store where
  userVersion : Nat
  targets : List TargetState
  attempts : List AcquisitionAttempt
  resolutions : List (TargetSlotResolution × String)
  operations : List OperationState
  operationAttempts : List OperationAttempt

def Store.empty : Store := ⟨0, [], [], [], [], []⟩

def schemaVersion : Nat := 6

inductive StoreError where
  | valueError (message : String)
  | runStateError (message : String)
  | runtimeError (message : String)
  | integrityError
  | operationalError
  deriving DecidableEq, Repr

/-! ## Constraints and statements -/

def TargetState.check (target : TargetState) : Bool :=
  0 ≤ target.attemptCount && target.evidence.check &&
    (target.executable == target.skipReason.isNone) &&
    (decide (target.outcome = .skipped) == !target.executable) &&
    (target.outcome = .failed || !target.retryable)

def AcquisitionAttempt.check (attempt : AcquisitionAttempt) : Bool :=
  0 < attempt.attemptNumber && attempt.outcome ≠ .pending && attempt.outcome ≠ .skipped &&
    attempt.evidence.check && (attempt.outcome = .failed || !attempt.retryable)

def TargetSlotResolution.check (resolution : TargetSlotResolution) : Bool :=
  resolution.initialSequence.all (· = 1) && resolution.selectedSequence.all (0 < ·)

def WorkOrderOperationSeed.pins (seed : WorkOrderOperationSeed) : List (Option String) :=
  [seed.capabilityId, seed.capabilityVersion, seed.handlerId, seed.handlerVersion,
    seed.outputKind]

def OperationState.check (state : OperationState) : Bool :=
  0 ≤ state.attemptCount &&
    ((!state.requested && state.requestMode = .notRequested && !state.selected &&
        state.supportStatus = .notEvaluated && state.status = .notRequested) ||
      (state.requested && state.requestMode = .defaultCandidate && !state.selected &&
        state.supportStatus ≠ .notEvaluated && state.status = .notSelected) ||
      (state.requested && state.requestMode ≠ .defaultCandidate &&
        state.supportStatus = .unsupported && !state.selected &&
        state.status = .unsupported) ||
      (state.requested && state.requestMode ≠ .defaultCandidate &&
        state.supportStatus = .supported && !state.selected && state.status = .notSelected) ||
      (state.requested && state.requestMode ≠ .notRequested &&
        state.supportStatus = .supported && state.selected &&
        (state.status = .pending || state.status = .blocked || state.status = .succeeded ||
          state.status = .failed))) &&
    ((state.sourceRequestId.isNone && state.inputOrdinal.isNone && state.inputRole.isNone) ||
      (state.sourceRequestId.isSome && state.inputOrdinal = some 0 &&
        state.inputRole = some "selected_target_body")) &&
    ((state.supportStatus = .supported && state.supportReason.isNone &&
        state.pins.all Option.isSome) ||
      (state.supportStatus = .unsupported && state.supportReason.isSome &&
        state.pins.all Option.isNone) ||
      (state.supportStatus = .notEvaluated && state.supportReason.isNone &&
        state.pins.all Option.isNone)) &&
    (!state.selected || state.supportStatus = .supported) &&
    (state.status = .blocked || state.status = .unsupported || state.status = .failed ||
      state.errorCode.isNone) &&
    (state.status = .failed || !state.retryable)

def OperationAttempt.check (attempt : OperationAttempt) : Bool :=
  0 < attempt.attemptNumber && (attempt.outcome = .failed || !attempt.retryable)

namespace Store

def insertTarget (target : TargetState) (store : Store) : Except StoreError (Unit × Store) :=
  if target.check && !store.targets.any (·.targetId = target.targetId) then
    .ok ((), { store with targets := store.targets ++ [target] })
  else .error .integrityError

def insertAttempt (attempt : AcquisitionAttempt) (store : Store) :
    Except StoreError (Unit × Store) :=
  if attempt.check && store.targets.any (·.targetId = attempt.targetId) &&
      !store.attempts.any (fun stored => stored.attemptId = attempt.attemptId ||
        (stored.targetId = attempt.targetId && stored.attemptNumber = attempt.attemptNumber)) then
    .ok ((), { store with attempts := store.attempts ++ [attempt] })
  else .error .integrityError

def insertResolution (resolution : TargetSlotResolution) (recordedAtUtc : String)
    (store : Store) : Except StoreError (Unit × Store) :=
  if resolution.check && store.targets.any (·.targetId = resolution.targetId) &&
      resolution.indexAttemptId.all (fun index => store.attempts.any (·.attemptId = index)) &&
      !store.resolutions.any (·.1.resolutionId = resolution.resolutionId) then
    .ok ((), { store with resolutions := store.resolutions ++ [(resolution, recordedAtUtc)] })
  else .error .integrityError

def insertOperation (state : OperationState) (store : Store) :
    Except StoreError (Unit × Store) :=
  if state.check && store.targets.any (·.targetId = state.targetId) &&
      !store.operations.any (·.operationId = state.operationId) then
    .ok ((), { store with operations := store.operations ++ [state] })
  else .error .integrityError

def insertOperationAttempt (attempt : OperationAttempt) (store : Store) :
    Except StoreError (Unit × Store) :=
  if attempt.check && store.operations.any (·.operationId = attempt.operationId) &&
      !store.operationAttempts.any (fun stored => stored.attemptId = attempt.attemptId ||
        (stored.operationId = attempt.operationId &&
          stored.attemptNumber = attempt.attemptNumber)) then
    .ok ((), { store with operationAttempts := store.operationAttempts ++ [attempt] })
  else .error .integrityError

def findTarget (store : Store) (targetId : String) : Option TargetState :=
  store.targets.find? (·.targetId = targetId)

def findOperation (store : Store) (operationId : String) : Option OperationState :=
  store.operations.find? (·.operationId = operationId)

end Store

/-- `_UPDATE_TARGET` on one row. -/
def TargetState.project (outcome : AcquisitionOutcome) (target : TargetState) : TargetState :=
  if target.targetId = outcome.targetId ∧ target.executable then
    { target with
      outcome := outcome.status
      source := outcome.source
      retryable := outcome.retryable
      attemptCount := outcome.attemptCount
      lastAttemptId := outcome.lastAttemptId
      errorCode := outcome.errorCode
      evidence := outcome.evidence }
  else target

/-- `_UPDATE_TARGET`, with the number of rows it matched. -/
def Store.updateTarget (outcome : AcquisitionOutcome) (store : Store) :
    Except StoreError (Nat × Store) :=
  let targets := store.targets.map (TargetState.project outcome)
  if targets.all TargetState.check then
    .ok (store.targets.countP (fun target => target.targetId = outcome.targetId ∧ target.executable),
      { store with targets })
  else .error .integrityError

/-- The row of `refresh_operation_readiness` that an update is made from. -/
structure ReadinessRow where
  operationId : String
  outcome : AcquisitionStatus
  selectedPath : Option String

def ReadinessRow.ready (row : ReadinessRow) : Bool :=
  row.outcome = .acquired && row.selectedPath.isSome

def Store.readinessRows (store : Store) (targetId : String) : List ReadinessRow :=
  (store.operations.filter fun state =>
      state.targetId = targetId && state.requested && state.selected &&
        state.supportStatus = .supported && state.attemptCount = 0).flatMap fun state =>
    (store.targets.filter (·.targetId = state.targetId)).map fun target =>
      ⟨state.operationId, target.outcome, target.evidence.selectedBodyRelativePath⟩

def OperationState.refresh (row : ReadinessRow) (state : OperationState) : OperationState :=
  if state.operationId = row.operationId ∧ (state.status = .pending ∨ state.status = .blocked) then
    { state with
      status := if row.ready then .pending else .blocked
      retryable := false
      errorCode := if row.ready then none else some "blocked:acquisition_not_ready" }
  else state

def Store.updateOperations (change : OperationState → OperationState) (store : Store) :
    Except StoreError (Unit × Store) :=
  let operations := store.operations.map change
  if operations.all OperationState.check then .ok ((), { store with operations })
  else .error .integrityError

/-- The update of `append_operation_attempt` on one row. -/
def OperationState.record (attempt : OperationAttempt) (state : OperationState) :
    OperationState :=
  if state.operationId = attempt.operationId then
    { state with
      status := attempt.outcome.status
      retryable := attempt.retryable
      attemptCount := attempt.attemptNumber
      lastAttemptId := some attempt.attemptId
      errorCode := attempt.errorCode }
  else state

end EdgarSec.Acquisition
