import EdgarSec.Acquisition.RunState

/-! The writers of the run-state database. Each checks its arguments, then works in one
transaction. -/

namespace EdgarSec.Acquisition
open Foundation Lib Tx

abbrev StoreTx := Tx StoreError Store

def execute {α : Type} (body : Store → Except StoreError (α × Store)) : StoreTx α :=
  statement .operationalError body

def query {α : Type} (read : Store → α) : StoreTx α := execute fun store => .ok (read store, store)

/-- `urllib.parse.urlsplit` with the fields that are read, and `str.strip`. -/
structure SplitResult where
  scheme : String
  hostname : Option String
  username : Option String
  password : Option String
  port : Option Int

structure UrlLibrary where
  urlsplit : String → Option SplitResult
  strip : String → String

/-- `_url_value`; the value comes back unchanged. -/
def UrlLibrary.urlValue (urls : UrlLibrary) (value : Option String) (name : String)
    (required : Bool) : Except StoreError (Option String) :=
  match value with
  | none =>
    if required then .error (.valueError (name ++ " must be a non-empty exact URL")) else .ok none
  | some url =>
    if url = "" ∨ url ≠ urls.strip url then
      .error (.valueError (name ++ " must be a non-empty exact URL"))
    else match urls.urlsplit url with
      | none => .error (.valueError (name ++ " is malformed"))
      | some parts =>
        if parts.scheme ≠ "https" ∨ parts.hostname ≠ some "www.sec.gov" ∨
            parts.username.isSome ∨ parts.password.isSome ∨ parts.port.isSome ∨
            url.toList.contains '?' ∨ url.toList.contains '#' then
          .error (.valueError (name ++ " must omit credentials, query, and fragment"))
        else .ok (some url)

/-- `_attempt_values`, the row to insert. -/
def attemptValues (urls : UrlLibrary) (attempt : AcquisitionAttempt) :
    Except StoreError AcquisitionAttempt := do
  let _ ← urls.urlValue (some attempt.requestedUrl) "requested_url" true
  let _ ← urls.urlValue attempt.finalUrl "final_url" false
  pure attempt

def check (condition : Bool) (e : StoreError) : Except StoreError Unit :=
  if condition then .ok () else .error e

def requireSchema : Store → Except StoreError Unit := fun store =>
  check (store.userVersion = schemaVersion)
    (.runStateError "unsupported run-state schema version")

/-! ### Seeding -/

/-- `_target_seed`, the row to insert. -/
def targetSeed (seed : WorkOrderTargetSeed) : Except StoreError TargetState := do
  check (seed.targetId ≠ "") (.valueError "work-order target ID must be a non-empty string")
  check (!(seed.executable && seed.skipReason.isSome))
    (.valueError "executable work-order targets cannot have a skip reason")
  check (seed.executable || seed.skipReason.any (· ≠ ""))
    (.valueError "skipped work-order targets require a skip reason")
  pure {
    targetId := seed.targetId
    executable := seed.executable
    skipReason := seed.skipReason
    outcome := if seed.executable then .pending else .skipped }

section
variable (sha256 : Bytes → String)

def operationIdentity (targetId operation : String) : String :=
  canonicalHash sha256 (.arr [.str targetId, .str operation])

def filled (value : Option String) : Bool := value.any (· ≠ "")

def WorkOrderOperationSeed.seedStatus (seed : WorkOrderOperationSeed) : OperationStatus :=
  if !seed.requested then .notRequested
  else if seed.requestMode = .defaultCandidate ∧ !seed.selected then .notSelected
  else if seed.supportStatus = .unsupported then .unsupported
  else if !seed.selected then .notSelected
  else .blocked

def WorkOrderOperationSeed.seedErrorCode (seed : WorkOrderOperationSeed) : Option String :=
  if seed.seedStatus = .unsupported then
    some ("unsupported:" ++ seed.supportReason.getD "None")
  else if seed.seedStatus = .blocked then some "blocked:acquisition_not_ready"
  else none

/-- `_operation_seed`, the row to insert. -/
def operationSeed (seed : WorkOrderOperationSeed) : Except StoreError OperationState := do
  check (seed.operationId ≠ "" && seed.targetId ≠ "" && seed.operation ≠ "")
    (.valueError "work-order operation identity must be non-empty")
  check (["raw", "render_to_txt", "render_to_xml"].contains seed.operation &&
      seed.operationId = operationIdentity sha256 seed.targetId seed.operation)
    (.valueError "work-order operation ID does not match its identity")
  check (seed.operation ≠ "raw" || (seed.requested && seed.requestMode = .mandatoryRaw))
    (.valueError "raw operation intent is not mandatory")
  check (seed.operation = "raw" ||
      !((seed.requested && seed.requestMode ≠ .profile && seed.requestMode ≠ .defaultCandidate) ||
        (!seed.requested && seed.requestMode ≠ .notRequested)))
    (.valueError "operation request mode disagrees with requested flag")
  check (!(seed.supportStatus = .supported &&
      (seed.pins.any (!filled ·) || seed.supportReason.isSome)))
    (.valueError "supported operation does not contain complete pins")
  check (!(seed.supportStatus = .unsupported &&
      (seed.pins.any Option.isSome || !filled seed.supportReason)))
    (.valueError "unsupported operation does not contain a reason")
  check (!(seed.supportStatus = .notEvaluated &&
      (seed.requested || seed.pins.any Option.isSome || seed.supportReason.isSome)))
    (.valueError "unevaluated operation has resolved pins")
  check (!(seed.selected && (!seed.requested || seed.supportStatus ≠ .supported)))
    (.valueError "unrequested or unsupported operation was selected")
  check (seed.sourceRequestId.isNone == seed.inputOrdinal.isNone &&
      seed.sourceRequestId.isNone == seed.inputRole.isNone)
    (.valueError "resolved operation input references are incomplete")
  check (seed.inputOrdinal.isNone ||
      (seed.inputOrdinal = some 0 && seed.inputRole = some "selected_target_body"))
    (.valueError "resolved operation input reference is invalid")
  pure { seed with status := seed.seedStatus, errorCode := seed.seedErrorCode }

def attempted {α : Type} (x : Except StoreError α) : StoreTx α :=
  match x with
  | .ok a => pure a
  | .error e => throw e

def initializeVersion : StoreTx Unit :=
  execute fun store =>
    if store.userVersion = 0 then .ok ((), { store with userVersion := schemaVersion })
    else if store.userVersion ≠ schemaVersion then
      .error (.runStateError "unsupported run-state schema version")
    else .ok ((), store)

def seedTarget (seed : WorkOrderTargetSeed) : StoreTx Unit := do
  let target ← attempted (targetSeed seed)
  execute (Store.insertTarget target)

def seedOperation (seed : WorkOrderOperationSeed) : StoreTx Unit := do
  let state ← attempted (operationSeed sha256 seed)
  execute (Store.insertOperation state)

def initializeBody (targets : List WorkOrderTargetSeed)
    (operations : List WorkOrderOperationSeed) : StoreTx Unit := do
  initializeVersion
  targets.forM seedTarget
  operations.forM (seedOperation sha256)

def initializeRunState (targets : List WorkOrderTargetSeed)
    (operations : List WorkOrderOperationSeed) (faults : List Bool) (store : Store) :
    Except StoreError Unit × Store :=
  transaction .operationalError (initializeBody sha256 targets operations) faults store

end

/-! ### Attempts on targets -/

/-- `refresh_operation_readiness`, without the count it returns. -/
def refreshOperationReadiness (targetId : String) : StoreTx Unit := do
  let rows ← query (Store.readinessRows · targetId)
  rows.forM fun row => execute (Store.updateOperations (OperationState.refresh row))

def TargetState.eligible (target : TargetState) : Bool :=
  target.outcome = .pending || (target.outcome = .failed && target.retryable)

def executableTarget (targetId : String) : StoreTx TargetState := do
  let current ← query (Store.findTarget · targetId)
  match current with
  | none => throw (.runStateError "attempt target is missing or not executable")
  | some target =>
    require target.executable (.runStateError "attempt target is missing or not executable")
    pure target

def projectOutcome (outcome : AcquisitionOutcome) : StoreTx Unit := do
  let matched ← execute (Store.updateTarget outcome)
  require (matched = 1) (.runStateError "target projection update did not match one target")
  refreshOperationReadiness outcome.targetId

def appendArguments (urls : UrlLibrary) (attempt : AcquisitionAttempt)
    (outcome : AcquisitionOutcome) : Except StoreError AcquisitionAttempt := do
  let values ← attemptValues urls attempt
  check (attempt.targetId = outcome.targetId)
    (.valueError "attempt and outcome target IDs differ")
  check (attempt.outcome = outcome.status) (.valueError "attempt and target outcome differ")
  check (some attempt.source = outcome.source && attempt.retryable = outcome.retryable)
    (.valueError "attempt and target source/retry state differ")
  check (attempt.errorCode = outcome.errorCode && attempt.evidence = outcome.evidence)
    (.valueError "attempt and target evidence differ")
  pure values

def appendBody (values : AcquisitionAttempt) (outcome : AcquisitionOutcome) :
    StoreTx Unit := do
  let current ← executableTarget values.targetId
  require (values.attemptNumber = current.attemptCount + 1)
    (.runStateError "attempt number is not the next target attempt")
  require current.eligible (.runStateError "target outcome is not eligible for an attempt")
  require (outcome.attemptCount = values.attemptNumber &&
      outcome.lastAttemptId = some values.attemptId)
    (.valueError "outcome attempt projection is inconsistent")
  execute (Store.insertAttempt values)
  projectOutcome outcome

def appendAttemptAndUpdateTarget (urls : UrlLibrary) (attempt : AcquisitionAttempt)
    (outcome : AcquisitionOutcome) (faults : List Bool) (store : Store) :
    Except StoreError Unit × Store :=
  match appendArguments urls attempt outcome, requireSchema store with
  | .error e, _ => (.error e, store)
  | .ok _, .error e => (.error e, store)
  | .ok values, .ok () => transaction .operationalError (appendBody values outcome) faults store

def ResolutionResult.expectedStatus : ResolutionResult → AcquisitionStatus
  | acceptedSequence1 => .acquired
  | recovered => .acquired
  | selectedInBundle => .acquired
  | notFiled => .notFiled
  | requiredMissing => .requiredMissing
  | ambiguous => .ambiguous
  | failed => .failed

def TargetSlotResolution.expectedStatus (resolution : TargetSlotResolution)
    (outcome : AcquisitionOutcome) : AcquisitionStatus :=
  if outcome.status = .acquired ∧ resolution.selectedUrl = none ∧
      (resolution.result = .notFiled ∨ resolution.result = .requiredMissing ∨
        resolution.result = .ambiguous ∨ resolution.result = .failed) then .acquired
  else resolution.result.expectedStatus

def resolutionArguments (resolution : TargetSlotResolution) (outcome : AcquisitionOutcome)
    (recordedAtUtc : Option String) : Except StoreError Unit := do
  check (resolution.targetId = outcome.targetId)
    (.valueError "resolution and outcome target IDs differ")
  check (!(resolution.selector = .sgmlBundleScan && resolution.indexAttemptId.isSome))
    (.valueError "bundle-scan resolution must not reference an index attempt")
  check (resolution.selector = .sgmlBundleScan || resolution.indexAttemptId.isSome)
    (.valueError "resolution must reference its lazy-index attempt")
  check (filled recordedAtUtc) (.valueError "recorded_at_utc is required with a resolution")
  check (outcome.status = resolution.expectedStatus outcome)
    (.valueError "resolution result and target outcome differ")

def commitArguments (urls : UrlLibrary) (attempts : List AcquisitionAttempt)
    (outcome : AcquisitionOutcome) (resolution : Option TargetSlotResolution)
    (recordedAtUtc : Option String) : Except StoreError (List AcquisitionAttempt) := do
  check (!attempts.isEmpty) (.valueError "at least one acquisition attempt is required")
  check (attempts.all (·.targetId = outcome.targetId))
    (.valueError "attempts and outcome target IDs differ")
  let values ← attempts.mapM (attemptValues urls)
  match resolution with
  | none => pure values
  | some resolution => (resolutionArguments resolution outcome recordedAtUtc).map fun _ => values

def Store.hasIndexAttempt (store : Store) (targetId indexAttemptId : String) : Bool :=
  (store.attempts.find? (·.attemptId = indexAttemptId)).any fun index =>
    index.targetId = targetId && index.attemptKind = .lazyIndex

def requireIndexAttempt (targetId : String) (index : Option String) : StoreTx Unit :=
  match index with
  | none => pure ()
  | some indexAttemptId => do
    let found ← query (Store.hasIndexAttempt · targetId indexAttemptId)
    require found (.valueError "resolution index attempt is missing or mismatched")

def storeResolution (urls : UrlLibrary) (outcome : AcquisitionOutcome)
    (recordedAtUtc : Option String) : Option TargetSlotResolution → StoreTx Unit
  | none => pure ()
  | some resolution => do
    requireIndexAttempt outcome.targetId resolution.indexAttemptId
    let selectedUrl ← attempted (urls.urlValue resolution.selectedUrl "selected_url" false)
    execute (Store.insertResolution { resolution with selectedUrl } (recordedAtUtc.getD ""))

def contiguous (first : Int) : List AcquisitionAttempt → Bool
  | [] => true
  | attempt :: attempts => attempt.attemptNumber = first && contiguous (first + 1) attempts

def commitBody (urls : UrlLibrary) (values : List AcquisitionAttempt)
    (final : AcquisitionAttempt) (outcome : AcquisitionOutcome)
    (resolution : Option TargetSlotResolution) (recordedAtUtc : Option String) :
    StoreTx Unit := do
  let current ← executableTarget outcome.targetId
  require current.eligible (.runStateError "target outcome is not eligible for an attempt")
  require (contiguous (current.attemptCount + 1) values)
    (.runStateError "attempt numbers are not contiguous for the target")
  require (outcome.attemptCount = final.attemptNumber &&
      outcome.lastAttemptId = some final.attemptId)
    (.valueError "outcome attempt projection is inconsistent")
  require (outcome.source = some final.source && outcome.retryable = final.retryable)
    (.valueError "outcome source/retry state differs from final attempt")
  values.forM fun value => execute (Store.insertAttempt value)
  storeResolution urls outcome recordedAtUtc resolution
  projectOutcome outcome

def commitAttemptsAndUpdateTarget (urls : UrlLibrary) (attempts : List AcquisitionAttempt)
    (outcome : AcquisitionOutcome) (resolution : Option TargetSlotResolution)
    (recordedAtUtc : Option String) (faults : List Bool) (store : Store) :
    Except StoreError Unit × Store :=
  match commitArguments urls attempts outcome resolution recordedAtUtc, requireSchema store with
  | .error e, _ => (.error e, store)
  | .ok _, .error e => (.error e, store)
  | .ok values, .ok () =>
    match values.getLast? with
    | none => (.error (.valueError "at least one acquisition attempt is required"), store)
    | some final => transaction .operationalError
        (commitBody urls values final outcome resolution recordedAtUtc) faults store

/-! ### Attempts on operations -/

section
variable (sha256 : Bytes → String)

def operationAttemptId (operationId : String) (attemptNumber : Int) : String :=
  canonicalHash sha256 (.arr [.str operationId, .int attemptNumber])

def operationArguments (attempt : OperationAttempt) : Except StoreError Unit := do
  check (0 < attempt.attemptNumber)
    (.valueError "operation attempt identity or fields are invalid")
  check (attempt.operationId ≠ "") (.valueError "operation attempt identity is invalid")
  check (attempt.attemptId = operationAttemptId sha256 attempt.operationId attempt.attemptNumber &&
      attempt.startedAtUtc ≠ "" && attempt.finishedAtUtc ≠ "" &&
      !(attempt.outcome = .succeeded && attempt.retryable))
    (.valueError "operation attempt identity or fields are invalid")

def OperationState.eligible (state : OperationState) : Bool :=
  state.status = .pending || (state.status = .failed && state.retryable)

def selectedOperation (operationId : String) : StoreTx OperationState := do
  let current ← query (Store.findOperation · operationId)
  match current with
  | none => throw (.runStateError "operation is missing or unrequested")
  | some state =>
    require (state.requested && state.selected && state.supportStatus = .supported)
      (.runStateError "operation is missing or unrequested")
    pure state

def appendOperationBody (attempt : OperationAttempt) : StoreTx Unit := do
  let current ← selectedOperation attempt.operationId
  require (attempt.attemptNumber = current.attemptCount + 1)
    (.runStateError "operation attempt number is not the next attempt")
  require current.eligible (.runStateError "operation status is not eligible for an attempt")
  execute (Store.insertOperationAttempt attempt)
  execute (Store.updateOperations (OperationState.record attempt))

def appendOperationAttempt (attempt : OperationAttempt) (faults : List Bool) (store : Store) :
    Except StoreError Unit × Store :=
  match operationArguments sha256 attempt with
  | .error e => (.error e, store)
  | .ok () =>
    if store.userVersion = schemaVersion then
      transaction .operationalError (appendOperationBody attempt) faults store
    else (.error (.runtimeError "unsupported run-state schema version"), store)

/-! ### `validate_operation_state` -/

def OperationState.expectedStatus (state : OperationState) (target : TargetState) :
    OperationStatus :=
  if !state.requested then .notRequested
  else if state.requestMode = .defaultCandidate ∧ !state.selected then .notSelected
  else if state.supportStatus = .unsupported then .unsupported
  else if !state.selected then .notSelected
  else if target.outcome = .acquired ∧ target.evidence.selectedBodyRelativePath.isSome then
    .pending
  else .blocked

def OperationState.expectedErrorCode (state : OperationState) : Option String :=
  if state.status = .blocked then some "blocked:acquisition_not_ready"
  else if state.status = .unsupported then state.supportReason.map ("unsupported:" ++ ·)
  else none

def Store.operationHistory (store : Store) (operationId : String) : List OperationAttempt :=
  store.operationAttempts.filter (·.operationId = operationId)

def Store.mismatch (store : Store) (state : OperationState) (target : TargetState)
    (latest : Option OperationAttempt) : Bool :=
  let numbers := (store.operationHistory state.operationId).map (·.attemptNumber)
  state.attemptCount ≠ numbers.length ||
  (state.attemptCount = 0 && (state.lastAttemptId.isSome || state.retryable ||
    state.status ≠ state.expectedStatus target || state.errorCode ≠ state.expectedErrorCode)) ||
  (0 < state.attemptCount && (
    (numbers.min?).any (· ≠ 1) || (numbers.max?).any (· ≠ state.attemptCount) ||
    !state.requested || !state.selected || state.supportStatus ≠ .supported ||
    latest.map (·.attemptId) ≠ state.lastAttemptId ||
    latest.bind (·.errorCode) ≠ state.errorCode ||
    latest.any (·.retryable ≠ state.retryable) ||
    latest.any (·.outcome.status ≠ state.status)))

def Store.latestAttempts (store : Store) (state : OperationState) :
    List (Option OperationAttempt) :=
  match (store.operationHistory state.operationId).filter
      (·.attemptNumber = state.attemptCount) with
  | [] => [none]
  | attempts => attempts.map some

def validateOperationState (store : Store) : Except StoreError Unit := do
  check (!store.operations.any fun state =>
      (store.latestAttempts state).any fun latest =>
        (store.targets.filter (·.targetId = state.targetId)).any fun target =>
          store.mismatch state target latest)
    (.runStateError "operation state does not match its attempt history")
  check (store.operations.all fun state =>
      state.operationId = operationIdentity sha256 state.targetId state.operation)
    (.runStateError "operation state identity is invalid")

end

end EdgarSec.Acquisition
