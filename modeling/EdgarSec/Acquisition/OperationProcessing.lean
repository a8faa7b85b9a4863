import EdgarSec.Acquisition.RunStateWriters
import EdgarSec.FilingCatalog.PlanBundles
import EdgarSec.Foundation.Unicode
import EdgarSec.Lib.Outcome

/-! Processing of acquired targets: which operations a call executes and which it takes from
an earlier result (`processing/io.py`), what the worker finds out about each of them
(`processing/worker.py` over the engine's `processor.py`), and how a run records it
(`processing/run.py`). The staged files are as they were written. -/

namespace EdgarSec.Acquisition.Processing
open Foundation Lib FilingCatalog

/-! ## Requests and results -/

structure OperationRequest where
  operationId : String
  operation : String
  requested : Bool
  supportStatus : SupportStatus
  sourceRequestId : Option String
  capabilityId : Option String
  capabilityVersion : Option String
  handlerId : Option String
  handlerVersion : Option String
  outputKind : Option String
  deriving DecidableEq

/-- `operation_pins` -/
def OperationRequest.pins (operation : OperationRequest) : List (Option String) :=
  [operation.capabilityId, operation.capabilityVersion, operation.handlerId,
    operation.handlerVersion, operation.outputKind]

def OperationRequest.eligible (operation : OperationRequest) : Bool :=
  operation.requested && operation.supportStatus = .supported

/-- The row of `operation_state` once the body of the target is acquired. -/
def readyState (row : WorkOrderOperationSeed) : OperationState :=
  { row with
    status := if row.seedStatus = .blocked then .pending else row.seedStatus
    errorCode := if row.seedStatus = .blocked then none else row.seedErrorCode }

structure Resolved (row : WorkOrderOperationSeed) : Prop where
  check : (readyState row).check = true
  id_ne : row.operationId ≠ ""
  raw_selected : row.operation = "raw" → row.supportStatus = .supported → row.selected = true

/-- One row in `operation_requests`. -/
def operationRequest (row : WorkOrderOperationSeed) : Except String OperationRequest := do
  let requested := row.selected ||
    (row.requested && (row.operation = "raw" || row.supportStatus = .unsupported))
  ensure (row.supportStatus = .supported → row.pins.all Option.isSome)
    "supported operation is missing immutable handler pins"
  ensure (row.supportStatus ≠ .supported → row.pins.all Option.isNone)
    "unresolved operation carries handler pins"
  ensure (requested ∧ row.supportStatus = .supported →
      row.sourceRequestId.isSome ∧ row.inputRole = some "selected_target_body")
    "requested operation has no resolved selected-body input"
  pure {
    operationId := row.operationId
    operation := row.operation
    requested := requested
    supportStatus := row.supportStatus
    sourceRequestId := row.sourceRequestId
    capabilityId := row.capabilityId
    capabilityVersion := row.capabilityVersion
    handlerId := row.handlerId
    handlerVersion := row.handlerVersion
    outputKind := row.outputKind }

def operationRequests (rows : List WorkOrderOperationSeed) :
    Except String (List OperationRequest) := do
  let operations ← rows.mapM operationRequest
  ensure (operations.length = 3 ∧ operations.countP (·.operation = "raw") = 1)
    "work-order operation coverage is invalid"
  pure operations

/-- The values of `OperationStatus` in `processing/models.py`. -/
inductive ResultStatus where
  | notRequested
  | unsupported
  | blocked
  | available
  | failed
  deriving DecidableEq, Repr

def ResultStatus.text : ResultStatus → String
  | notRequested => "not_requested"
  | unsupported => "unsupported"
  | blocked => "blocked"
  | available => "available"
  | failed => "failed"

def reusableStatuses : List ResultStatus := [.available, .failed, .blocked]

structure ProcessingDiagnostic where
  code : String
  detail : String
  deriving DecidableEq

structure StagedOutputRef where
  stagingId : String
  path : String
  representation : String
  outputSha256 : String
  outputSize : Nat
  deriving DecidableEq

structure OperationResult where
  operationId : String
  operationFingerprint : String
  status : ResultStatus
  representationId : Option String
  outputSha256 : Option String
  outputSize : Option Nat
  handlerId : Option String
  handlerVersion : Option String
  diagnostics : List ProcessingDiagnostic
  stagedOutput : Option StagedOutputRef
  deriving DecidableEq

structure StagedBody where
  path : String
  sha256 : String
  byteSize : Nat
  sourceResponseSha256 : String
  deriving DecidableEq

structure AcquiredTarget where
  targetId : String
  targetRole : String
  rows : List WorkOrderOperationSeed
  operations : List OperationRequest
  body : StagedBody
  effectivePath : String
  processingId : String
  processingRoot : String
  fingerprintData : OperationRequest → Json
  /-- The form-family profile, or the exhibit rule, admits the operation. -/
  allowed : OperationRequest → Bool
  requests : operationRequests rows = .ok operations
  nodup : (rows.map (·.operationId)).Nodup
  resolved : ∀ row ∈ rows, Resolved row

/-! ## Reuse of earlier results -/

def operationIds (operations : List OperationRequest) : List String :=
  operations.map (·.operationId)

def eligibleIds (operations : List OperationRequest) : List String :=
  operationIds (operations.filter OperationRequest.eligible)

/-- The loop over the prior results; `seen` are the ids before. -/
def checkPrior (operations : List OperationRequest) :
    List String → List OperationResult → Except String Unit
  | _, [] => pure ()
  | seen, result :: rest => do
    ensure (result.operationId ∉ seen) "prior operation result IDs are duplicated"
    ensure (result.operationId ∈ operationIds operations) "prior operation result ID is unknown"
    ensure (result.operationId ∈ eligibleIds operations)
      "prior result is not for a requested supported operation"
    ensure (result.status ∈ reusableStatuses) "prior operation result is not terminal"
    ensure (∀ operation ∈ operations, operation.operationId = result.operationId →
        operation.operation = "raw" → result.status = .available)
      "prior mandatory raw operation is unavailable"
    checkPrior operations (result.operationId :: seen) rest

def selectedIds (operations : List OperationRequest) (prior : List OperationResult) :
    Option (List String) → Except String (List String)
  | none => pure ((eligibleIds operations).filter (· ∉ prior.map (·.operationId)))
  | some selected => do
    ensure selected.Nodup "selected operation IDs are duplicated"
    ensure (∀ id ∈ selected, id ∈ operationIds operations) "selected operation ID is unknown"
    ensure (∀ id ∈ selected, id ∈ eligibleIds operations)
      "selected operation is not requested and supported"
    pure selected

def selectOperationExecution (operations : List OperationRequest)
    (priorResults : Option (List OperationResult)) (selectedOperationIds : Option (List String)) :
    Except String (List OperationResult × List String) := do
  let prior := priorResults.getD []
  ensure (operationIds operations).Nodup "operation request IDs are not unique"
  checkPrior operations [] prior
  let selected ← selectedIds operations prior selectedOperationIds
  ensure (∀ id ∈ selected, id ∉ prior.map (·.operationId))
    "operation cannot be both selected and reused"
  ensure ((∀ id ∈ eligibleIds operations, id ∈ selected ∨ id ∈ prior.map (·.operationId)) ∧
      (∀ id ∈ selected, id ∈ eligibleIds operations) ∧
      ∀ result ∈ prior, result.operationId ∈ eligibleIds operations)
    "requested operations lack execution or prior coverage"
  pure (prior, selected)

section
variable (sha256 : Bytes → String)

def hashed (size : Nat) (data : Json) : String :=
  String.ofList ((canonicalHash sha256 data).toList.take size)

def representationId (fingerprint representation : String) : String :=
  "rep_" ++ hashed sha256 32 (.arr [.str fingerprint, .str representation])

def expectedRepresentation (operation : OperationRequest) : String :=
  if operation.operation = "raw" then "raw"
  else if operation.outputKind = some "text" then "text_normalized" else "xml"

variable (target : AcquiredTarget)

def operationFingerprint (operation : OperationRequest) : String :=
  canonicalHash sha256 (target.fingerprintData operation)

/-- Where `stage_derived_output` writes. -/
def derivedPath (operation : OperationRequest) (outputSha256 : String) : String :=
  target.processingRoot ++ "/" ++ target.processingId ++ "/" ++
    hashed sha256 24 (.str operation.operationId) ++ "-" ++ outputSha256 ++ ".bin"

def validatePriorOperationResult (operation : OperationRequest) (result : OperationResult) :
    Except String Unit := do
  let fingerprint := operationFingerprint sha256 target operation
  ensure (result.operationFingerprint = fingerprint) "prior operation fingerprint is stale"
  ensure (result.status ∈ reusableStatuses) "prior operation result is not reusable"
  if result.status ≠ .available then
    ensure (result.representationId = none ∧ result.outputSha256 = none ∧ result.outputSize = none ∧
        result.handlerId = none ∧ result.handlerVersion = none ∧ result.stagedOutput = none)
      "failed prior result contains output metadata"
  else do
    ensure (result.diagnostics = []) "available prior result contains failure diagnostics"
    let representation := expectedRepresentation operation
    match result.stagedOutput with
    | none => throw "prior available result metadata is invalid"
    | some output =>
      ensure (result.representationId = some (representationId sha256 fingerprint representation) ∧
          result.outputSha256 = some output.outputSha256 ∧ result.outputSize = some output.outputSize ∧
          result.handlerId = operation.handlerId ∧ result.handlerVersion = operation.handlerVersion ∧
          output.representation = representation ∧ output.stagingId = target.processingId ∧
          isSha256HexDigest output.outputSha256)
        "prior available result metadata is invalid"
      if operation.operation = "raw" then
        ensure (output.path = target.body.path ∧ output.outputSha256 = target.body.sha256 ∧
            output.outputSize = target.body.byteSize)
          "prior raw reference differs from selected body"
      else
        ensure (output.path = derivedPath sha256 target operation output.outputSha256)
          "prior derived output path is stale"

/-! ## The worker -/

structure HandlerRegistration where
  handlerId : String
  handlerVersion : String
  /-- The encoded output, or the type name of the exception. -/
  handler : Bytes → Except String Bytes

/-- What one run finds besides the work order and its own records: the work-order and
route checks of the worker, the capabilities of the effective route as the worker and the
engine resolve them, the screen of the engine, the body file and the staging area. -/
structure ProcessingEnvironment where
  admits : Except String Unit
  expectedPins : OperationRequest → Option (List (Option String))
  registered : OperationRequest → Option (String × HandlerRegistration)
  identityMismatch : Bytes → Bool
  body : Except String Bytes
  stages : Bytes → Bool
  startedAtUtc : String
  finishedAtUtc : String
  times : startedAtUtc ≠ "" ∧ finishedAtUtc ≠ ""

inductive EngineOutcome where
  | ok (outputKind : String) (output : Bytes) (outputSha256 : String) (outputByteSize : Nat)
      (handlerId handlerVersion : String)
  | failed (error : String)
  | unsupported (error : String)

def operationOutputKind (operation : String) : Option String :=
  if operation = "raw" then some "raw_bytes"
  else if operation = "render_to_txt" then some "text"
  else if operation = "render_to_xml" then some "xml"
  else none

/-- `_validate_input`, but for the types of the request's fields. -/
def validateInput (source : Bytes) : Option String :=
  if target.body.byteSize ≠ source.length then some "source_size_mismatch"
  else if target.body.sha256 ≠ sha256 source then some "source_digest_mismatch"
  else if stripChars target.effectivePath.toList = [] then some "invalid_selected_path"
  else none

/-- `_execute_operation`; a request of the worker has one source. -/
def executeOperation (env : ProcessingEnvironment) (operation : OperationRequest)
    (source : Bytes) : EngineOutcome :=
  match operationOutputKind operation.operation with
  | none => .unsupported "unknown_operation"
  | some kind =>
    if operation.outputKind.getD "" ≠ kind then .failed "operation_output_kind_mismatch"
    else match validateInput sha256 target source with
    | some error => .failed error
    | none =>
      match env.registered operation with
      | none => .unsupported "handler_not_registered"
      | some (capabilityVersion, registration) =>
        if operation.operation = "render_to_xml" ∧ target.targetRole = "primary" ∧
            env.identityMismatch source then
          .unsupported "primary_document_identity_mismatch"
        else if operation.capabilityVersion.getD "" ≠ capabilityVersion ∨
            operation.handlerId.any (· ≠ registration.handlerId) ∨
            operation.handlerVersion.any (· ≠ registration.handlerVersion) then
          .failed "handler_pin_mismatch"
        else match registration.handler source with
        | .error name => .failed ("handler_failed:" ++ name)
        | .ok output =>
          if operation.operation = "raw" ∧ output ≠ source then .failed "raw_handler_changed_source"
          else .ok kind output (sha256 output) output.length registration.handlerId
            registration.handlerVersion

/-- What `_operation_results` settles about an operation. -/
inductive Finding where
  | settled (status : ResultStatus) (code detail : String)
  | staged (output : StagedOutputRef) (handlerId handlerVersion : Option String)

def stageOutcome (env : ProcessingEnvironment) (operation : OperationRequest) : EngineOutcome → Finding
  | .failed error => .settled .failed error "The engine did not produce an admitted operation output."
  | .unsupported error =>
    .settled .unsupported error "The engine did not produce an admitted operation output."
  | .ok kind output outputSha256 outputByteSize handlerId handlerVersion =>
    if outputByteSize ≠ output.length ∨ sha256 output ≠ outputSha256 then
      .settled .failed "output_identity_mismatch" "The engine output failed digest or size validation."
    else if env.stages output then
      .staged ⟨target.processingId, derivedPath sha256 target operation outputSha256,
        if kind = "text" then "text_normalized" else "xml", outputSha256, outputByteSize⟩
        (some handlerId) (some handlerVersion)
    else .settled .failed "output_staging_failed" "The derived output could not be staged and verified."

/-- The body of the loop in `_operation_results` for an operation that is not reused. -/
def findOperation (env : ProcessingEnvironment) (source : Option Bytes) (selected : List String)
    (operation : OperationRequest) : Except String Finding :=
  if !operation.requested then pure (.settled .notRequested "" "")
  else if operation.supportStatus = .unsupported then
    pure (.settled .unsupported "capability_unsupported"
      "The pinned operation is unsupported for this target.")
  else if operation.supportStatus = .notEvaluated then
    pure (.settled .blocked "capability_not_evaluated"
      "The pinned operation has no evaluated capability.")
  else if operation.operationId ∉ selected then
    throw "requested operation is neither selected nor reused"
  else if operation.operation = "raw" then
    pure (.staged ⟨target.processingId, target.body.path, "raw", target.body.sha256, target.body.byteSize⟩
      operation.handlerId operation.handlerVersion)
  else if stripChars (operation.sourceRequestId.getD "").toList = [] then
    pure (.settled .failed "source_request_missing"
      "The supported operation has no pinned source request.")
  else match env.expectedPins operation with
  | none => pure (.settled .unsupported "route_unsupported"
      "No registered handler admits this effective document route.")
  | some expected =>
    if operation.pins ≠ expected then
      pure (.settled .failed "capability_pin_mismatch"
        "The pinned operation does not match the effective document route.")
    else match source with
    | none => pure (.settled .failed "source_unavailable"
        "Source bytes are not available for processing.")
    | some bytes =>
      pure (stageOutcome sha256 target env operation
        (executeOperation sha256 target env operation bytes))

def Finding.result (operation : OperationRequest) : Finding → OperationResult
  | .settled status code detail => {
      operationId := operation.operationId
      operationFingerprint := operationFingerprint sha256 target operation
      status := status
      representationId := none
      outputSha256 := none
      outputSize := none
      handlerId := none
      handlerVersion := none
      diagnostics := if code = "" then [] else [⟨code, detail⟩]
      stagedOutput := none }
  | .staged output handlerId handlerVersion => {
      operationId := operation.operationId
      operationFingerprint := operationFingerprint sha256 target operation
      status := .available
      representationId := some (representationId sha256 (operationFingerprint sha256 target operation)
        output.representation)
      outputSha256 := some output.outputSha256
      outputSize := some output.outputSize
      handlerId := handlerId
      handlerVersion := handlerVersion
      diagnostics := []
      stagedOutput := some output }

def operationResult (env : ProcessingEnvironment) (source : Option Bytes)
    (prior : List OperationResult) (selected : List String) (operation : OperationRequest) :
    Except String OperationResult :=
  match prior.find? (·.operationId = operation.operationId) with
  | some result => pure result
  | none => (findOperation sha256 target env source selected operation).map (·.result sha256 target operation)

def operationNames : List String := ["raw", "render_to_txt", "render_to_xml"]

def noReceiptDiagnostics : List String := ["invalid_source_bytes", "invalid_source_size",
  "source_size_mismatch", "source_digest_mismatch", "invalid_source_count",
  "missing_or_ambiguous_source"]

def validateMandatoryRaw (env : ProcessingEnvironment) : Except String OperationRequest :=
  match target.operations.filter (·.operation = "raw") with
  | [raw] => do
    ensure (raw.requested ∧ raw.supportStatus = .supported ∧
        stripChars (raw.sourceRequestId.getD "").toList ≠ [] ∧ env.expectedPins raw = some raw.pins)
      "matched acquired target lacks mandatory pinned raw"
    pure raw
  | _ => throw "matched acquired target lacks mandatory pinned raw"

def readBoundedSource (env : ProcessingEnvironment) : Except String Bytes := do
  let source ← env.body
  ensure (source.length = target.body.byteSize) "selected source size differs from its pinned metadata"
  pure source

def validatePriorResults (prior : List OperationResult) : Except String Unit :=
  prior.forM fun result =>
    match target.operations.find? (·.operationId = result.operationId) with
    | none => pure ()
    | some operation => validatePriorOperationResult sha256 target operation result

/-- `derived_selected`: an operation besides raw is executed. -/
def derivedSelected (selected : List String) : Bool :=
  target.operations.any fun operation =>
    operation.eligible && operation.operationId ∈ selected && operation.operation ≠ "raw"

def readSource (env : ProcessingEnvironment) (selected : List String) : Except String (Option Bytes) :=
  if derivedSelected target selected then (readBoundedSource target env).map some else pure none

def RawPreserved (raw : OperationRequest) (result : OperationResult) : Prop :=
  result.operationId = raw.operationId ∧ result.status = .available ∧
    result.outputSha256 = some target.body.sha256 ∧ result.outputSize = some target.body.byteSize ∧
    result.stagedOutput.any (·.path = target.body.path)

instance (raw : OperationRequest) (result : OperationResult) : Decidable (RawPreserved target raw result) :=
  inferInstanceAs (Decidable (_ ∧ _))

def receiptRefused (results : List OperationResult) : Bool :=
  results.any fun result => result.diagnostics.any (·.code ∈ noReceiptDiagnostics)

/-- The results of a call, and whether the body has a consumption receipt afterwards. The
assessment of exhibits, a diagnostic of the finished results, is left out. -/
def processTarget (env : ProcessingEnvironment) (receipt : Bool)
    (priorResults : Option (List OperationResult)) (selectedOperationIds : Option (List String)) :
    Except String (List OperationResult × Bool) := do
  ensure (∀ operation ∈ target.operations,
      operation.operationId ≠ "" ∧ operation.operation ∈ operationNames) "operation name is invalid"
  ensure (∀ operation ∈ target.operations, operation.eligible → target.allowed operation)
    "requested operation is not allowed by the form-family profile"
  let (prior, selected) ← selectOperationExecution target.operations priorResults selectedOperationIds
  ensure (isSha256HexDigest target.body.sha256 ∧ isSha256HexDigest target.body.sourceResponseSha256)
    "staged body metadata is invalid"
  env.admits
  let raw ← validateMandatoryRaw target env
  validatePriorResults sha256 target prior
  let source ← readSource target env selected
  let bodyConsumed := derivedSelected target selected || raw.operationId ∈ selected
  let results ← target.operations.mapM (operationResult sha256 target env source prior selected)
  ensure (∃ result ∈ results, RawPreserved target raw result)
    "mandatory raw operation did not preserve selected bytes"
  pure (results, receipt || (bodyConsumed && !receiptRefused results))

/-! ## Result manifests -/

structure ResultEntry where
  operationId : String
  operationFingerprint : String
  status : ResultStatus
  representationId : Option String
  outputSha256 : Option String
  outputSize : Option Nat
  resultHandlerId : Option String
  resultHandlerVersion : Option String
  diagnosticCodes : List String
  stagedOutput : Option StagedOutputRef
  deriving DecidableEq

structure ResultManifest where
  bodyVerifiedByProcessing : Bool
  operations : List ResultEntry
  deriving DecidableEq

def resultEntry (operation : OperationRequest) (result : OperationResult) : Except String ResultEntry := do
  match result.stagedOutput with
  | none => ensure (result.status ≠ .available) "available processing output has no staged reference"
  | some output =>
    if operation.operation = "raw" then
      ensure (result.status = .available ∧ output.path = target.body.path ∧
          output.stagingId = target.processingId ∧ output.representation = "raw" ∧
          output.outputSha256 = target.body.sha256 ∧ output.outputSize = target.body.byteSize ∧
          result.outputSha256 = some target.body.sha256 ∧ result.outputSize = some target.body.byteSize)
        "raw processing reference differs from selected body"
    else
      ensure (some output.outputSha256 = result.outputSha256 ∧ some output.outputSize = result.outputSize)
        "processing output metadata differs from staged bytes"
  pure {
    operationId := result.operationId
    operationFingerprint := result.operationFingerprint
    status := result.status
    representationId := result.representationId
    outputSha256 := result.outputSha256
    outputSize := result.outputSize
    resultHandlerId := result.handlerId
    resultHandlerVersion := result.handlerVersion
    diagnosticCodes := result.diagnostics.map (·.code)
    stagedOutput := result.stagedOutput }

def persistProcessingResult (results : List OperationResult) (receipt : Bool) :
    Except String ResultManifest := do
  ensure ((results.map (·.operationId)).dedup.Perm (target.rows.map (·.operationId)))
    "processing result coverage differs from resolved work order"
  let entries ← results.mapM fun result =>
    match target.operations.find? (·.operationId = result.operationId) with
    | none => throw "processing result coverage differs from resolved work order"
    | some operation => resultEntry target operation result
  pure ⟨receipt, entries⟩

/-- The checks of `_read_prior_processing_result` on one entry. -/
def checkEntry (entry : ResultEntry) : Except String Unit := do
  match target.operations.find? (·.operationId = entry.operationId) with
  | none => throw "processing result manifest operation identity differs"
  | some operation =>
    ensure (isSha256HexDigest entry.operationFingerprint) "processing result manifest fingerprint is invalid"
    match entry.stagedOutput with
    | none => ensure (entry.status ≠ .available) "available processing result has no staged output"
    | some output =>
      if operation.operation = "raw" then
        ensure (entry.status = .available ∧ output.path = target.body.path ∧
            output.stagingId = target.processingId ∧ output.representation = "raw" ∧
            output.outputSha256 = target.body.sha256 ∧ output.outputSize = target.body.byteSize ∧
            entry.outputSha256 = some target.body.sha256 ∧ entry.outputSize = some target.body.byteSize)
          "raw result reference differs from selected body"
      else
        ensure (isSha256HexDigest output.outputSha256 ∧ entry.outputSha256 = some output.outputSha256 ∧
            entry.outputSize = some output.outputSize)
          "processing result staged output is missing or corrupt"

def readPriorProcessingResult (receipt : Bool) : Option ResultManifest → Except String (Option ResultManifest)
  | none => pure none
  | some manifest => do
    ensure (manifest.bodyVerifiedByProcessing = receipt)
      "processing result receipt verification flag is inconsistent"
    ensure (manifest.operations.length = target.rows.length)
      "processing result manifest operation coverage differs"
    ensure (manifest.operations.map (·.operationId)).Nodup
      "processing result manifest operation identity differs"
    manifest.operations.forM (checkEntry target)
    pure (some manifest)

/-- The result of an entry, as `_prior_results` rebuilds it. -/
def ResultEntry.reused (entry : ResultEntry) : OperationResult where
  operationId := entry.operationId
  operationFingerprint := entry.operationFingerprint
  status := entry.status
  representationId := entry.representationId
  outputSha256 := entry.outputSha256
  outputSize := entry.outputSize
  handlerId := entry.resultHandlerId
  handlerVersion := entry.resultHandlerVersion
  diagnostics := entry.diagnosticCodes.map fun code => ⟨code, "reused"⟩
  stagedOutput := entry.stagedOutput

def priorResults (manifest : ResultManifest) (operationIds : List String) : List OperationResult :=
  (manifest.operations.filter fun entry =>
    entry.status ∈ [.available, .blocked, .failed] && entry.operationId ∈ operationIds).map
    ResultEntry.reused
end
end EdgarSec.Acquisition.Processing
