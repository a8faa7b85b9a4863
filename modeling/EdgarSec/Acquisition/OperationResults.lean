import EdgarSec.Acquisition.OperationProcessing
import EdgarSec.Acquisition.Ledger

/-! What the worker gives for the operations of a target: every result fits its operation, is
accepted when it is read back from a manifest, and is sound again. -/

namespace EdgarSec.Acquisition.Processing
open Foundation Lib FilingCatalog

variable {sha256 : Bytes → String} {target : AcquiredTarget} {env : ProcessingEnvironment}

theorem find?_key {α : Type} {key : α → String} {l : List α} (hnodup : (l.map key).Nodup) {a : α}
    (ha : a ∈ l) : l.find? (fun b => key b = key a) = some a := by
  induction l with
  | nil => cases ha
  | cons b l ih =>
    obtain ⟨hb, hnodup⟩ := List.nodup_cons.mp hnodup
    rcases List.mem_cons.mp ha with rfl | ha
    · rw [List.find?_cons_of_pos (by simp)]
    · have hne : key b ≠ key a := fun h => hb (h ▸ List.mem_map_of_mem ha)
      rw [List.find?_cons_of_neg (by simpa using hne)]
      exact ih hnodup ha

/-! ## Requests -/

theorem operationRequest_ok {row : WorkOrderOperationSeed} {operation : OperationRequest}
    (h : operationRequest row = .ok operation) :
    operation.operationId = row.operationId ∧ operation.operation = row.operation ∧
      operation.supportStatus = row.supportStatus ∧
      operation.requested = (row.selected || (row.requested &&
        (row.operation = "raw" || row.supportStatus = .unsupported))) ∧
      (row.supportStatus = .supported → operation.handlerId.isSome ∧ operation.handlerVersion.isSome) := by
  simp only [operationRequest, bind_eq_ok, ensure_eq_ok] at h
  obtain ⟨_, hpins, _, -, _, -, h⟩ := h
  cases h
  refine ⟨rfl, rfl, rfl, rfl, fun hsupported => ?_⟩
  have hall := hpins hsupported
  simp only [WorkOrderOperationSeed.pins, List.all_cons, List.all_nil, Bool.and_eq_true] at hall
  exact ⟨hall.2.2.1, hall.2.2.2.1⟩

theorem exists_row {operation : OperationRequest} (h : operation ∈ target.operations) :
    ∃ row ∈ target.rows, operationRequest row = .ok operation := by
  have hrequests := target.requests
  simp only [operationRequests, bind_eq_ok, ensure_eq_ok] at hrequests
  obtain ⟨operations, hmap, _, -, hpure⟩ := hrequests
  cases hpure
  exact (mem_mapM hmap).mp h

theorem operationIds_operations (target : AcquiredTarget) :
    operationIds target.operations = target.rows.map (·.operationId) := by
  have hrequests := target.requests
  simp only [operationRequests, bind_eq_ok, ensure_eq_ok] at hrequests
  obtain ⟨operations, hmap, _, -, hpure⟩ := hrequests
  cases hpure
  exact map_mapM hmap fun row _ operation h => (operationRequest_ok h).1

theorem nodup_operationIds (target : AcquiredTarget) : (operationIds target.operations).Nodup := by
  rw [operationIds_operations]
  exact target.nodup

theorem find_operation {operation : OperationRequest} (h : operation ∈ target.operations) :
    target.operations.find? (fun other => other.operationId = operation.operationId) = some operation :=
  find?_key (nodup_operationIds target) h

theorem eq_of_operationId {a b : OperationRequest} (ha : a ∈ target.operations)
    (hb : b ∈ target.operations) (h : a.operationId = b.operationId) : a = b := by
  have hfind := find_operation ha
  rw [h, find_operation hb] at hfind
  exact (Option.some.inj hfind).symm

theorem operationId_ne {operation : OperationRequest} (h : operation ∈ target.operations) :
    operation.operationId ≠ "" := by
  obtain ⟨row, hrow, hrequest⟩ := exists_row h
  rw [(operationRequest_ok hrequest).1]
  exact (target.resolved row hrow).id_ne

theorem supported_of_selected {state : OperationState} (hcheck : state.check = true)
    (hselected : state.selected = true) : state.requested = true ∧ state.supportStatus = .supported := by
  simp only [OperationState.check, hselected, Bool.not_true, Bool.and_false, Bool.false_and,
    Bool.false_or, Bool.or_false, Bool.and_true, Bool.and_eq_true, decide_eq_true_eq] at hcheck
  tauto

theorem status_of_check {state : OperationState} (hcheck : state.check = true) :
    if state.selected then state.status ∈ [.pending, .blocked, .succeeded, .failed]
    else state.status ∈ [.notRequested, .notSelected, .unsupported] := by
  simp only [OperationState.check, Bool.and_eq_true] at hcheck
  have hstatus := hcheck.1.1.1.1.1.2
  generalize state.requested = requested at hstatus
  generalize state.requestMode = mode at hstatus
  generalize state.supportStatus = support at hstatus
  generalize state.selected = selected at hstatus
  generalize state.status = status at hstatus
  cases selected <;> cases status <;> simp at hstatus <;> decide

theorem eligible_iff {row : WorkOrderOperationSeed} {operation : OperationRequest}
    (hresolved : Resolved row) (h : operationRequest row = .ok operation) :
    operation.eligible = row.selected := by
  obtain ⟨-, hname, hsupport, hrequested, -⟩ := operationRequest_ok h
  unfold OperationRequest.eligible
  rw [hrequested, hsupport]
  cases hselected : row.selected with
  | true =>
    have hsupported : row.supportStatus = .supported := (supported_of_selected hresolved.check hselected).2
    simpa using hsupported
  | false =>
    have hraw : ¬ (row.operation = "raw" ∧ row.supportStatus = .supported) := by
      intro hraw
      have htrue := hresolved.raw_selected hraw.1 hraw.2
      rw [hselected] at htrue
      cases htrue
    cases hstatus : row.supportStatus <;> simp_all

/-! ## Findings -/

def Coded (code : String) : Prop := code ≠ "" ∧ code ≠ "target_processing_failed"

instance (code : String) : Decidable (Coded code) := inferInstanceAs (Decidable (_ ∧ _))

theorem coded_handler_failed (name : String) : Coded ("handler_failed:" ++ name) := by
  constructor
  · intro h
    have hlist := congrArg String.toList h
    rw [String.toList_append] at hlist
    cases hlist
  · intro h
    have hlist := congrArg String.toList h
    rw [String.toList_append] at hlist
    have hhead : some 'h' = some 't' := congrArg List.head? hlist
    exact absurd hhead (by decide)

theorem validateInput_code {source : Bytes} {error : String} (h : validateInput sha256 target source = some error) :
    Coded error := by
  unfold validateInput at h
  split_ifs at h <;> cases h <;> decide

theorem executeOperation_code {operation : OperationRequest} {source : Bytes} {error : String}
    (h : executeOperation sha256 target env operation source = .failed error ∨
      executeOperation sha256 target env operation source = .unsupported error) : Coded error := by
  generalize hout : executeOperation sha256 target env operation source = outcome at h
  unfold executeOperation at hout
  split at hout
  · rcases h with rfl | rfl <;> cases hout
    decide
  split at hout
  · rcases h with rfl | rfl <;> cases hout
    decide
  split at hout
  · next hinput =>
    rcases h with rfl | rfl <;> cases hout
    exact validateInput_code hinput
  split at hout
  · rcases h with rfl | rfl <;> cases hout
    decide
  split at hout
  · rcases h with rfl | rfl <;> cases hout
    decide
  split at hout
  · rcases h with rfl | rfl <;> cases hout
    decide
  split at hout
  · rcases h with rfl | rfl <;> cases hout
    exact coded_handler_failed _
  split at hout
  · rcases h with rfl | rfl <;> cases hout
    decide
  · rcases h with rfl | rfl <;> cases hout

theorem executeOperation_ok {operation : OperationRequest} {source output : Bytes} {kind digest handlerId handlerVersion : String}
    {size : Nat} (h : executeOperation sha256 target env operation source = .ok kind output digest size handlerId handlerVersion)
    (hid : operation.handlerId.isSome) (hversion : operation.handlerVersion.isSome) :
    operation.outputKind = some kind ∧ digest = sha256 output ∧ size = output.length ∧
      operation.handlerId = some handlerId ∧ operation.handlerVersion = some handlerVersion := by
  unfold executeOperation at h
  split at h
  · cases h
  next hkind =>
  split at h
  · cases h
  next houtput =>
  split at h
  · cases h
  split at h
  · cases h
  split at h
  · cases h
  split at h
  · cases h
  next hpins =>
  split at h
  · cases h
  split at h
  · cases h
  cases h
  have hne : kind ≠ "" := by
    unfold operationOutputKind at hkind
    split_ifs at hkind <;> cases hkind <;> decide
  have hgetD : operation.outputKind.getD "" = kind := not_ne_iff.mp houtput
  obtain ⟨handlerId, hid⟩ := Option.isSome_iff_exists.mp hid
  obtain ⟨handlerVersion, hversion⟩ := Option.isSome_iff_exists.mp hversion
  rw [hid, hversion] at hpins
  simp only [Option.any_some, not_or, decide_eq_true_eq, not_not] at hpins
  refine ⟨?_, rfl, rfl, ?_, ?_⟩
  · cases houtputKind : operation.outputKind with
    | none =>
      rw [houtputKind] at hgetD
      exact absurd hgetD.symm hne
    | some other =>
      rw [houtputKind] at hgetD
      exact congrArg some hgetD
  · rw [hid, hpins.2.1]
  · rw [hversion, hpins.2.2]

structure Stored (sha256 : Bytes → String) (target : AcquiredTarget) (operation : OperationRequest)
    (result : OperationResult) (output : StagedOutputRef) : Prop where
  ref : result.stagedOutput = some output
  diagnostics : result.diagnostics = []
  representationId : result.representationId =
    some (representationId sha256 (operationFingerprint sha256 target operation) (expectedRepresentation operation))
  outputSha256 : result.outputSha256 = some output.outputSha256
  outputSize : result.outputSize = some output.outputSize
  handlerId : result.handlerId = operation.handlerId
  handlerVersion : result.handlerVersion = operation.handlerVersion
  representation : output.representation = expectedRepresentation operation
  stagingId : output.stagingId = target.processingId
  raw : operation.operation = "raw" → output.path = target.body.path ∧
    output.outputSha256 = target.body.sha256 ∧ output.outputSize = target.body.byteSize
  derived : operation.operation ≠ "raw" → output.path = derivedPath sha256 target operation output.outputSha256 ∧
    isSha256HexDigest output.outputSha256 = true

structure Sound (sha256 : Bytes → String) (target : AcquiredTarget) (operation : OperationRequest)
    (result : OperationResult) : Prop where
  id : result.operationId = operation.operationId
  fingerprint : result.operationFingerprint = operationFingerprint sha256 target operation
  eligible : operation.eligible = true → result.status ∈ [.available, .failed, .unsupported]
  ineligible : operation.eligible = false → result.status ∈ [.notRequested, .unsupported, .blocked]
  bare : result.status ≠ .available → result.representationId = none ∧ result.outputSha256 = none ∧
    result.outputSize = none ∧ result.handlerId = none ∧ result.handlerVersion = none ∧
    result.stagedOutput = none
  stored : result.status = .available → ∃ output, Stored sha256 target operation result output
  coded : operation.eligible = true → result.status ≠ .available →
    ∃ code detail rest, result.diagnostics = ⟨code, detail⟩ :: rest ∧ Coded code

theorem sound_settled {operation : OperationRequest} {status : ResultStatus} {code detail : String}
    (heligible : operation.eligible = true) (hstatus : status ∈ [.failed, .unsupported]) (hcode : Coded code) :
    Sound sha256 target operation ((Finding.settled status code detail).result sha256 target operation) where
  id := rfl
  fingerprint := rfl
  eligible _ := List.mem_cons_of_mem _ hstatus
  ineligible h := by
    rw [heligible] at h
    cases h
  bare _ := ⟨rfl, rfl, rfl, rfl, rfl, rfl⟩
  stored h := by
    obtain rfl : status = .available := h
    exact absurd hstatus (by decide)
  coded _ _ := ⟨code, detail, [], if_neg hcode.1, hcode⟩

theorem sound_ineligible {operation : OperationRequest} {status : ResultStatus} {code detail : String}
    (heligible : operation.eligible = false) (hstatus : status ∈ [.notRequested, .unsupported, .blocked]) :
    Sound sha256 target operation ((Finding.settled status code detail).result sha256 target operation) where
  id := rfl
  fingerprint := rfl
  eligible h := by
    rw [heligible] at h
    cases h
  ineligible _ := hstatus
  bare _ := ⟨rfl, rfl, rfl, rfl, rfl, rfl⟩
  stored h := by
    obtain rfl : status = .available := h
    exact absurd hstatus (by decide)
  coded h := by
    rw [heligible] at h
    cases h

theorem sound_staged {operation : OperationRequest} {output : StagedOutputRef} {handlerId handlerVersion : Option String}
    (heligible : operation.eligible = true) (hid : handlerId = operation.handlerId)
    (hversion : handlerVersion = operation.handlerVersion)
    (hrepresentation : output.representation = expectedRepresentation operation)
    (hstaging : output.stagingId = target.processingId)
    (hraw : operation.operation = "raw" → output.path = target.body.path ∧
      output.outputSha256 = target.body.sha256 ∧ output.outputSize = target.body.byteSize)
    (hderived : operation.operation ≠ "raw" → output.path = derivedPath sha256 target operation output.outputSha256 ∧
      isSha256HexDigest output.outputSha256 = true) :
    Sound sha256 target operation ((Finding.staged output handlerId handlerVersion).result sha256 target operation) where
  id := rfl
  fingerprint := rfl
  eligible _ := List.mem_cons_self
  ineligible h := by
    rw [heligible] at h
    cases h
  bare h := absurd rfl h
  stored _ := ⟨output, {
    ref := rfl
    diagnostics := rfl
    representationId := by
      rw [← hrepresentation]
      rfl
    outputSha256 := rfl
    outputSize := rfl
    handlerId := hid
    handlerVersion := hversion
    representation := hrepresentation
    stagingId := hstaging
    raw := hraw
    derived := hderived }⟩
  coded _ h := absurd rfl h

theorem stageOutcome_ok {operation : OperationRequest} {kind handlerId handlerVersion : String} {output : Bytes} :
    stageOutcome sha256 target env operation (.ok kind output (sha256 output) output.length handlerId handlerVersion) =
      if env.stages output then
        .staged ⟨target.processingId, derivedPath sha256 target operation (sha256 output),
          if kind = "text" then "text_normalized" else "xml", sha256 output, output.length⟩
          (some handlerId) (some handlerVersion)
      else .settled .failed "output_staging_failed" "The derived output could not be staged and verified." := by
  show (if _ then _ else _) = _
  rw [if_neg]
  intro h
  rcases h with h | h
  · exact h rfl
  · exact h rfl

theorem sound_stageOutcome (hhex : ∀ bytes, isSha256HexDigest (sha256 bytes) = true) {operation : OperationRequest}
    {source : Bytes} (heligible : operation.eligible = true) (hraw : operation.operation ≠ "raw")
    (hid : operation.handlerId.isSome) (hversion : operation.handlerVersion.isSome) :
    Sound sha256 target operation ((stageOutcome sha256 target env operation
      (executeOperation sha256 target env operation source)).result sha256 target operation) := by
  cases hout : executeOperation sha256 target env operation source with
  | failed error =>
    exact sound_settled heligible List.mem_cons_self (executeOperation_code (Or.inl hout))
  | unsupported error =>
    exact sound_settled heligible (by decide) (executeOperation_code (Or.inr hout))
  | ok kind output digest size handlerId handlerVersion =>
    obtain ⟨hkind, rfl, rfl, hhandler, hhandlerVersion⟩ := executeOperation_ok hout hid hversion
    rw [stageOutcome_ok]
    split
    · refine sound_staged heligible hhandler.symm hhandlerVersion.symm ?_ rfl (fun h => absurd h hraw)
        fun _ => ⟨rfl, hhex output⟩
      unfold expectedRepresentation
      rw [if_neg hraw, hkind]
      simp
    · exact sound_settled heligible List.mem_cons_self (by decide)

theorem sound_findOperation (hhex : ∀ bytes, isSha256HexDigest (sha256 bytes) = true) {operation : OperationRequest}
    {source : Option Bytes} {selected : List String} {finding : Finding} (hop : operation ∈ target.operations)
    (h : findOperation sha256 target env source selected operation = .ok finding) :
    Sound sha256 target operation (finding.result sha256 target operation) := by
  obtain ⟨row, -, hrequest⟩ := exists_row hop
  obtain ⟨-, -, hsupport, -, hpins⟩ := operationRequest_ok hrequest
  unfold findOperation at h
  split at h
  · next hrequested =>
    cases h
    rw [Bool.not_eq_true'] at hrequested
    exact sound_ineligible (by simp [OperationRequest.eligible, hrequested]) (by decide)
  next hrequested =>
  split at h
  · next hunsupported =>
    cases h
    exact sound_ineligible (by simp [OperationRequest.eligible, hunsupported]) (by decide)
  next hunsupported =>
  split at h
  · next hevaluated =>
    cases h
    exact sound_ineligible (by simp [OperationRequest.eligible, hevaluated]) (by decide)
  next hevaluated =>
  have hsupported : operation.supportStatus = .supported := by
    cases hstatus : operation.supportStatus with
    | supported => rfl
    | unsupported => exact absurd hstatus hunsupported
    | notEvaluated => exact absurd hstatus hevaluated
  have heligible : operation.eligible = true := by
    simpa [OperationRequest.eligible, hsupported] using hrequested
  rw [hsupport] at hsupported
  split at h
  · cases h
  split at h
  · next hraw =>
    cases h
    exact sound_staged heligible rfl rfl (by simp [expectedRepresentation, hraw]) rfl
      (fun _ => ⟨rfl, rfl, rfl⟩) (fun hne => absurd hraw hne)
  next hraw =>
  split at h
  · cases h
    exact sound_settled heligible List.mem_cons_self (by decide)
  split at h
  · cases h
    exact sound_settled heligible (by decide) (by decide)
  split at h
  · cases h
    exact sound_settled heligible List.mem_cons_self (by decide)
  split at h
  · cases h
    exact sound_settled heligible List.mem_cons_self (by decide)
  · cases h
    exact sound_stageOutcome hhex heligible hraw (hpins hsupported).1 (hpins hsupported).2

/-! ## Manifests -/

def entryOf (result : OperationResult) : ResultEntry where
  operationId := result.operationId
  operationFingerprint := result.operationFingerprint
  status := result.status
  representationId := result.representationId
  outputSha256 := result.outputSha256
  outputSize := result.outputSize
  resultHandlerId := result.handlerId
  resultHandlerVersion := result.handlerVersion
  diagnosticCodes := result.diagnostics.map (·.code)
  stagedOutput := result.stagedOutput

theorem expectedRepresentation_raw {operation : OperationRequest} (h : operation.operation = "raw") :
    expectedRepresentation operation = "raw" := if_pos h

section Sound
variable {operation : OperationRequest} {result : OperationResult}

theorem Sound.resultEntry (h : Sound sha256 target operation result) :
    Processing.resultEntry target operation result = .ok (entryOf result) := by
  unfold Processing.resultEntry
  by_cases havailable : result.status = .available
  · obtain ⟨output, hstored⟩ := h.stored havailable
    rw [hstored.ref]
    by_cases hraw : operation.operation = "raw"
    · obtain ⟨hpath, hsha, hsize⟩ := hstored.raw hraw
      have hensure := hstored.representation
      rw [expectedRepresentation_raw hraw] at hensure
      simp only [if_pos hraw, bind_eq_ok, ensure_eq_ok]
      refine ⟨(), ⟨havailable, hpath, hstored.stagingId, hensure, hsha, hsize, ?_, ?_⟩, ?_⟩
      · rw [hstored.outputSha256, hsha]
      · rw [hstored.outputSize, hsize]
      · rw [← hstored.ref]
        rfl
    · simp only [if_neg hraw, bind_eq_ok, ensure_eq_ok]
      refine ⟨(), ⟨hstored.outputSha256.symm, hstored.outputSize.symm⟩, ?_⟩
      rw [← hstored.ref]
      rfl
  · have hnone := (h.bare havailable).2.2.2.2.2
    rw [hnone]
    simp only [bind_eq_ok, ensure_eq_ok]
    refine ⟨(), havailable, ?_⟩
    rw [← hnone]
    rfl

theorem Sound.checkEntry (hhex : ∀ bytes, isSha256HexDigest (sha256 bytes) = true)
    (hop : operation ∈ target.operations) (h : Sound sha256 target operation result) :
    Processing.checkEntry target (entryOf result) = .ok () := by
  have hfind : target.operations.find? (fun other => other.operationId = (entryOf result).operationId) = some operation := by
    rw [show (entryOf result).operationId = operation.operationId from h.id]
    exact find_operation hop
  have hfingerprint : isSha256HexDigest (entryOf result).operationFingerprint = true := by
    rw [show (entryOf result).operationFingerprint = operationFingerprint sha256 target operation from h.fingerprint]
    exact hhex _
  unfold Processing.checkEntry
  rw [hfind]
  simp only [bind_eq_ok, ensure_eq_ok]
  refine ⟨(), hfingerprint, ?_⟩
  by_cases havailable : result.status = .available
  · obtain ⟨output, hstored⟩ := h.stored havailable
    rw [show (entryOf result).stagedOutput = some output from hstored.ref]
    by_cases hraw : operation.operation = "raw"
    · obtain ⟨hpath, hsha, hsize⟩ := hstored.raw hraw
      have hrepresentation := hstored.representation
      rw [expectedRepresentation_raw hraw] at hrepresentation
      simp only [if_pos hraw, ensure_eq_ok]
      exact ⟨havailable, hpath, hstored.stagingId, hrepresentation, hsha, hsize,
        hsha ▸ hstored.outputSha256, hsize ▸ hstored.outputSize⟩
    · simp only [if_neg hraw, ensure_eq_ok]
      exact ⟨(hstored.derived hraw).2, hstored.outputSha256, hstored.outputSize⟩
  · rw [show (entryOf result).stagedOutput = none from (h.bare havailable).2.2.2.2.2]
    simp only [ensure_eq_ok]
    exact havailable

theorem Sound.reused (h : Sound sha256 target operation result) :
    Sound sha256 target operation (entryOf result).reused where
  id := h.id
  fingerprint := h.fingerprint
  eligible := h.eligible
  ineligible := h.ineligible
  bare := h.bare
  stored havailable := by
    obtain ⟨output, hstored⟩ := h.stored havailable
    refine ⟨output, { hstored with diagnostics := ?_ }⟩
    show (result.diagnostics.map (·.code)).map _ = []
    rw [hstored.diagnostics]
    rfl
  coded heligible havailable := by
    obtain ⟨code, detail, rest, hdiagnostics, hcoded⟩ := h.coded heligible havailable
    refine ⟨code, "reused", rest.map fun diagnostic => ⟨diagnostic.code, "reused"⟩, ?_, hcoded⟩
    show (result.diagnostics.map (·.code)).map _ = _
    rw [hdiagnostics, List.map_cons, List.map_cons, List.map_map]
    rfl

theorem Sound.validate (hbody : isSha256HexDigest target.body.sha256 = true)
    (h : Sound sha256 target operation result) (hreusable : result.status ∈ reusableStatuses) :
    validatePriorOperationResult sha256 target operation result = .ok () := by
  unfold validatePriorOperationResult
  simp only [bind_eq_ok, ensure_eq_ok]
  refine ⟨(), h.fingerprint, (), hreusable, ?_⟩
  by_cases havailable : result.status = .available
  · obtain ⟨output, hstored⟩ := h.stored havailable
    rw [if_neg (fun hne => hne havailable), hstored.ref]
    have hhex : isSha256HexDigest output.outputSha256 = true := by
      by_cases hraw : operation.operation = "raw"
      · rw [(hstored.raw hraw).2.1]
        exact hbody
      · exact (hstored.derived hraw).2
    simp only [bind_eq_ok, ensure_eq_ok]
    refine ⟨(), hstored.diagnostics, (), ⟨hstored.representationId, hstored.outputSha256, hstored.outputSize,
      hstored.handlerId, hstored.handlerVersion, hstored.representation, hstored.stagingId, hhex⟩, ?_⟩
    by_cases hraw : operation.operation = "raw"
    · rw [if_pos hraw, ensure_eq_ok]
      exact hstored.raw hraw
    · rw [if_neg hraw, ensure_eq_ok]
      exact (hstored.derived hraw).1
  · rw [if_pos havailable, ensure_eq_ok]
    exact h.bare havailable

end Sound

/-! ## Calls of the worker -/

theorem mem_eligibleIds {operations : List OperationRequest} {id : String} :
    id ∈ eligibleIds operations ↔ ∃ operation ∈ operations, operation.eligible = true ∧ operation.operationId = id := by
  simp only [eligibleIds, operationIds, List.mem_map, List.mem_filter, and_assoc]

theorem checkPrior_ok {operations : List OperationRequest} {prior : List OperationResult} {seen : List String}
    (hnodup : (prior.map (·.operationId)).Nodup) (hseen : ∀ result ∈ prior, result.operationId ∉ seen)
    (hprior : ∀ result ∈ prior, result.operationId ∈ eligibleIds operations ∧ result.status ∈ reusableStatuses ∧
      ∀ operation ∈ operations, operation.operationId = result.operationId → operation.operation = "raw" →
        result.status = .available) : checkPrior operations seen prior = .ok () := by
  induction prior generalizing seen with
  | nil => rfl
  | cons result rest ih =>
    obtain ⟨hfresh, hnodup⟩ := List.nodup_cons.mp hnodup
    obtain ⟨heligible, hreusable, hraw⟩ := hprior result List.mem_cons_self
    have hknown : result.operationId ∈ operationIds operations := by
      obtain ⟨operation, hop, -, hid⟩ := mem_eligibleIds.mp heligible
      exact List.mem_map.mpr ⟨operation, hop, hid⟩
    have hrest : ∀ other ∈ rest, other.operationId ∉ result.operationId :: seen := by
      intro other hother hmem
      rcases List.mem_cons.mp hmem with heq | hmem
      · exact hfresh (List.mem_map.mpr ⟨other, hother, heq⟩)
      · exact hseen other (List.mem_cons_of_mem _ hother) hmem
    unfold checkPrior
    simp only [bind_eq_ok, ensure_eq_ok]
    exact ⟨(), hseen result List.mem_cons_self, (), hknown, (), heligible, (), hreusable, (), hraw,
      ih hnodup hrest fun other hother => hprior other (List.mem_cons_of_mem _ hother)⟩

theorem selectOperationExecution_none {operations : List OperationRequest} {prior : List OperationResult}
    {selected : List String} (h : selectOperationExecution operations none none = .ok (prior, selected)) :
    prior = [] ∧ selected = eligibleIds operations := by
  simp only [selectOperationExecution, selectedIds, bind_eq_ok, ensure_eq_ok] at h
  obtain ⟨_, -, _, -, ids, hids, _, -, _, -, h⟩ := h
  cases h
  cases hids
  exact ⟨rfl, by simp⟩

theorem selectOperationExecution_some {operations : List OperationRequest} {prior prior' : List OperationResult}
    {selected selected' : List String}
    (h : selectOperationExecution operations (some prior) (some selected) = .ok (prior', selected')) :
    prior' = prior ∧ selected' = selected ∧
      ∀ id ∈ eligibleIds operations, id ∈ selected ∨ id ∈ prior.map (·.operationId) := by
  simp only [selectOperationExecution, selectedIds, bind_eq_ok, ensure_eq_ok] at h
  obtain ⟨_, -, _, -, ids, ⟨_, -, _, -, _, -, hids⟩, _, -, _, hcover, h⟩ := h
  cases h
  cases hids
  exact ⟨rfl, rfl, hcover.1⟩

theorem selectOperationExecution_ok {operations : List OperationRequest} {prior : List OperationResult}
    {selected : List String} (hnodup : (operationIds operations).Nodup)
    (hprior : checkPrior operations [] prior = .ok ()) (hselected : selected.Nodup)
    (hcover : ∀ id, id ∈ eligibleIds operations ↔ id ∈ selected ∨ id ∈ prior.map (·.operationId))
    (hdisjoint : ∀ id ∈ selected, id ∉ prior.map (·.operationId)) :
    selectOperationExecution operations (some prior) (some selected) = .ok (prior, selected) := by
  have hsubset : ∀ id ∈ selected, id ∈ eligibleIds operations := fun id hid => (hcover id).mpr (Or.inl hid)
  have hknown : ∀ id ∈ selected, id ∈ operationIds operations := by
    intro id hid
    obtain ⟨operation, hop, -, hid⟩ := mem_eligibleIds.mp (hsubset id hid)
    exact List.mem_map.mpr ⟨operation, hop, hid⟩
  simp only [selectOperationExecution, selectedIds, bind_eq_ok, ensure_eq_ok]
  refine ⟨(), hnodup, (), hprior, selected, ⟨(), hselected, (), hknown, (), hsubset, rfl⟩, (), hdisjoint, (),
    ⟨fun id hid => (hcover id).mp hid, hsubset, ?_⟩, rfl⟩
  exact fun result hresult => (hcover _).mpr (Or.inr (List.mem_map_of_mem hresult))

structure Covers (sha256 : Bytes → String) (target : AcquiredTarget) (results : List OperationResult) : Prop where
  ids : results.map (·.operationId) = operationIds target.operations
  sound : ∀ operation ∈ target.operations, ∀ result ∈ results, result.operationId = operation.operationId →
    Sound sha256 target operation result
  body : isSha256HexDigest target.body.sha256 = true
  raw : ∀ operation ∈ target.operations, operation.operation = "raw" → operation.eligible = true ∧
    ∃ result ∈ results, result.operationId = operation.operationId ∧ result.status = .available

section Covers
variable {results : List OperationResult}

theorem Covers.exists_result (h : Covers sha256 target results) {operation : OperationRequest}
    (hop : operation ∈ target.operations) : ∃ result ∈ results, result.operationId = operation.operationId := by
  have hmem : operation.operationId ∈ results.map (·.operationId) := by
    rw [h.ids]
    exact List.mem_map_of_mem hop
  exact List.mem_map.mp hmem

theorem Covers.exists_operation (h : Covers sha256 target results) {result : OperationResult}
    (hresult : result ∈ results) : ∃ operation ∈ target.operations, result.operationId = operation.operationId := by
  have hmem : result.operationId ∈ operationIds target.operations := by
    rw [← h.ids]
    exact List.mem_map_of_mem hresult
  obtain ⟨operation, hop, hid⟩ := List.mem_map.mp hmem
  exact ⟨operation, hop, hid.symm⟩

theorem Covers.nodup (h : Covers sha256 target results) : (results.map (·.operationId)).Nodup := by
  rw [h.ids]
  exact nodup_operationIds target

theorem Covers.find (h : Covers sha256 target results) {result : OperationResult} (hresult : result ∈ results) :
    results.find? (fun other => other.operationId = result.operationId) = some result :=
  find?_key h.nodup hresult

theorem Covers.eq (h : Covers sha256 target results) {a b : OperationResult} (ha : a ∈ results) (hb : b ∈ results)
    (hid : a.operationId = b.operationId) : a = b := by
  have hfind := h.find ha
  rw [hid, h.find hb] at hfind
  exact (Option.some.inj hfind).symm

theorem Covers.persist (h : Covers sha256 target results) (receipt : Bool) :
    persistProcessingResult target results receipt = .ok ⟨receipt, results.map entryOf⟩ := by
  simp only [persistProcessingResult, bind_eq_ok, ensure_eq_ok]
  refine ⟨(), ?_, _, mapM_eq_ok_map ?_, rfl⟩
  · rw [List.Nodup.dedup h.nodup, h.ids, operationIds_operations]
  · intro result hresult
    obtain ⟨operation, hop, hid⟩ := h.exists_operation hresult
    rw [hid, find_operation hop]
    exact (h.sound operation hop result hresult hid).resultEntry

theorem Covers.read (hhex : ∀ bytes, isSha256HexDigest (sha256 bytes) = true) (h : Covers sha256 target results)
    (receipt : Bool) : readPriorProcessingResult target receipt (some ⟨receipt, results.map entryOf⟩) =
      .ok (some ⟨receipt, results.map entryOf⟩) := by
  have hids : (results.map entryOf).map (·.operationId) = operationIds target.operations := by
    rw [List.map_map]
    exact h.ids
  simp only [readPriorProcessingResult, bind_eq_ok, ensure_eq_ok]
  refine ⟨(), trivial, (), ?_, (), ?_, (), ?_, rfl⟩
  · have hlength := congrArg List.length hids
    rw [operationIds_operations] at hlength
    simpa using hlength
  · rw [hids]
    exact nodup_operationIds target
  · rw [forM_eq_ok]
    intro entry hentry
    obtain ⟨result, hresult, rfl⟩ := List.mem_map.mp hentry
    obtain ⟨operation, hop, hid⟩ := h.exists_operation hresult
    exact (h.sound operation hop result hresult hid).checkEntry hhex hop

end Covers

theorem sound_operationResult (hhex : ∀ bytes, isSha256HexDigest (sha256 bytes) = true)
    {operation : OperationRequest} {source : Option Bytes} {prior : List OperationResult} {selected : List String}
    {result : OperationResult} (hop : operation ∈ target.operations)
    (hprior : ∀ result ∈ prior, result.operationId = operation.operationId → Sound sha256 target operation result)
    (h : operationResult sha256 target env source prior selected operation = .ok result) :
    Sound sha256 target operation result := by
  unfold operationResult at h
  cases hfind : prior.find? (fun other => other.operationId = operation.operationId) with
  | some other =>
    rw [hfind] at h
    cases h
    exact hprior result (List.mem_of_find?_eq_some hfind) (by simpa using List.find?_some hfind)
  | none =>
    rw [hfind] at h
    obtain ⟨finding, hfinding, rfl⟩ := map_eq_ok.mp h
    exact sound_findOperation hhex hop hfinding

structure Returned (sha256 : Bytes → String) (target : AcquiredTarget) (env : ProcessingEnvironment)
    (prior : List OperationResult) (selected : List String) (raw : OperationRequest) (source : Option Bytes)
    (results : List OperationResult) : Prop where
  names : ∀ operation ∈ target.operations, operation.operationId ≠ "" ∧ operation.operation ∈ operationNames
  allowed : ∀ operation ∈ target.operations, operation.eligible = true → target.allowed operation = true
  body : isSha256HexDigest target.body.sha256 = true ∧ isSha256HexDigest target.body.sourceResponseSha256 = true
  admits : env.admits = .ok ()
  mandatory : validateMandatoryRaw target env = .ok raw
  valid : validatePriorResults sha256 target prior = .ok ()
  read : readSource target env selected = .ok source
  gives : target.operations.mapM (operationResult sha256 target env source prior selected) = .ok results
  preserved : ∃ result ∈ results, RawPreserved target raw result

theorem processTarget_eq_ok {receipt receipt' : Bool} {given : Option (List OperationResult)} {ids : Option (List String)}
    {results : List OperationResult} : processTarget sha256 target env receipt given ids = .ok (results, receipt') ↔
    ∃ prior selected raw source, selectOperationExecution target.operations given ids = .ok (prior, selected) ∧
      Returned sha256 target env prior selected raw source results ∧
      receipt' = (receipt || ((derivedSelected target selected || raw.operationId ∈ selected) && !receiptRefused results)) := by
  simp only [processTarget, bind_eq_ok, ensure_eq_ok]
  constructor
  · rintro ⟨_, hnames, _, hallowed, ⟨prior, selected⟩, hselect, _, hbody, _, hadmits, raw, hraw, _, hprior, source, hsource,
      found, hresults, _, hpreserved, hpure⟩
    obtain ⟨rfl, rfl⟩ := Prod.mk.inj (Except.ok.inj hpure)
    exact ⟨prior, selected, raw, source, hselect,
      ⟨hnames, hallowed, hbody, hadmits, hraw, hprior, hsource, hresults, hpreserved⟩, rfl⟩
  · rintro ⟨prior, selected, raw, source, hselect, h, rfl⟩
    exact ⟨(), h.names, (), h.allowed, (prior, selected), hselect, (), h.body, (), h.admits, raw, h.mandatory, (), h.valid,
      source, h.read, results, h.gives, (), h.preserved, rfl⟩

theorem validateMandatoryRaw_ok {raw : OperationRequest} (h : validateMandatoryRaw target env = .ok raw) :
    raw ∈ target.operations ∧ raw.eligible = true ∧ raw.operation = "raw" ∧
      ∀ operation ∈ target.operations, operation.operation = "raw" → operation = raw := by
  unfold validateMandatoryRaw at h
  split at h
  · rename_i other hfilter
    simp only [bind_eq_ok, ensure_eq_ok] at h
    obtain ⟨_, hraw, hpure⟩ := h
    cases hpure
    have hmem : ∀ operation, operation ∈ target.operations ∧ operation.operation = "raw" ↔ operation = raw := by
      intro operation
      have hiff := congrArg (operation ∈ ·) hfilter
      simpa using hiff
    refine ⟨((hmem raw).mpr rfl).1, by simp [OperationRequest.eligible, hraw.1, hraw.2.1], ((hmem raw).mpr rfl).2, ?_⟩
    exact fun operation hop hname => (hmem operation).mp ⟨hop, hname⟩
  · cases h

theorem Returned.covers (hhex : ∀ bytes, isSha256HexDigest (sha256 bytes) = true) {prior : List OperationResult}
    {selected : List String} {raw : OperationRequest} {source : Option Bytes} {results : List OperationResult}
    (hprior : ∀ operation ∈ target.operations, ∀ result ∈ prior, result.operationId = operation.operationId →
      Sound sha256 target operation result)
    (h : Returned sha256 target env prior selected raw source results) : Covers sha256 target results := by
  have hsound : ∀ operation ∈ target.operations, ∀ result,
      operationResult sha256 target env source prior selected operation = .ok result → Sound sha256 target operation result :=
    fun operation hop result => sound_operationResult hhex hop (hprior operation hop)
  have hids : results.map (·.operationId) = operationIds target.operations :=
    map_mapM h.gives fun operation hop result hresult => (hsound operation hop result hresult).id
  refine ⟨hids, ?_, h.body.1, ?_⟩
  · intro operation hop result hresult hid
    obtain ⟨other, hother, hok⟩ := (mem_mapM h.gives).mp hresult
    have hsoundOther := hsound other hother result hok
    have heq : operation = other := eq_of_operationId hop hother (hid.symm.trans hsoundOther.id)
    rwa [heq]
  · intro operation hop hname
    obtain ⟨hraw, heligible, -, hone⟩ := validateMandatoryRaw_ok h.mandatory
    obtain ⟨result, hresult, hid, havailable, -⟩ := h.preserved
    have heq := hone operation hop hname
    rw [heq]
    exact ⟨heligible, result, hresult, hid, havailable⟩

end EdgarSec.Acquisition.Processing
