import EdgarSec.Acquisition.ProcessingPhases
import EdgarSec.FilingCatalog.PlanPublication

/-! Retrying the failed operations of an acquired target beside the others. -/

namespace EdgarSec.Acquisition.Processing
open Foundation Lib FilingCatalog

variable {sha256 : Bytes → String} {target : AcquiredTarget} {env : ProcessingEnvironment}

section Phases
variable {run : TargetRun} {retryFailures : Bool}

def RetryableFailed (state : OperationState) : Prop := state.status = .failed ∧ state.retryable = true

theorem eligible_retry_iff {state : OperationState} (hpending : state.status ≠ .pending) :
    eligible state true = true ↔ RetryableFailed state := by
  simp [eligible, RetryableFailed, hpending]

theorem findOperation_congr {source : Option Bytes} {selected selected' : List String} {operation : OperationRequest}
    (h : operation.eligible = true → operation.operationId ∈ selected)
    (h' : operation.eligible = true → operation.operationId ∈ selected') :
    findOperation sha256 target env source selected operation = findOperation sha256 target env source selected' operation := by
  by_cases heligible : operation.eligible = true
  · unfold findOperation
    simp only [h heligible, h' heligible, not_true_eq_false, if_false]
  · unfold findOperation
    by_cases hrequested : operation.requested = true
    · have hsupport : operation.supportStatus ≠ .supported := by
        intro hsupported
        exact heligible (by simp [OperationRequest.eligible, hrequested, hsupported])
      cases hstatus : operation.supportStatus with
      | supported => exact absurd hstatus hsupport
      | unsupported => simp only [if_true]
      | notEvaluated => simp
    · simp [hrequested]

theorem readSource_of_derived {selected : List String} (h : derivedSelected target selected = true) :
    readSource target env selected = (readBoundedSource target env).map some := if_pos h

theorem derivedSelected_of_mem {selected : List String} {operation : OperationRequest}
    (hop : operation ∈ target.operations) (heligible : operation.eligible = true)
    (hselected : operation.operationId ∈ selected) (hraw : operation.operation ≠ "raw") :
    derivedSelected target selected = true := by
  refine List.any_eq_true.mpr ⟨operation, hop, ?_⟩
  simp [heligible, hselected, hraw]

structure Takeover (sha256 : Bytes → String) (run : TargetRun) (taken : List OperationResult) : Prop where
  nodup : (taken.map (·.operationId)).Nodup
  sound : ∀ operation ∈ run.target.operations, ∀ result ∈ taken, result.operationId = operation.operationId →
    Sound sha256 run.target operation result
  known : ∀ result ∈ taken, ∃ operation ∈ run.target.operations, operation.eligible = true ∧
    result.operationId = operation.operationId ∧ result.status ∈ reusableStatuses
  covers : ∀ operation ∈ run.target.operations, operation.eligible = true → ∀ state,
    run.stateOf operation.operationId = some state →
      (operation.operationId ∈ taken.map (·.operationId) ↔ eligible state true = false)
  raw : ∀ operation ∈ run.target.operations, operation.operation = "raw" →
    ∀ result ∈ taken, result.operationId = operation.operationId → result.status = .available

theorem Settled.takeover {results : List OperationResult} (h : Settled sha256 run results) (hkept : Kept sha256 run)
    (hsiblings : ∀ state ∈ run.states, state.status = .failed → operationStatus state ≠ .unsupported) :
    Takeover sha256 run (priorResults ⟨run.receipt, results.map entryOf⟩ (reusedIds run true)) where
  nodup := nodup_priorResults _ _ h.covers.nodup
  sound operation hop result hresult hid := h.prior_sound hop hresult hid
  known := by
    intro result hresult
    obtain ⟨before, hbefore, hreusable, hreused, rfl⟩ := mem_priorResults.mp hresult
    obtain ⟨operation, hop, hid, hrequested, state, hstate, hstatus, -⟩ := mem_reusedIds.mp hreused
    rw [← hid] at hstate
    have hactive : state.status ∈ [.pending, .succeeded, .failed] := by
      rcases hstatus with hstatus | hstatus <;> rw [hstatus] <;> decide
    exact ⟨operation, hop, hkept.tracked.eligible hop hstate hactive, hid.symm, hreusable⟩
  covers := by
    intro operation hop heligible state hstate
    rw [h.prior_iff hkept true hop heligible hstate]
    constructor
    · exact fun hboth => hboth.1
    · exact fun hnot => ⟨hnot, fun hfailed => hsiblings state (mem_of_stateOf hstate).1 hfailed.1 hfailed.2⟩
  raw := by
    intro operation hop hname result hresult hid
    obtain ⟨-, entry, hentry, hentryId, havailable⟩ := h.covers.raw operation hop hname
    obtain ⟨before, hbefore, -, -, rfl⟩ := mem_priorResults.mp hresult
    have heq := h.covers.eq hbefore hentry ((show before.operationId = _ from hid).trans hentryId.symm)
    rw [← heq] at havailable
    exact havailable

theorem mem_retriedIds_of_operation {operation : OperationRequest} (hop : operation ∈ run.target.operations)
    (heligible : operation.eligible = true) {state : OperationState} (hstate : run.stateOf operation.operationId = some state) :
    operation.operationId ∈ retriedIds run retryFailures ↔ eligible state retryFailures = true := by
  rw [mem_retriedIds]
  constructor
  · rintro ⟨_, -, -, -, row, hrow, hrowDue⟩
    rw [hstate] at hrow
    rwa [Option.some.inj hrow]
  · exact fun hrow => ⟨operation, hop, rfl, requested_of_eligible heligible, state, hstate, hrow⟩

section Takeover
variable {taken : List OperationResult}

theorem Takeover.select (h : Takeover sha256 run taken) (htracked : Tracked run) :
    selectOperationExecution run.target.operations (some taken) (some (retriedIds run true)) =
      .ok (taken, retriedIds run true) := by
  have hcheck : checkPrior run.target.operations [] taken = .ok () := by
    refine checkPrior_ok h.nodup (fun _ _ => List.not_mem_nil) fun result hresult => ?_
    obtain ⟨operation, hop, heligible, hid, hreusable⟩ := h.known result hresult
    exact ⟨mem_eligibleIds.mpr ⟨operation, hop, heligible, hid.symm⟩, hreusable,
      fun other hother hotherId hname => h.raw other hother hname result hresult hotherId.symm⟩
  refine selectOperationExecution_ok (nodup_operationIds run.target) hcheck (nodup_retriedIds run) ?_ ?_
  · intro id
    constructor
    · intro hid
      obtain ⟨operation, hop, heligible, rfl⟩ := mem_eligibleIds.mp hid
      obtain ⟨state, hstate, -⟩ := htracked.exists_state hop
      rw [mem_retriedIds_of_operation hop heligible hstate, h.covers operation hop heligible state hstate]
      exact Bool.eq_false_or_eq_true _
    · rintro (hid | hid)
      · obtain ⟨operation, hop, rfl, -, state, hstate, hrow⟩ := mem_retriedIds.mp hid
        exact mem_eligibleIds.mpr ⟨operation, hop, htracked.eligible hop hstate (status_of_eligible hrow), rfl⟩
      · obtain ⟨result, hresult, rfl⟩ := List.mem_map.mp hid
        obtain ⟨operation, hop, heligible, hid, -⟩ := h.known result hresult
        exact mem_eligibleIds.mpr ⟨operation, hop, heligible, hid.symm⟩
  · intro id hid htakenId
    obtain ⟨operation, hop, rfl, -, state, hstate, hrow⟩ := mem_retriedIds.mp hid
    have heligible := htracked.eligible hop hstate (status_of_eligible hrow)
    rw [h.covers operation hop heligible state hstate, hrow] at htakenId
    cases htakenId

theorem Takeover.valid (h : Takeover sha256 run taken) (hbody : isSha256HexDigest run.target.body.sha256 = true) :
    validatePriorResults sha256 run.target taken = .ok () := by
  unfold validatePriorResults
  rw [forM_eq_ok]
  intro result hresult
  obtain ⟨operation, hop, -, hid, hreusable⟩ := h.known result hresult
  rw [hid, find_operation hop]
  exact (h.sound operation hop result hresult hid).validate hbody hreusable

theorem Takeover.result (h : Takeover sha256 run taken) {source : Option Bytes} {selected : List String}
    {operation : OperationRequest} {result : OperationResult} (hresult : result ∈ taken)
    (hid : result.operationId = operation.operationId) :
    operationResult sha256 run.target env source taken selected operation = .ok result := by
  unfold operationResult
  rw [← hid, find?_key h.nodup hresult]
  rfl

theorem Takeover.result_of_not_mem (h : Takeover sha256 run taken) (htracked : Tracked run) {source : Option Bytes}
    {operation : OperationRequest} (hop : operation ∈ run.target.operations)
    (hnot : operation.operationId ∉ taken.map (·.operationId)) :
    operationResult sha256 run.target env source taken (retriedIds run true) operation =
      operationResult sha256 run.target env source [] (eligibleIds run.target.operations) operation := by
  have hnone : taken.find? (fun other => other.operationId = operation.operationId) = none := by
    rw [List.find?_eq_none]
    intro result hresult hid
    exact hnot (List.mem_map.mpr ⟨result, hresult, by simpa using hid⟩)
  unfold operationResult
  rw [hnone]
  show (findOperation sha256 run.target env source (retriedIds run true) operation).map _ =
    (findOperation sha256 run.target env source (eligibleIds run.target.operations) operation).map _
  rw [findOperation_congr]
  · intro heligible
    obtain ⟨state, hstate, -⟩ := htracked.exists_state hop
    rw [h.covers operation hop heligible state hstate, Bool.not_eq_false] at hnot
    exact (mem_retriedIds_of_operation hop heligible hstate).mpr hnot
  · exact fun heligible => mem_eligibleIds.mpr ⟨operation, hop, heligible, rfl⟩

theorem Takeover.preserved (h : Takeover sha256 run taken) {raw : OperationRequest} (hraw : raw ∈ run.target.operations)
    (hname : raw.operation = "raw") {result : OperationResult} (hresult : result ∈ taken)
    (hid : result.operationId = raw.operationId) : RawPreserved run.target raw result := by
  have havailable := h.raw raw hraw hname result hresult hid
  obtain ⟨output, hstored⟩ := (h.sound raw hraw result hresult hid).stored havailable
  obtain ⟨hpath, hsha, hsize⟩ := hstored.raw hname
  refine ⟨hid, havailable, ?_, ?_, ?_⟩
  · rw [hstored.outputSha256, hsha]
  · rw [hstored.outputSize, hsize]
  · rw [hstored.ref]
    simpa using hpath

end Takeover

theorem Settled.retry_ok {results : List OperationResult} (h : Settled sha256 run results) (hkept : Kept sha256 run)
    (hdue : Due run true) {full : List OperationResult} {receipt : Bool}
    (hfull : processTarget sha256 run.target env run.receipt none none = .ok (full, receipt))
    (hsiblings : ∀ state ∈ run.states, state.status = .failed → operationStatus state ≠ .unsupported) :
    ∃ later receipt', processTarget sha256 run.target env run.receipt
        (some (priorResults ⟨run.receipt, results.map entryOf⟩ (reusedIds run true))) (some (retriedIds run true)) =
        .ok (later, receipt') ∧
      ∀ operation ∈ run.target.operations, ∀ state, run.stateOf operation.operationId = some state →
        eligible state true = true → ∀ result ∈ full, result.operationId = operation.operationId → result ∈ later := by
  obtain ⟨prior, selected, raw, source, hselect, hreturned, -⟩ := processTarget_eq_ok.mp hfull
  obtain ⟨rfl, rfl⟩ := selectOperationExecution_none hselect
  have htakeover := h.takeover hkept hsiblings
  generalize priorResults ⟨run.receipt, results.map entryOf⟩ (reusedIds run true) = taken at htakeover ⊢
  -- both calls execute an operation besides raw, so both read the body
  have hsource : readSource run.target env (retriedIds run true) = .ok source := by
    obtain ⟨operation, hop, state, hstate, hrow⟩ := hdue
    have heligible := hkept.tracked.eligible hop hstate (status_of_eligible hrow)
    have hraw : operation.operation ≠ "raw" := by
      intro hraw
      rw [eligible_eq_of_succeeded true (h.raw_succeeded hop hraw hstate)] at hrow
      cases hrow
    have hfullDerived := derivedSelected_of_mem hop heligible (mem_eligibleIds.mpr ⟨operation, hop, heligible, rfl⟩) hraw
    have hderived := derivedSelected_of_mem hop heligible ((mem_retriedIds_of_operation hop heligible hstate).mpr hrow) hraw
    rw [readSource_of_derived hderived, ← readSource_of_derived hfullDerived]
    exact hreturned.read
  obtain ⟨later, hlater⟩ : ∃ later, run.target.operations.mapM
      (operationResult sha256 run.target env source taken (retriedIds run true)) = .ok later := by
    apply exists_mapM_eq_ok
    intro operation hop
    by_cases hin : operation.operationId ∈ taken.map (·.operationId)
    · obtain ⟨result, hresult, hid⟩ := List.mem_map.mp hin
      exact ⟨result, htakeover.result hresult hid⟩
    · rw [htakeover.result_of_not_mem hkept.tracked hop hin]
      exact exists_of_mapM hreturned.gives hop
  have hpreserved : ∃ result ∈ later, RawPreserved run.target raw result := by
    obtain ⟨hrawMem, hrawEligible, hname, -⟩ := validateMandatoryRaw_ok hreturned.mandatory
    obtain ⟨state, hstate, -⟩ := hkept.tracked.exists_state hrawMem
    have hidle := eligible_eq_of_succeeded true (h.raw_succeeded hrawMem hname hstate)
    obtain ⟨result, hresult, hid⟩ := List.mem_map.mp ((htakeover.covers raw hrawMem hrawEligible state hstate).mpr hidle)
    exact ⟨result, (mem_mapM hlater).mpr ⟨raw, hrawMem, htakeover.result hresult hid⟩,
      htakeover.preserved hrawMem hname hresult hid⟩
  refine ⟨later, _, processTarget_eq_ok.mpr ⟨taken, retriedIds run true, raw, source, htakeover.select hkept.tracked,
    ⟨hreturned.names, hreturned.allowed, hreturned.body, hreturned.admits, hreturned.mandatory,
      htakeover.valid hreturned.body.1, hsource, hlater, hpreserved⟩, rfl⟩, ?_⟩
  intro operation hop state hstate hrow result hresult hid
  have heligible := hkept.tracked.eligible hop hstate (status_of_eligible hrow)
  have hnot : operation.operationId ∉ taken.map (·.operationId) := by
    rw [htakeover.covers operation hop heligible state hstate, hrow]
    exact Bool.noConfusion
  obtain ⟨other, hother, hok⟩ := (mem_mapM hreturned.gives).mp hresult
  have hotherId : result.operationId = other.operationId := by
    unfold operationResult at hok
    obtain ⟨finding, -, rfl⟩ := map_eq_ok.mp hok
    cases finding <;> rfl
  have heq := eq_of_operationId hop hother (hid.symm.trans hotherId)
  refine (mem_mapM hlater).mpr ⟨operation, hop, ?_⟩
  rw [htakeover.result_of_not_mem hkept.tracked hop hnot, heq]
  exact hok

def TakesResult (after : TargetRun) (full : List OperationResult) (state : OperationState) : Prop :=
  ∃ result ∈ full, result.operationId = state.operationId ∧ ∃ fields, attemptFields result = .ok fields ∧
    (∃ later ∈ after.states, later.operationId = state.operationId ∧ Shows later fields) ∧
    ∃ manifest, after.manifest = some manifest ∧ entryOf result ∈ manifest.operations

/-- The retry gives every retryable failed operation the result of the full call, and leaves the
rows of the others, which are pending only where nothing can be retried. -/
def RetriedAlone (before after : TargetRun) (full : List OperationResult) : Prop :=
  ∀ state ∈ before.states,
    (RetryableFailed state → TakesResult after full state) ∧
    (¬ RetryableFailed state → state ∈ after.states ∨
      (state.status = .pending ∧ ∀ other ∈ before.states, ¬ RetryableFailed other))

/-- Where an operation can be retried, no operation has failed as unsupported. -/
def NoUnsupportedSibling (run : TargetRun) : Prop :=
  (∃ state ∈ run.states, RetryableFailed state) →
    ∀ state ∈ run.states, state.status = .failed → operationStatus state ≠ .unsupported

theorem not_retryable_of_fresh (h : Fresh run) (hkept : Kept sha256 run) {state : OperationState} (hmem : state ∈ run.states) :
    ¬ RetryableFailed state := by
  intro hretryable
  obtain ⟨operation, hop, hid⟩ := hkept.tracked.exists_operation hmem
  have hstate := hkept.tracked.stateOf_mem hmem
  rw [← hid] at hstate
  have heligible := hkept.tracked.eligible hop hstate (by rw [hretryable.1]; decide)
  have hpending := h.pending operation hop heligible state hstate
  rw [hretryable.1] at hpending
  cases hpending

theorem Settled.not_pending {results : List OperationResult} (h : Settled sha256 run results) (hkept : Kept sha256 run)
    {state : OperationState} (hmem : state ∈ run.states) : state.status ≠ .pending := by
  intro hpending
  obtain ⟨operation, hop, hid⟩ := hkept.tracked.exists_operation hmem
  have hstate := hkept.tracked.stateOf_mem hmem
  rw [← hid] at hstate
  have heligible := hkept.tracked.eligible hop hstate (by rw [hpending]; decide)
  obtain ⟨other, result, hother, -, -, hsound, hrecorded⟩ := h.shown hkept hop heligible
  rw [hstate] at hother
  obtain rfl := Option.some.inj hother
  rcases hrecorded.outcome hsound heligible with ⟨hstatus, -⟩ | ⟨hstatus, -⟩
  · rw [hpending] at hstatus
    cases hstatus
  · rw [hpending] at hstatus
    cases hstatus

theorem Kept.others (hhex : ∀ bytes, isSha256HexDigest (sha256 bytes) = true) (h : Kept sha256 run)
    {attemptedTarget : Bool} {after : TargetRun}
    (hprocess : processAcquiredTarget sha256 env true run = .ok (attemptedTarget, after))
    {state : OperationState} (hmem : state ∈ run.states) (hnot : ¬ RetryableFailed state) :
    state ∈ after.states ∨ (state.status = .pending ∧ ∀ other ∈ run.states, ¬ RetryableFailed other) := by
  by_cases hpending : state.status = .pending
  · refine Or.inr ⟨hpending, fun other hother => ?_⟩
    obtain ⟨operation, hop, hid⟩ := h.tracked.exists_operation hmem
    have hstate := h.tracked.stateOf_mem hmem
    rw [← hid] at hstate
    rcases h.phase with hfresh | hlost | ⟨results, hsettled⟩
    · exact not_retryable_of_fresh hfresh h hother
    · have hdue : eligible state true = true := by simp [eligible, hpending]
      exact absurd ⟨operation, hop, state, hstate, hdue⟩ (hlost.not_due h)
    · exact absurd hpending (hsettled.not_pending h hmem)
  · obtain ⟨operation, hop, hid⟩ := h.tracked.exists_operation hmem
    have hstate := h.tracked.stateOf_mem hmem
    rw [← hid] at hstate
    have hidle : eligible state true = false := by
      rw [← Bool.not_eq_true, eligible_retry_iff hpending]
      exact hnot
    obtain ⟨_, other, hother, -, hkeeps⟩ := h.step hhex env true
    rw [hprocess] at hother
    obtain ⟨-, rfl⟩ := Prod.mk.inj (Except.ok.inj hother)
    exact Or.inl (mem_of_stateOf (hkeeps operation hop state hstate hidle)).1

theorem Kept.retriedAlone_iff (hhex : ∀ bytes, isSha256HexDigest (sha256 bytes) = true) (h : Kept sha256 run)
    {attemptedTarget : Bool} {after : TargetRun}
    (hprocess : processAcquiredTarget sha256 env true run = .ok (attemptedTarget, after))
    {full : List OperationResult} {receipt : Bool}
    (hfull : processTarget sha256 run.target env run.receipt none none = .ok (full, receipt)) :
    RetriedAlone run after full ↔ NoUnsupportedSibling run := by
  by_cases hretry : ∃ state ∈ run.states, RetryableFailed state
  swap
  · have hnone : ∀ state ∈ run.states, ¬ RetryableFailed state := fun state hmem hstate => hretry ⟨state, hmem, hstate⟩
    constructor
    · exact fun _ hsome => absurd hsome hretry
    · exact fun _ state hmem => ⟨fun hstate => absurd hstate (hnone state hmem), fun hnot => h.others hhex hprocess hmem hnot⟩
  obtain ⟨due, hdueMem, hdueFailed⟩ := hretry
  obtain ⟨operation, hop, hid⟩ := h.tracked.exists_operation hdueMem
  have hstate := h.tracked.stateOf_mem hdueMem
  rw [← hid] at hstate
  have hdueStatus : eligible due true = true := by simp [eligible, hdueFailed.1, hdueFailed.2]
  have hdue : Due run true := ⟨operation, hop, due, hstate, hdueStatus⟩
  rcases h.phase with hfresh | hlost | ⟨results, hsettled⟩
  · exact absurd hdueFailed (not_retryable_of_fresh hfresh h hdueMem)
  · exact absurd hdue (hlost.not_due h)
  have hcall := hsettled.processOperations_eq h env true
  constructor
  · -- a sibling that failed as unsupported is neither selected nor taken over
    intro halone _ sibling hsiblingMem hsiblingFailed hunsupported
    obtain ⟨result, hresult, hresultId, fields, hok, ⟨later, hlater, hlaterId, hshows⟩, -⟩ :=
      (halone due hdueMem).1 hdueFailed
    obtain ⟨other, hother, hotherId⟩ := h.tracked.exists_operation hsiblingMem
    have hsibling := h.tracked.stateOf_mem hsiblingMem
    rw [← hotherId] at hsibling
    have hotherEligible := h.tracked.eligible hother hsibling (by rw [hsiblingFailed]; decide)
    cases hretryCall : processTarget sha256 run.target env run.receipt
        (some (priorResults ⟨run.receipt, results.map entryOf⟩ (reusedIds run true))) (some (retriedIds run true)) with
    | ok outcome =>
      exfalso
      obtain ⟨prior, selected, raw, source, hselect, -⟩ := processTarget_eq_ok.mp hretryCall
      obtain ⟨-, -, hcover⟩ := selectOperationExecution_some hselect
      rcases hcover _ (mem_eligibleIds.mpr ⟨other, hother, hotherEligible, rfl⟩) with hselected | htaken
      · obtain ⟨_, -, -, -, row, hrow, hrowDue⟩ := mem_retriedIds.mp hselected
        rw [hsibling] at hrow
        obtain rfl := Option.some.inj hrow
        obtain ⟨state, entry, hentryState, -, -, hsound, hrecorded⟩ := hsettled.shown h hother hotherEligible
        rw [hsibling] at hentryState
        obtain rfl := Option.some.inj hentryState
        have hretryable : sibling.retryable = true := by
          have hpending : sibling.status ≠ .pending := hsettled.not_pending h hsiblingMem
          exact ((eligible_retry_iff hpending).mp hrowDue).2
        have hentry := hrecorded.retryable hsound hotherEligible hretryable
        rw [(hrecorded.unsupported_iff hsound hotherEligible hsiblingFailed).mp hunsupported] at hentry
        cases hentry
      · have hprior := (hsettled.prior_iff h true hother hotherEligible hsibling).mp htaken
        exact hprior.2 ⟨hsiblingFailed, hunsupported⟩
    | error message =>
      rw [hretryCall] at hcall
      obtain ⟨states, hrun, htracked, hrows⟩ := h.process_refused hhex hdue hcall
      rw [hprocess] at hrun
      obtain ⟨-, rfl⟩ := Prod.mk.inj (Except.ok.inj hrun)
      have heligible := h.tracked.eligible hop hstate (status_of_eligible hdueStatus)
      have hrow := hrows operation hop
      have hlaterFind := htracked.stateOf_mem hlater
      rw [hlaterId, ← hid] at hlaterFind
      replace hlaterFind : states.find? (fun state => state.operationId = operation.operationId) = some later := hlaterFind
      rw [hrow, hstate, Option.map_some, Option.some.injEq, attempted,
        if_pos (by rw [requested_of_eligible heligible, hdueStatus]; rfl)] at hlaterFind
      have hrefused := shows_recorded sha256 env processingFailed due
      rw [hlaterFind] at hrefused
      obtain ⟨prior, selected, raw, source, hselect, hreturned, -⟩ := processTarget_eq_ok.mp hfull
      obtain ⟨rfl, -⟩ := selectOperationExecution_none hselect
      have hcovers : Covers sha256 run.target full :=
        hreturned.covers hhex fun _ _ result hresult => absurd hresult List.not_mem_nil
      have hsound := hcovers.sound operation hop result hresult (hresultId.trans hid.symm)
      obtain ⟨fields', hok', hstatus, -, -, hcode⟩ := hsound.attemptFields heligible
      rw [hok] at hok'
      obtain rfl := Except.ok.inj hok'
      refine absurd (hshows.errorCode.symm.trans hrefused.errorCode) (storedCode_ne ?_ ?_)
      · rw [hstatus]
        exact hsound.eligible heligible
      · rw [hstatus]
        exact hcode
  · intro hsiblings
    have hnone := hsiblings ⟨due, hdueMem, hdueFailed⟩
    obtain ⟨later, receipt', hretryCall, hgives⟩ := hsettled.retry_ok h hdue hfull hnone
    rw [hretryCall] at hcall
    obtain ⟨prior, selected, raw, source, hselect, hreturned, -⟩ := processTarget_eq_ok.mp hretryCall
    obtain ⟨rfl, rfl, -⟩ := selectOperationExecution_some hselect
    have hcovers : Covers sha256 run.target later :=
      hreturned.covers hhex fun operation hop result hresult hid => hsettled.prior_sound hop hresult hid
    obtain ⟨states, hrun, htracked, hrows⟩ := h.process_ok hhex hdue hcall hcovers
    rw [hprocess] at hrun
    obtain ⟨-, rfl⟩ := Prod.mk.inj (Except.ok.inj hrun)
    refine fun state hmem => ⟨fun hretryable => ?_, fun hnot => h.others hhex hprocess hmem hnot⟩
    obtain ⟨retried, hretriedMem, hretriedId⟩ := h.tracked.exists_operation hmem
    have hretriedState := h.tracked.stateOf_mem hmem
    rw [← hretriedId] at hretriedState
    have hretriedDue : eligible state true = true := by simp [eligible, hretryable.1, hretryable.2]
    have heligible := h.tracked.eligible hretriedMem hretriedState (status_of_eligible hretriedDue)
    obtain ⟨priorFull, selectedFull, rawFull, sourceFull, hselectFull, hreturnedFull, -⟩ := processTarget_eq_ok.mp hfull
    obtain ⟨rfl, -⟩ := selectOperationExecution_none hselectFull
    have hcoversFull : Covers sha256 run.target full :=
      hreturnedFull.covers hhex fun _ _ result hresult => absurd hresult List.not_mem_nil
    obtain ⟨result, hresult, hresultId⟩ := hcoversFull.exists_result hretriedMem
    have hlater := hgives retried hretriedMem state hretriedState hretriedDue result hresult hresultId
    obtain ⟨given, hgiven, hgivenId, hok, -⟩ := hcovers.fields hretriedMem heligible
    have heq := hcovers.eq hgiven hlater (hgivenId.trans hresultId.symm)
    rw [heq] at hok
    refine ⟨result, hresult, hresultId.trans hretriedId, _, hok, ?_, _, rfl, List.mem_map_of_mem hlater⟩
    have hrow := hrows retried hretriedMem
    rw [hretriedState, Option.map_some, attempted,
      if_pos (by rw [requested_of_eligible heligible, hretriedDue]; rfl)] at hrow
    refine ⟨_, List.mem_of_find?_eq_some hrow, ?_, shows_recorded sha256 env _ _⟩
    exact recorded_operationId _ state

end Phases

theorem Reached.kept (hhex : ∀ bytes, isSha256HexDigest (sha256 bytes) = true) {runs : List TargetRun}
    (h : Reached sha256 runs) : ∀ run ∈ runs, Kept sha256 run := by
  induction h with
  | ready h => exact fun run hrun => (h run hrun).kept
  | run h hrun ih =>
    intro after hafter
    obtain ⟨before, hbefore, hok⟩ := (mem_mapM hrun).mp hafter
    obtain ⟨outcome, hprocess, rfl⟩ := map_eq_ok.mp hok
    obtain ⟨attemptedTarget, later, hlater, hkept, -⟩ := (ih before hbefore).step hhex _ _
    rw [hlater] at hprocess
    rw [← Except.ok.inj hprocess]
    exact hkept

/-- In every state that processing runs reach, a retry run returns, and a target for which the full
call gives results is retried alone just when no failed operation stands unsupported beside one that
can be retried. -/
theorem retry_independent_iff (hhex : ∀ bytes, isSha256HexDigest (sha256 bytes) = true) {runs : List TargetRun}
    (h : Reached sha256 runs) (env : String → ProcessingEnvironment) :
    ∃ later, executeProcessingRun sha256 env true runs = .ok later ∧
      List.Forall₂ (fun before after => ∀ full receipt,
        processTarget sha256 before.target (env before.target.targetId) before.receipt none none = .ok (full, receipt) →
        (RetriedAlone before after full ↔ NoUnsupportedSibling before)) runs later := by
  have hkept := h.kept hhex
  have hstep : ∀ run ∈ runs, ∃ after, (processAcquiredTarget sha256 (env run.target.targetId) true run).map (·.2) = .ok after := by
    intro run hrun
    obtain ⟨attemptedTarget, after, hprocess, -⟩ := (hkept run hrun).step hhex (env run.target.targetId) true
    exact ⟨after, by rw [hprocess]; rfl⟩
  obtain ⟨later, hlater⟩ := exists_mapM_eq_ok hstep
  refine ⟨later, hlater, forall₂_mapM hlater fun run hrun after hok => ?_⟩
  obtain ⟨⟨attemptedTarget, _⟩, hprocess, rfl⟩ := map_eq_ok.mp hok
  exact fun full receipt hfull => (hkept run hrun).retriedAlone_iff hhex hprocess hfull

/-! ### A text rendering that failed beside an XML rendering without a route -/

def renderingRow (operation outputKind : String) (mode : RequestMode) : WorkOrderOperationSeed where
  operationId := "operation_" ++ operation
  targetId := "target"
  operation := operation
  requested := true
  requestMode := mode
  selected := true
  sourceRequestId := some "source"
  inputOrdinal := some 0
  inputRole := some "selected_target_body"
  supportStatus := .supported
  supportReason := none
  capabilityId := some "capability"
  capabilityVersion := some "v1"
  handlerId := some "handler"
  handlerVersion := some "v1"
  outputKind := some outputKind

def renderingRows : List WorkOrderOperationSeed :=
  [renderingRow "raw" "raw_bytes" .mandatoryRaw, renderingRow "render_to_txt" "text" .profile,
    renderingRow "render_to_xml" "xml" .profile]

def renderingOperations : List OperationRequest :=
  match operationRequests renderingRows with
  | .ok operations => operations
  | .error _ => []

theorem renderingRows_requests : operationRequests renderingRows = .ok renderingOperations := by
  decide +kernel

theorem renderingRows_nodup : (renderingRows.map (·.operationId)).Nodup := by
  decide +kernel

theorem renderingRows_resolved : ∀ row ∈ renderingRows, Resolved row := by
  intro row hrow
  rcases List.mem_cons.mp hrow with rfl | hrow
  · exact ⟨by decide +kernel, by decide +kernel, fun _ _ => rfl⟩
  rcases List.mem_cons.mp hrow with rfl | hrow
  · exact ⟨by decide +kernel, by decide +kernel, fun _ _ => rfl⟩
  obtain rfl := List.mem_singleton.mp hrow
  exact ⟨by decide +kernel, by decide +kernel, fun _ _ => rfl⟩

def emptyDigest : String := "e3b0c44298fc1c149afbf4c8996fb92427ae41e4649b934ca495991b7852b855"

def renderingTarget : AcquiredTarget where
  targetId := "target"
  targetRole := "primary"
  rows := renderingRows
  operations := renderingOperations
  body := ⟨"bodies/target", emptyDigest, 0, emptyDigest⟩
  effectivePath := "report.htm"
  processingId := "proc_target"
  processingRoot := "processing"
  fingerprintData _ := .null
  allowed _ := true
  requests := renderingRows_requests
  nodup := renderingRows_nodup
  resolved := renderingRows_resolved

theorem renderingTimes : "2024-01-02T03:04:05Z" ≠ "" ∧ "2024-01-02T03:04:06Z" ≠ "" := by decide

/-- The XML rendering has no handler on the effective route; `output` is what the text handler gives. -/
def renderingEnvironment (output : Except String Bytes) (_targetId : String) : ProcessingEnvironment where
  admits := .ok ()
  expectedPins operation := if operation.operation = "render_to_xml" then none else some operation.pins
  registered _ := some ("v1", ⟨"handler", "v1", fun _ => output⟩)
  identityMismatch _ := false
  body := .ok []
  stages _ := true
  startedAtUtc := "2024-01-02T03:04:05Z"
  finishedAtUtc := "2024-01-02T03:04:06Z"
  times := renderingTimes

def renderingReady : TargetRun := ⟨renderingTarget, renderingRows.map readyState, none, false⟩

def renderingFailed : TargetRun :=
  match processAcquiredTarget sha256Hex (renderingEnvironment (.error "ValueError") "target") false renderingReady with
  | .ok (_, after) => after
  | .error _ => renderingReady

theorem renderingReady_ready : renderingReady.Ready := ⟨rfl, rfl, rfl⟩

theorem process_renderingReady : ∃ attemptedTarget,
    processAcquiredTarget sha256Hex (renderingEnvironment (.error "ValueError") "target") false renderingReady =
      .ok (attemptedTarget, renderingFailed) := by
  obtain ⟨attemptedTarget, after, hprocess, -⟩ := renderingReady_ready.kept.step isSha256HexDigest_sha256Hex
    (renderingEnvironment (.error "ValueError") "target") false
  refine ⟨attemptedTarget, ?_⟩
  unfold renderingFailed
  rw [hprocess]

theorem executeProcessingRun_singleton (env : String → ProcessingEnvironment) {retryFailures attemptedTarget : Bool}
    {before after : TargetRun} (h : processAcquiredTarget sha256 (env before.target.targetId) retryFailures before =
      .ok (attemptedTarget, after)) : executeProcessingRun sha256 env retryFailures [before] = .ok [after] := by
  unfold executeProcessingRun
  rw [List.mapM_cons, h]
  rfl

theorem reached_renderingFailed : Reached sha256Hex [renderingFailed] := by
  obtain ⟨attemptedTarget, hprocess⟩ := process_renderingReady
  have hready : ∀ run ∈ [renderingReady], run.Ready := by
    intro run hrun
    rw [List.mem_singleton.mp hrun]
    exact renderingReady_ready
  exact Reached.run (Reached.ready hready)
    (executeProcessingRun_singleton (renderingEnvironment (.error "ValueError")) hprocess)

/-- The retry of the text rendering after the first run. -/
theorem retry_independent_rendering : ∃ later,
    executeProcessingRun sha256Hex (renderingEnvironment (.ok [65])) true [renderingFailed] = .ok later ∧
      List.Forall₂ (fun before after => ∀ full receipt,
        processTarget sha256Hex before.target (renderingEnvironment (.ok [65]) before.target.targetId) before.receipt
          none none = .ok (full, receipt) →
        (RetriedAlone before after full ↔ NoUnsupportedSibling before)) [renderingFailed] later :=
  retry_independent_iff isSha256HexDigest_sha256Hex reached_renderingFailed (renderingEnvironment (.ok [65]))

theorem renderingFailed_states :
    (renderingFailed.states.map fun state => (state.status, state.retryable, operationStatus state)) =
        [(.succeeded, false, .available), (.failed, true, .failed), (.failed, false, .unsupported)] ∧
      (processTarget sha256Hex renderingFailed.target
        (renderingEnvironment (.ok [65]) renderingFailed.target.targetId) renderingFailed.receipt
        none none).toOption.isSome = true := by
  decide +kernel

theorem renderingFailed_sibling : ¬ NoUnsupportedSibling renderingFailed := by
  intro h
  have hstates := renderingFailed_states.1
  have hmem : ∀ row ∈ [(OperationStatus.succeeded, false, ReportedStatus.available), (.failed, true, .failed),
      (.failed, false, .unsupported)], ∃ state ∈ renderingFailed.states,
        (state.status, state.retryable, operationStatus state) = row := by
    intro row hrow
    rw [← hstates] at hrow
    exact List.mem_map.mp hrow
  obtain ⟨retryable, hretryable, hrow⟩ := hmem (.failed, true, .failed) (by decide)
  obtain ⟨sibling, hsibling, hsiblingRow⟩ := hmem (.failed, false, .unsupported) (by decide)
  simp only [Prod.mk.injEq] at hrow hsiblingRow
  exact h ⟨retryable, hretryable, hrow.1, hrow.2.1⟩ sibling hsibling hsiblingRow.1 hsiblingRow.2.2

/-- A retry that does not give a retryable operation the result of the full call. -/
theorem retry_lost_beside_unsupported : ¬ ∀ (runs : List TargetRun), Reached sha256Hex runs →
    ∀ (env : String → ProcessingEnvironment) (later : List TargetRun),
      executeProcessingRun sha256Hex env true runs = .ok later →
      List.Forall₂ (fun before after => ∀ full receipt,
        processTarget sha256Hex before.target (env before.target.targetId) before.receipt none none = .ok (full, receipt) →
        RetriedAlone before after full) runs later := by
  intro hclaim
  have hkept := reached_renderingFailed.kept isSha256HexDigest_sha256Hex renderingFailed (List.mem_singleton_self _)
  obtain ⟨attemptedTarget, after, hprocess, -⟩ := hkept.step isSha256HexDigest_sha256Hex
    (renderingEnvironment (.ok [65]) renderingFailed.target.targetId) true
  have hhead := hclaim _ reached_renderingFailed (renderingEnvironment (.ok [65])) _ (executeProcessingRun_singleton _ hprocess)
  rw [List.forall₂_cons] at hhead
  have hisSome := renderingFailed_states.2
  cases hfull : processTarget sha256Hex renderingFailed.target
      (renderingEnvironment (.ok [65]) renderingFailed.target.targetId) renderingFailed.receipt none none with
  | error message =>
    rw [hfull] at hisSome
    cases hisSome
  | ok outcome =>
    obtain ⟨full, receipt⟩ := outcome
    have halone := hhead.1 full receipt hfull
    exact renderingFailed_sibling ((hkept.retriedAlone_iff isSha256HexDigest_sha256Hex hprocess hfull).mp halone)

end EdgarSec.Acquisition.Processing
