import EdgarSec.Acquisition.OperationResults
import EdgarSec.Acquisition.ProcessingRun

/-! What processing runs keep of an acquired target: the rows of the run database show the
results of the manifest, from the first run on. -/

namespace EdgarSec.Acquisition.Processing
open Foundation Lib FilingCatalog

variable {sha256 : Bytes → String} {target : AcquiredTarget} {env : ProcessingEnvironment}

/-! ## Attempts -/

def recorded (sha256 : Bytes → String) (env : ProcessingEnvironment) (fields : AttemptFields)
    (state : OperationState) : OperationState :=
  state.record (attemptOn sha256 env state fields)

def AttemptFields.Consistent (fields : AttemptFields) : Prop :=
  fields.status = .available → fields.retryable = false

@[simp] theorem recorded_seed (fields : AttemptFields) (state : OperationState) :
    (recorded sha256 env fields state).toWorkOrderOperationSeed = state.toWorkOrderOperationSeed :=
  record_seed _ state

@[simp] theorem recorded_operationId (fields : AttemptFields) (state : OperationState) :
    (recorded sha256 env fields state).operationId = state.operationId :=
  congrArg WorkOrderOperationSeed.operationId (recorded_seed fields state)

theorem recorded_eq (sha256 : Bytes → String) (env : ProcessingEnvironment) (fields : AttemptFields) (state : OperationState) :
    (recorded sha256 env fields state).status = (if fields.status = .available then .succeeded else .failed) ∧
      (recorded sha256 env fields state).retryable = fields.retryable ∧
      (recorded sha256 env fields state).errorCode = fields.storedCode := by
  unfold recorded OperationState.record attemptOn
  rw [if_pos rfl]
  refine ⟨?_, rfl, rfl⟩
  show OperationOutcome.status _ = _
  split <;> rfl

theorem check_recorded {fields : AttemptFields} {state : OperationState} (hcheck : state.check = true)
    (hselected : state.selected = true) (hfields : fields.Consistent) :
    (recorded sha256 env fields state).check = true := by
  obtain ⟨hstatus, hretryable, herror⟩ := recorded_eq sha256 env fields state
  have hseed : (recorded sha256 env fields state).toWorkOrderOperationSeed = state.toWorkOrderOperationSeed :=
    recorded_seed fields state
  have hcount : (recorded sha256 env fields state).attemptCount = state.attemptCount + 1 := by
    unfold recorded OperationState.record attemptOn
    rw [if_pos rfl]
  generalize recorded sha256 env fields state = later at hstatus hretryable herror hseed hcount ⊢
  obtain ⟨seed, status, retryable, count, last, code⟩ := state
  obtain ⟨seed', status', retryable', count', last', code'⟩ := later
  obtain rfl : seed = seed' := hseed.symm
  obtain rfl : status' = _ := hstatus
  obtain rfl : retryable' = _ := hretryable
  obtain rfl : code' = _ := herror
  obtain rfl : count' = count + 1 := hcount
  replace hselected : seed.selected = true := hselected
  simp only [OperationState.check, Bool.and_eq_true, decide_eq_true_eq] at hcheck ⊢
  obtain ⟨⟨⟨⟨⟨⟨hcount, hbig⟩, hsource⟩, hpins⟩, hsupport⟩, -⟩, -⟩ := hcheck
  refine ⟨⟨⟨⟨⟨⟨by omega, ?_⟩, hsource⟩, hpins⟩, hsupport⟩, ?_⟩, ?_⟩
  · generalize seed.requested = requested at hbig
    generalize seed.requestMode = mode at hbig
    generalize seed.supportStatus = support at hbig
    rw [hselected] at hbig ⊢
    simp at hbig
    split <;> simp [hbig]
  · unfold AttemptFields.storedCode
    split <;> rfl
  · have hconsistent := hfields
    unfold AttemptFields.Consistent at hconsistent
    split
    · next havailable => rw [hconsistent havailable]; rfl
    · rfl

theorem find_recorded {attempt : OperationAttempt} {states : List OperationState} (id : String) :
    (states.map (OperationState.record attempt)).find? (fun state => state.operationId = id) =
      (states.find? (fun state => state.operationId = id)).map (OperationState.record attempt) := by
  have hsame : ((fun state : OperationState => decide (state.operationId = id)) ∘ OperationState.record attempt) =
      fun state => decide (state.operationId = id) := by
    funext state
    have hseed := congrArg WorkOrderOperationSeed.operationId (record_seed attempt state)
    show decide ((state.record attempt).operationId = id) = _
    rw [hseed]
  rw [List.find?_map, hsame]

theorem find_recorded_of_ne {attempt : OperationAttempt} {states : List OperationState} {id : String}
    (hne : id ≠ attempt.operationId) :
    (states.map (OperationState.record attempt)).find? (fun state => state.operationId = id) =
      states.find? (fun state => state.operationId = id) := by
  rw [find_recorded]
  cases hfind : states.find? (fun state => state.operationId = id) with
  | none => rfl
  | some other =>
    have hotherId : other.operationId = id := by simpa using List.find?_some hfind
    rw [Option.map_some, record_of_ne (by rwa [hotherId])]

theorem appendAttempt_ok {attempt : OperationAttempt} {states : List OperationState} {current : OperationState}
    (harguments : operationArguments sha256 attempt = .ok ())
    (hfind : states.find? (fun state => state.operationId = attempt.operationId) = some current)
    (hrequested : current.requested = true) (hselected : current.selected = true)
    (hsupported : current.supportStatus = .supported)
    (hnumber : attempt.attemptNumber = current.attemptCount + 1) (hdue : current.eligible = true)
    (hcheck : (current.record attempt).check = true) :
    appendAttempt sha256 attempt states = .ok (states.map (OperationState.record attempt)) := by
  unfold appendAttempt
  rw [harguments, hfind]
  simp only [bind_eq_ok, ensure_eq_ok]
  exact ⟨(), rfl, (), ⟨hrequested, hselected, hsupported⟩, (), hnumber, (), hdue, (), hcheck, rfl⟩

theorem recordAttempt_ok (sha256 : Bytes → String) (env : ProcessingEnvironment) {states : List OperationState} {state : OperationState} {id : String}
    {fields : AttemptFields} (hfind : states.find? (fun state => state.operationId = id) = some state)
    (hne : id ≠ "") (hcheck : state.check = true) (hselected : state.selected = true)
    (hdue : state.eligible = true) (hfields : fields.Consistent) :
    recordAttempt sha256 env id fields states =
      .ok (states.map (OperationState.record (attemptOn sha256 env state fields))) := by
  have hid : state.operationId = id := by simpa using List.find?_some hfind
  have hcount : 0 ≤ state.attemptCount := by
    have hcheck' := hcheck
    simp only [OperationState.check, Bool.and_eq_true, decide_eq_true_eq] at hcheck'
    exact hcheck'.1.1.1.1.1.1
  have harguments : operationArguments sha256 (attemptOn sha256 env state fields) = .ok () := by
    have hnumber : (0 : Int) < state.attemptCount + 1 := by omega
    have hsucceeded : ¬ ((attemptOn sha256 env state fields).outcome = .succeeded ∧ fields.retryable = true) := by
      rintro ⟨houtcome, hretryable⟩
      by_cases havailable : fields.status = .available
      · rw [hfields havailable] at hretryable
        cases hretryable
      · simp [attemptOn, havailable] at houtcome
    unfold operationArguments check
    rw [if_pos (by simpa [attemptOn] using hnumber), if_pos (by simpa [attemptOn, hid] using hne), if_pos]
    · rfl
    · have htimes := env.times
      rw [Bool.and_eq_true, Bool.and_eq_true, Bool.and_eq_true, decide_eq_true_eq, decide_eq_true_eq, decide_eq_true_eq]
      refine ⟨⟨⟨rfl, htimes.1⟩, htimes.2⟩, ?_⟩
      rw [Bool.not_eq_true', ← Bool.not_eq_true, Bool.and_eq_true, decide_eq_true_eq]
      exact hsucceeded
  unfold recordAttempt
  rw [hfind]
  refine appendAttempt_ok harguments ?_ (supported_of_selected hcheck hselected).1 hselected
    (supported_of_selected hcheck hselected).2 rfl hdue (check_recorded hcheck hselected hfields)
  rw [← hfind, ← hid]
  rfl

theorem eligible_due {state : OperationState} {retryFailures : Bool} (h : eligible state retryFailures = true) :
    state.eligible = true := by
  simp only [eligible, Bool.or_eq_true, Bool.and_eq_true, decide_eq_true_eq] at h
  simp only [OperationState.eligible, Bool.or_eq_true, Bool.and_eq_true, decide_eq_true_eq]
  rcases h with h | ⟨⟨-, hfailed⟩, hretryable⟩
  · exact Or.inl h
  · exact Or.inr ⟨hfailed, hretryable⟩

def attempted (sha256 : Bytes → String) (env : ProcessingEnvironment) (retryFailures : Bool)
    (f : OperationRequest → AttemptFields) (operation : OperationRequest) (state : OperationState) :
    OperationState :=
  if operation.requested && eligible state retryFailures then recorded sha256 env (f operation) state
  else state

@[simp] theorem attempted_seed (retryFailures : Bool) (f : OperationRequest → AttemptFields)
    (operation : OperationRequest) (state : OperationState) :
    (attempted sha256 env retryFailures f operation state).toWorkOrderOperationSeed =
      state.toWorkOrderOperationSeed := by
  unfold attempted
  split
  · exact recorded_seed _ state
  · rfl

structure Recordable (fieldsOf : OperationRequest → Except String AttemptFields)
    (f : OperationRequest → AttemptFields) (operation : OperationRequest) (state : OperationState) : Prop where
  check : state.check = true
  selected : state.selected = true
  fields : fieldsOf operation = .ok (f operation)
  consistent : (f operation).Consistent

theorem recordAttempts_fold (sha256 : Bytes → String) (env : ProcessingEnvironment) {run : TargetRun} {retryFailures : Bool}
    {fieldsOf : OperationRequest → Except String AttemptFields} {f : OperationRequest → AttemptFields}
    {operations : List OperationRequest} {states : List OperationState}
    (hnodup : (operationIds operations).Nodup) (hne : ∀ operation ∈ operations, operation.operationId ≠ "")
    (hstates : ∀ operation ∈ operations,
      states.find? (fun state => state.operationId = operation.operationId) = run.stateOf operation.operationId)
    (hdue : ∀ operation ∈ operations, ∀ state, run.stateOf operation.operationId = some state →
      operation.requested = true → eligible state retryFailures = true → Recordable fieldsOf f operation state) :
    ∃ later, operations.foldlM (fun states operation =>
        if operation.requested && (run.stateOf operation.operationId).any (eligible · retryFailures) then do
          let fields ← fieldsOf operation
          recordAttempt sha256 env operation.operationId fields states
        else pure states) states = .ok later ∧
      later.map (·.toWorkOrderOperationSeed) = states.map (·.toWorkOrderOperationSeed) ∧
      (∀ operation ∈ operations, later.find? (fun state => state.operationId = operation.operationId) =
        (run.stateOf operation.operationId).map (attempted sha256 env retryFailures f operation)) ∧
      ∀ id ∉ operationIds operations,
        later.find? (fun state => state.operationId = id) = states.find? (fun state => state.operationId = id) := by
  induction operations generalizing states with
  | nil => exact ⟨states, rfl, rfl, fun operation h => absurd h List.not_mem_nil, fun id _ => rfl⟩
  | cons operation operations ih =>
    obtain ⟨hfresh, hnodup⟩ := List.nodup_cons.mp hnodup
    have hother : ∀ other ∈ operations, other.operationId ≠ operation.operationId :=
      fun other hmem h => hfresh (List.mem_map.mpr ⟨other, hmem, h⟩)
    have hrest : ∀ other ∈ operations, ∀ state, run.stateOf other.operationId = some state →
        other.requested = true → eligible state retryFailures = true → Recordable fieldsOf f other state :=
      fun other hmem => hdue other (List.mem_cons_of_mem _ hmem)
    have hneRest : ∀ other ∈ operations, other.operationId ≠ "" := fun other hmem => hne other (List.mem_cons_of_mem _ hmem)
    have hhere := hstates operation List.mem_cons_self
    rw [List.foldlM_cons]
    by_cases hcase : (operation.requested && (run.stateOf operation.operationId).any (eligible · retryFailures)) = true
    · -- the attempt on this operation leaves the rows of the later ones
      rw [Bool.and_eq_true, Option.any_eq_true] at hcase
      obtain ⟨hrequested, state, hrow, heligible⟩ := hcase
      obtain ⟨hcheck, hselected, hfields, hconsistent⟩ := hdue operation List.mem_cons_self state hrow hrequested heligible
      have hrecord := recordAttempt_ok sha256 env (hhere.trans hrow)
        (hne operation List.mem_cons_self) hcheck hselected (eligible_due heligible) hconsistent
      have hid : state.operationId = operation.operationId := by
        simpa using List.find?_some (hhere.trans hrow)
      have hkeep : ∀ id ≠ operation.operationId,
          (states.map (OperationState.record (attemptOn sha256 env state (f operation)))).find?
            (fun state => state.operationId = id) = states.find? (fun state => state.operationId = id) :=
        fun id hidne => find_recorded_of_ne (by
          show id ≠ state.operationId
          rwa [hid])
      have hnext : ∀ other ∈ operations,
          (states.map (OperationState.record (attemptOn sha256 env state (f operation)))).find?
            (fun state => state.operationId = other.operationId) = run.stateOf other.operationId :=
        fun other hmem => (hkeep _ (hother other hmem)).trans (hstates other (List.mem_cons_of_mem _ hmem))
      obtain ⟨later, hrun, hseeds, hlater, houtside⟩ := ih hnodup hneRest hnext hrest
      refine ⟨later, ?_, ?_, ?_, ?_⟩
      · simpa [hrow, hrequested, heligible, hfields, hrecord, bind_eq_ok, Except.bind, bind] using hrun
      · rw [hseeds, List.map_map]
        exact List.map_congr_left fun other _ => record_seed _ other
      · intro other hmem
        rcases List.mem_cons.mp hmem with rfl | hmem
        · rw [houtside _ hfresh, find_recorded, hhere, hrow, Option.map_some, Option.map_some, attempted,
            if_pos (by simp [hrequested, heligible])]
          rfl
        · exact hlater other hmem
      · intro id hidout
        rw [houtside id fun hmem => hidout (List.mem_cons_of_mem _ hmem)]
        exact hkeep id fun h => hidout (h ▸ List.mem_cons_self)
    · obtain ⟨later, hrun, hseeds, hlater, houtside⟩ :=
        ih hnodup hneRest (fun other hmem => hstates other (List.mem_cons_of_mem _ hmem)) hrest
      refine ⟨later, ?_, hseeds, ?_, ?_⟩
      · rw [if_neg hcase]
        exact hrun
      · intro other hmem
        rcases List.mem_cons.mp hmem with rfl | hmem
        · rw [houtside _ hfresh, hhere]
          cases hrow : run.stateOf other.operationId with
          | none => rfl
          | some state =>
            rw [Option.map_some, attempted, if_neg]
            rw [hrow] at hcase
            simpa using hcase
        · exact hlater other hmem
      · intro id hid
        exact houtside id fun hmem => hid (List.mem_cons_of_mem _ hmem)

theorem recordAttempts_ok (sha256 : Bytes → String) (env : ProcessingEnvironment) {run : TargetRun} {retryFailures : Bool}
    {fieldsOf : OperationRequest → Except String AttemptFields} {f : OperationRequest → AttemptFields}
    (hdue : ∀ operation ∈ run.target.operations, ∀ state, run.stateOf operation.operationId = some state →
      operation.requested = true → eligible state retryFailures = true → Recordable fieldsOf f operation state) :
    ∃ states, recordAttempts sha256 env run retryFailures fieldsOf = .ok states ∧
      states.map (·.toWorkOrderOperationSeed) = run.states.map (·.toWorkOrderOperationSeed) ∧
      ∀ operation ∈ run.target.operations,
        states.find? (fun state => state.operationId = operation.operationId) =
          (run.stateOf operation.operationId).map (attempted sha256 env retryFailures f operation) := by
  obtain ⟨states, hrun, hseeds, hstates, -⟩ := recordAttempts_fold sha256 env
    (nodup_operationIds run.target) (fun operation h => operationId_ne h)
    (fun operation _ => (rfl : run.stateOf operation.operationId = _)) hdue
  exact ⟨states, hrun, hseeds, hstates⟩

/-! ## Runs -/

structure Tracked (run : TargetRun) : Prop where
  seeds : run.states.map (·.toWorkOrderOperationSeed) = run.target.rows
  check : ∀ state ∈ run.states, state.check = true

section Tracked
variable {run : TargetRun} {retryFailures : Bool}

theorem Tracked.nodup (h : Tracked run) : (run.states.map (·.operationId)).Nodup := by
  have hids : run.states.map (·.operationId) = run.target.rows.map (·.operationId) := by
    rw [← h.seeds, List.map_map]
    rfl
  rw [hids]
  exact run.target.nodup

theorem Tracked.stateOf_mem (h : Tracked run) {state : OperationState} (hstate : state ∈ run.states) :
    run.stateOf state.operationId = some state :=
  find?_key h.nodup hstate

theorem mem_of_stateOf {id : String} {state : OperationState} (h : run.stateOf id = some state) :
    state ∈ run.states ∧ state.operationId = id :=
  ⟨List.mem_of_find?_eq_some h, by simpa using List.find?_some h⟩

theorem Tracked.exists_state (h : Tracked run) {operation : OperationRequest} (hop : operation ∈ run.target.operations) :
    ∃ state, run.stateOf operation.operationId = some state ∧ state.selected = operation.eligible := by
  obtain ⟨row, hrow, hrequest⟩ := exists_row hop
  have heligible := eligible_iff (run.target.resolved row hrow) hrequest
  have hid := (operationRequest_ok hrequest).1
  rw [← h.seeds] at hrow
  obtain ⟨state, hstate, rfl⟩ := List.mem_map.mp hrow
  refine ⟨state, ?_, heligible.symm⟩
  rw [hid]
  exact h.stateOf_mem hstate

theorem Tracked.exists_operation (h : Tracked run) {state : OperationState} (hstate : state ∈ run.states) :
    ∃ operation ∈ run.target.operations, operation.operationId = state.operationId := by
  have hrow : state.toWorkOrderOperationSeed ∈ run.target.rows := by
    rw [← h.seeds]
    exact List.mem_map_of_mem hstate
  have hmem : state.operationId ∈ operationIds run.target.operations := by
    rw [operationIds_operations]
    exact List.mem_map.mpr ⟨_, hrow, rfl⟩
  exact List.mem_map.mp hmem

theorem Tracked.selected (h : Tracked run) {operation : OperationRequest} (hop : operation ∈ run.target.operations)
    {state : OperationState} (hstate : run.stateOf operation.operationId = some state) :
    state.selected = operation.eligible ∧ state.check = true := by
  obtain ⟨other, hother, hselected⟩ := h.exists_state hop
  rw [hstate] at hother
  obtain rfl := Option.some.inj hother
  exact ⟨hselected, h.check state (mem_of_stateOf hstate).1⟩

theorem Tracked.eligible (h : Tracked run) {operation : OperationRequest} (hop : operation ∈ run.target.operations)
    {state : OperationState} (hstate : run.stateOf operation.operationId = some state)
    (hstatus : state.status ∈ [.pending, .succeeded, .failed]) : operation.eligible = true := by
  obtain ⟨hselected, hcheck⟩ := h.selected hop hstate
  replace hcheck := status_of_check hcheck
  rw [← hselected]
  by_contra hne
  rw [if_neg hne] at hcheck
  revert hstatus hcheck
  generalize state.status = status
  revert status
  decide

theorem status_of_eligible {state : OperationState} (h : Processing.eligible state retryFailures = true) :
    state.status ∈ [.pending, .succeeded, .failed] := by
  simp only [Processing.eligible, Bool.or_eq_true, Bool.and_eq_true, decide_eq_true_eq] at h
  rcases h with h | h
  · rw [h]
    decide
  · rw [h.1.2]
    decide

theorem requested_of_eligible {operation : OperationRequest} (h : operation.eligible = true) :
    operation.requested = true := by
  simp only [OperationRequest.eligible, Bool.and_eq_true] at h
  exact h.1

theorem Tracked.after (h : Tracked run) {states : List OperationState} {f : OperationRequest → AttemptFields}
    {manifest : Option ResultManifest} {receipt : Bool}
    (hseeds : states.map (·.toWorkOrderOperationSeed) = run.states.map (·.toWorkOrderOperationSeed))
    (hstates : ∀ operation ∈ run.target.operations,
      states.find? (fun state => state.operationId = operation.operationId) =
        (run.stateOf operation.operationId).map (attempted sha256 env retryFailures f operation))
    (hfields : ∀ operation ∈ run.target.operations, operation.eligible = true → (f operation).Consistent) :
    Tracked ⟨run.target, states, manifest, receipt⟩ := by
  refine ⟨hseeds.trans h.seeds, fun state hstate => ?_⟩
  have hnodup : (states.map (·.operationId)).Nodup := by
    have hids := congrArg (List.map (·.operationId)) hseeds
    rw [List.map_map, List.map_map] at hids
    exact hids ▸ h.nodup
  have hmem : state.operationId ∈ operationIds run.target.operations := by
    rw [operationIds_operations, ← h.seeds, ← hseeds, List.map_map]
    exact List.mem_map.mpr ⟨state, hstate, rfl⟩
  obtain ⟨operation, hop, hid⟩ := List.mem_map.mp hmem
  obtain ⟨before, hbefore, hselected⟩ := h.exists_state hop
  have hcheck := h.check before (mem_of_stateOf hbefore).1
  have hfind := hstates operation hop
  rw [hid, find?_key hnodup hstate, ← hid, hbefore] at hfind
  rw [Option.some.inj hfind]
  unfold attempted
  split
  · next hdue =>
    rw [Bool.and_eq_true] at hdue
    have heligible := h.eligible hop hbefore (status_of_eligible hdue.2)
    exact check_recorded hcheck (hselected.trans heligible) (hfields operation hop heligible)
  · exact hcheck

end Tracked

/-! ## What the rows show -/

structure Shows (state : OperationState) (fields : AttemptFields) : Prop where
  status : state.status = if fields.status = .available then .succeeded else .failed
  retryable : state.retryable = fields.retryable
  errorCode : state.errorCode = fields.storedCode

theorem shows_recorded (sha256 : Bytes → String) (env : ProcessingEnvironment) (fields : AttemptFields) (state : OperationState) :
    Shows (recorded sha256 env fields state) fields :=
  let h := recorded_eq sha256 env fields state
  ⟨h.1, h.2.1, h.2.2⟩

theorem Sound.attemptFields {operation : OperationRequest} {result : OperationResult}
    (h : Sound sha256 target operation result) (heligible : operation.eligible = true) :
    ∃ fields, Processing.attemptFields result = .ok fields ∧ fields.status = result.status ∧ fields.Consistent ∧
      (fields.retryable = true → result.status = .failed) ∧
      (result.status ≠ .available → ∃ code, Coded code ∧ fields.errorCode = some code) := by
  have hstatus := h.eligible heligible
  by_cases havailable : result.status = .available
  · refine ⟨⟨.available, none, false⟩, ?_, havailable.symm, fun _ => rfl, fun h => (by cases h), fun hne => absurd havailable hne⟩
    unfold Processing.attemptFields
    rw [havailable]
    rfl
  · obtain ⟨code, detail, rest, hdiagnostics, hcoded⟩ := h.coded heligible havailable
    have hcode : (result.diagnostics.head?.map (·.code)).getD result.status.text = code := by
      rw [hdiagnostics]
      rfl
    unfold Processing.attemptFields
    rw [hcode]
    cases hresult : result.status with
    | available => exact absurd hresult havailable
    | unsupported =>
      exact ⟨_, rfl, rfl, fun h => (by cases h), fun h => (by cases h), fun _ => ⟨code, hcoded, rfl⟩⟩
    | failed => exact ⟨_, rfl, rfl, fun h => (by cases h), fun _ => rfl, fun _ => ⟨code, hcoded, rfl⟩⟩
    | blocked =>
      rw [hresult] at hstatus
      exact absurd hstatus (by decide)
    | notRequested =>
      rw [hresult] at hstatus
      exact absurd hstatus (by decide)

theorem attemptFields_reused (result : OperationResult) :
    attemptFields (entryOf result).reused = attemptFields result := by
  have hcode : ((entryOf result).reused.diagnostics.head?.map (·.code)) = result.diagnostics.head?.map (·.code) := by
    show (((result.diagnostics.map (·.code)).map _).head?.map _) = _
    cases result.diagnostics <;> rfl
  unfold attemptFields
  rw [hcode]
  rfl

/-- The attempt that the row shows is the one of the result, or that of a retry that the worker refused. -/
def Recorded (result : OperationResult) (state : OperationState) : Prop :=
  ∃ fields, attemptFields result = .ok fields ∧
    (Shows state fields ∨ (fields.retryable = true ∧ Shows state processingFailed))

theorem storedCode_coded {fields : AttemptFields} {code : String} (hcode : Coded code)
    (hfields : fields.errorCode = some code) (hstatus : fields.status ≠ .available) :
    fields.storedCode = some (fields.status.text ++ ":" ++ code) := by
  unfold AttemptFields.storedCode
  rw [if_neg hstatus, hfields]
  show some (_ ++ if code = "" then _ else code) = _
  rw [if_neg hcode.1]

theorem storedCode_processingFailed : processingFailed.storedCode = some "failed:target_processing_failed" := by
  decide +kernel

theorem storedCode_ne {fields : AttemptFields} (hstatus : fields.status ∈ [.available, .failed, .unsupported])
    (hcode : fields.status ≠ .available → ∃ code, Coded code ∧ fields.errorCode = some code) :
    fields.storedCode ≠ processingFailed.storedCode := by
  rw [storedCode_processingFailed]
  by_cases havailable : fields.status = .available
  · unfold AttemptFields.storedCode
    rw [if_pos havailable]
    exact (Option.some_ne_none _).symm
  · obtain ⟨code, hcoded, hfields⟩ := hcode havailable
    rw [storedCode_coded hcoded hfields havailable]
    intro heq
    have htext := congrArg String.toList (Option.some.inj heq)
    cases hfield : fields.status with
    | failed =>
      rw [hfield] at htext
      have hlist : "failed:".toList ++ code.toList = "failed:".toList ++ "target_processing_failed".toList := by
        rw [String.toList_append] at htext
        exact htext
      have hcodeList := List.append_cancel_left hlist
      exact hcoded.2 (String.toList_inj.mp hcodeList)
    | unsupported =>
      rw [hfield, String.toList_append] at htext
      have hhead : some 'u' = some 'f' := congrArg List.head? htext
      exact absurd hhead (by decide)
    | available => exact havailable hfield
    | blocked =>
      rw [hfield] at hstatus
      exact absurd hstatus (by decide)
    | notRequested =>
      rw [hfield] at hstatus
      exact absurd hstatus (by decide)

theorem operationStatus_failed {state : OperationState} {status : ResultStatus} {code : String}
    (hfailed : state.status = .failed) (hstatus : status ∈ [.failed, .unsupported])
    (hcode : state.errorCode = some (status.text ++ ":" ++ code)) :
    operationStatus state = .unsupported ↔ status = .unsupported := by
  unfold operationStatus
  rw [hfailed, hcode]
  have htext : (status.text ++ ":" ++ code).toList = (status.text ++ ":").toList ++ code.toList := String.toList_append
  simp only [Option.getD_some, htext]
  cases status with
  | failed =>
    have hblocked : ¬ "blocked:".toList <+: (ResultStatus.failed.text ++ ":").toList ++ code.toList := by
      intro h
      have hhead : some 'b' = some 'f' := congrArg List.head? (List.prefix_iff_eq_take.mp h)
      exact absurd hhead (by decide)
    have hunsupported : ¬ "unsupported:".toList <+: (ResultStatus.failed.text ++ ":").toList ++ code.toList := by
      intro h
      have hhead : some 'u' = some 'f' := congrArg List.head? (List.prefix_iff_eq_take.mp h)
      exact absurd hhead (by decide)
    rw [if_neg hblocked, if_neg hunsupported]
    decide
  | unsupported =>
    have hblocked : ¬ "blocked:".toList <+: (ResultStatus.unsupported.text ++ ":").toList ++ code.toList := by
      intro h
      have hhead : some 'b' = some 'u' := congrArg List.head? (List.prefix_iff_eq_take.mp h)
      exact absurd hhead (by decide)
    have hunsupported : "unsupported:".toList <+: (ResultStatus.unsupported.text ++ ":").toList ++ code.toList :=
      List.prefix_append _ _
    rw [if_neg hblocked, if_pos hunsupported]
    exact ⟨fun _ => rfl, fun _ => rfl⟩
  | available => exact absurd hstatus (by decide)
  | blocked => exact absurd hstatus (by decide)
  | notRequested => exact absurd hstatus (by decide)

section Recorded
variable {operation : OperationRequest} {result : OperationResult} {state : OperationState}

theorem Recorded.outcome (h : Recorded result state) (hsound : Sound sha256 target operation result)
    (heligible : operation.eligible = true) :
    (state.status = .succeeded ∧ result.status = .available) ∨ (state.status = .failed ∧ result.status ≠ .available) := by
  obtain ⟨fields, hok, hshows⟩ := h
  obtain ⟨fields', hok', hstatus, -, hretryable, -⟩ := hsound.attemptFields heligible
  rw [hok] at hok'
  obtain rfl := Except.ok.inj hok'
  rcases hshows with hshows | ⟨hretry, hshows⟩
  · rw [hshows.status, hstatus]
    by_cases havailable : result.status = .available
    · exact Or.inl ⟨if_pos havailable, havailable⟩
    · exact Or.inr ⟨if_neg havailable, havailable⟩
  · refine Or.inr ⟨hshows.status, ?_⟩
    rw [hretryable hretry]
    decide

theorem Recorded.retryable (h : Recorded result state) (hsound : Sound sha256 target operation result)
    (heligible : operation.eligible = true) (hretryable : state.retryable = true) : result.status = .failed := by
  obtain ⟨fields, hok, hshows⟩ := h
  obtain ⟨fields', hok', -, -, hfailed, -⟩ := hsound.attemptFields heligible
  rw [hok] at hok'
  obtain rfl := Except.ok.inj hok'
  rcases hshows with hshows | ⟨hretry, -⟩
  · exact hfailed (hshows.retryable.symm.trans hretryable)
  · exact hfailed hretry

theorem Recorded.unsupported_iff (h : Recorded result state) (hsound : Sound sha256 target operation result)
    (heligible : operation.eligible = true) (hfailed : state.status = .failed) :
    operationStatus state = .unsupported ↔ result.status = .unsupported := by
  have houtcome := h.outcome hsound heligible
  have hstatuses := hsound.eligible heligible
  obtain ⟨fields, hok, hshows⟩ := h
  obtain ⟨fields', hok', hstatus, -, hretryable, hcode⟩ := hsound.attemptFields heligible
  rw [hok] at hok'
  obtain rfl := Except.ok.inj hok'
  rcases hshows with hshows | ⟨hretry, hshows⟩
  · have havailable : result.status ≠ .available := by
      rcases houtcome with ⟨hsucceeded, -⟩ | ⟨-, hne⟩
      · rw [hfailed] at hsucceeded
        cases hsucceeded
      · exact hne
    obtain ⟨code, hcoded, hfields⟩ := hcode havailable
    have hstored := hshows.errorCode
    rw [storedCode_coded hcoded hfields (hstatus ▸ havailable), hstatus] at hstored
    refine operationStatus_failed hfailed ?_ hstored
    exact (List.mem_cons.mp hstatuses).resolve_left havailable
  · have hentry := hretryable hretry
    have hstored : state.errorCode = some (ResultStatus.failed.text ++ ":" ++ "target_processing_failed") := by
      rw [hshows.errorCode]
      decide +kernel
    rw [operationStatus_failed hfailed List.mem_cons_self hstored, hentry]

end Recorded

/-! ## Phases of a target -/

structure Fresh (run : TargetRun) : Prop where
  manifest : run.manifest = none
  pending : ∀ operation ∈ run.target.operations, operation.eligible = true →
    ∀ state, run.stateOf operation.operationId = some state → state.status = .pending

structure Lost (run : TargetRun) : Prop where
  manifest : run.manifest = none
  failed : ∀ operation ∈ run.target.operations, operation.eligible = true →
    ∀ state, run.stateOf operation.operationId = some state → state.status = .failed ∧ state.retryable = false

structure Settled (sha256 : Bytes → String) (run : TargetRun) (results : List OperationResult) : Prop where
  manifest : run.manifest = some ⟨run.receipt, results.map entryOf⟩
  covers : Covers sha256 run.target results
  recorded : ∀ operation ∈ run.target.operations, operation.eligible = true →
    ∀ state, run.stateOf operation.operationId = some state →
      ∃ result ∈ results, result.operationId = operation.operationId ∧ Recorded result state

structure Kept (sha256 : Bytes → String) (run : TargetRun) : Prop where
  tracked : Tracked run
  phase : Fresh run ∨ Lost run ∨ ∃ results, Settled sha256 run results

section Phases
variable {run : TargetRun} {retryFailures : Bool}

theorem TargetRun.Ready.kept (h : run.Ready) : Kept sha256 run := by
  have htracked : Tracked run := by
    constructor
    · rw [h.states, List.map_map]
      exact List.map_id _
    · intro state hstate
      rw [h.states] at hstate
      obtain ⟨row, hrow, rfl⟩ := List.mem_map.mp hstate
      exact (run.target.resolved row hrow).check
  refine ⟨htracked, Or.inl ⟨h.manifest, ?_⟩⟩
  intro operation hop heligible state hstate
  obtain ⟨other, hother, hselected⟩ := htracked.exists_state hop
  rw [hstate] at hother
  obtain rfl := Option.some.inj hother
  have hmem := (mem_of_stateOf hstate).1
  rw [h.states] at hmem
  obtain ⟨row, hrow, rfl⟩ := List.mem_map.mp hmem
  have hrowSelected : row.selected = true := hselected.trans heligible
  obtain ⟨hrequested, hsupported⟩ := supported_of_selected (run.target.resolved row hrow).check hrowSelected
  have hblocked : row.seedStatus = .blocked := by
    replace hrequested : row.requested = true := hrequested
    replace hsupported : row.supportStatus = .supported := hsupported
    simp [WorkOrderOperationSeed.seedStatus, hrowSelected, hrequested, hsupported]
  exact if_pos hblocked

def Due (run : TargetRun) (retryFailures : Bool) : Prop :=
  ∃ operation ∈ run.target.operations, ∃ state, run.stateOf operation.operationId = some state ∧
    eligible state retryFailures = true

theorem due_iff (h : Tracked run) : (run.target.rows.any fun row =>
    row.requested && (run.stateOf row.operationId).any (eligible · retryFailures)) = true ↔ Due run retryFailures := by
  rw [List.any_eq_true]
  constructor
  · rintro ⟨row, hrow, hdue⟩
    rw [Bool.and_eq_true, Option.any_eq_true] at hdue
    obtain ⟨-, state, hstate, heligible⟩ := hdue
    have hmem : row.operationId ∈ operationIds run.target.operations := by
      rw [operationIds_operations]
      exact List.mem_map_of_mem hrow
    obtain ⟨operation, hop, hid⟩ := List.mem_map.mp hmem
    exact ⟨operation, hop, state, hid ▸ hstate, heligible⟩
  · rintro ⟨operation, hop, state, hstate, heligible⟩
    obtain ⟨hmem, hid⟩ := mem_of_stateOf hstate
    have hrow : state.toWorkOrderOperationSeed ∈ run.target.rows := by
      rw [← h.seeds]
      exact List.mem_map_of_mem hmem
    obtain ⟨other, hother, hselected⟩ := h.exists_state hop
    rw [hstate] at hother
    obtain rfl := Option.some.inj hother
    have hrequested := supported_of_selected (h.check state hmem)
      (hselected.trans (h.eligible hop hstate (status_of_eligible heligible)))
    refine ⟨_, hrow, ?_⟩
    rw [Bool.and_eq_true, Option.any_eq_true]
    exact ⟨hrequested.1, state, h.stateOf_mem hmem, heligible⟩

theorem Kept.read (hhex : ∀ bytes, isSha256HexDigest (sha256 bytes) = true) (h : Kept sha256 run) :
    readPriorProcessingResult run.target run.receipt run.manifest = .ok run.manifest := by
  rcases h.phase with hfresh | hlost | ⟨results, hsettled⟩
  · rw [hfresh.manifest]
    rfl
  · rw [hlost.manifest]
    rfl
  · rw [hsettled.manifest]
    exact hsettled.covers.read hhex run.receipt

theorem Kept.known (h : Kept sha256 run) :
    (∀ state ∈ run.states, state.operationId ∈ run.target.rows.map (·.operationId)) ∧
      ∀ id ∈ run.target.rows.map (·.operationId), (run.stateOf id).isSome := by
  constructor
  · intro state hstate
    obtain ⟨operation, hop, hid⟩ := h.tracked.exists_operation hstate
    rw [← operationIds_operations, ← hid]
    exact List.mem_map_of_mem hop
  · intro id hid
    rw [← operationIds_operations] at hid
    obtain ⟨operation, hop, rfl⟩ := List.mem_map.mp hid
    obtain ⟨state, hstate, -⟩ := h.tracked.exists_state hop
    rw [hstate]
    rfl

theorem Kept.succeeded (h : Kept sha256 run) : ¬ (run.manifest = none ∧ ∃ state ∈ run.states, state.status = .succeeded) := by
  rintro ⟨hmanifest, state, hmem, hsucceeded⟩
  obtain ⟨operation, hop, hid⟩ := h.tracked.exists_operation hmem
  have hstate := h.tracked.stateOf_mem hmem
  rw [← hid] at hstate
  have heligible := h.tracked.eligible hop hstate (by rw [hsucceeded]; decide)
  rcases h.phase with hfresh | hlost | ⟨results, hsettled⟩
  · rw [hfresh.pending operation hop heligible state hstate] at hsucceeded
    cases hsucceeded
  · rw [(hlost.failed operation hop heligible state hstate).1] at hsucceeded
    cases hsucceeded
  · rw [hsettled.manifest] at hmanifest
    cases hmanifest

theorem Kept.process_idle (hhex : ∀ bytes, isSha256HexDigest (sha256 bytes) = true) (h : Kept sha256 run)
    (hdue : ¬ Due run retryFailures) : processAcquiredTarget sha256 env retryFailures run = .ok (false, run) := by
  have hrow := mt (due_iff h.tracked).mp hdue
  unfold processAcquiredTarget
  simp only [bind_eq_ok, ensure_eq_ok, h.read hhex, Except.ok.injEq]
  refine ⟨(), h.known, _, rfl, ?_⟩
  rw [if_pos (by simpa using hrow)]
  simp only [bind_eq_ok, ensure_eq_ok]
  exact ⟨(), h.succeeded, rfl⟩

theorem Kept.process_due (hhex : ∀ bytes, isSha256HexDigest (sha256 bytes) = true) (h : Kept sha256 run)
    (hdue : Due run retryFailures) {after : Bool × TargetRun}
    (hprocess : (match processOperations sha256 env run run.manifest retryFailures with
      | .error (.integration message) => throw message
      | .error (.processing _) => do
        let states ← recordAttempts sha256 env run retryFailures fun _ => pure processingFailed
        pure (true, { run with states := states })
      | .ok (results, receipt) => do
        let manifest ← persistProcessingResult run.target results receipt
        let states ← recordAttempts sha256 env run retryFailures (resultFields results)
        pure (true, ⟨run.target, states, some manifest, receipt⟩)) = Except.ok after) :
    processAcquiredTarget sha256 env retryFailures run = .ok after := by
  have hrow := (due_iff h.tracked).mpr hdue
  unfold processAcquiredTarget
  simp only [bind_eq_ok, ensure_eq_ok, h.read hhex, Except.ok.injEq]
  refine ⟨(), h.known, _, rfl, ?_⟩
  rw [if_neg (by simpa using hrow)]
  exact hprocess

def fieldsIn (results : List OperationResult) (operation : OperationRequest) : AttemptFields :=
  (resultFields results operation).toOption.getD processingFailed

theorem Covers.fields {results : List OperationResult} (h : Covers sha256 target results) {operation : OperationRequest}
    (hop : operation ∈ target.operations) (heligible : operation.eligible = true) :
    ∃ result ∈ results, result.operationId = operation.operationId ∧ attemptFields result = .ok (fieldsIn results operation) ∧
      resultFields results operation = .ok (fieldsIn results operation) ∧ (fieldsIn results operation).Consistent := by
  obtain ⟨result, hresult, hid⟩ := h.exists_result hop
  obtain ⟨fields, hok, -, hconsistent, -⟩ := (h.sound operation hop result hresult hid).attemptFields heligible
  have hfields : resultFields results operation = .ok fields := by
    unfold resultFields
    rw [← hid, h.find hresult]
    exact hok
  have heq : fieldsIn results operation = fields := by
    unfold fieldsIn
    rw [hfields]
    rfl
  rw [heq]
  exact ⟨result, hresult, hid, hok, hfields, hconsistent⟩

theorem Kept.process_ok (hhex : ∀ bytes, isSha256HexDigest (sha256 bytes) = true) (h : Kept sha256 run)
    (hdue : Due run retryFailures) {results : List OperationResult} {receipt : Bool}
    (hprocess : processOperations sha256 env run run.manifest retryFailures = .ok (results, receipt))
    (hcovers : Covers sha256 run.target results) :
    ∃ states, processAcquiredTarget sha256 env retryFailures run =
        .ok (true, ⟨run.target, states, some ⟨receipt, results.map entryOf⟩, receipt⟩) ∧
      Tracked ⟨run.target, states, some ⟨receipt, results.map entryOf⟩, receipt⟩ ∧
      ∀ operation ∈ run.target.operations, states.find? (fun state => state.operationId = operation.operationId) =
        (run.stateOf operation.operationId).map (attempted sha256 env retryFailures (fieldsIn results) operation) := by
  have hrecordable : ∀ operation ∈ run.target.operations, ∀ state, run.stateOf operation.operationId = some state →
      operation.requested = true → eligible state retryFailures = true →
      Recordable (resultFields results) (fieldsIn results) operation state := by
    intro operation hop state hstate hrequested heligible
    obtain ⟨hselected, hcheck⟩ := h.tracked.selected hop hstate
    have hop' := h.tracked.eligible hop hstate (status_of_eligible heligible)
    obtain ⟨result, -, -, -, hfields, hconsistent⟩ := hcovers.fields hop hop'
    exact ⟨hcheck, hselected.trans hop', hfields, hconsistent⟩
  obtain ⟨states, hstates, hseeds, hrows⟩ := recordAttempts_ok sha256 env hrecordable
  refine ⟨states, ?_, ?_, hrows⟩
  · apply h.process_due hhex hdue
    rw [hprocess]
    simp only [bind_eq_ok]
    exact ⟨_, hcovers.persist receipt, states, hstates, rfl⟩
  · refine h.tracked.after hseeds hrows fun operation hop heligible => ?_
    obtain ⟨result, -, -, -, -, hconsistent⟩ := hcovers.fields hop heligible
    exact hconsistent

theorem Kept.process_refused (hhex : ∀ bytes, isSha256HexDigest (sha256 bytes) = true) (h : Kept sha256 run)
    (hdue : Due run retryFailures) {message : String}
    (hprocess : processOperations sha256 env run run.manifest retryFailures = .error (.processing message)) :
    ∃ states, processAcquiredTarget sha256 env retryFailures run = .ok (true, { run with states := states }) ∧
      Tracked { run with states := states } ∧
      ∀ operation ∈ run.target.operations, states.find? (fun state => state.operationId = operation.operationId) =
        (run.stateOf operation.operationId).map (attempted sha256 env retryFailures (fun _ => processingFailed) operation) := by
  have hconsistent : processingFailed.Consistent := fun _ => rfl
  have hrecordable : ∀ operation ∈ run.target.operations, ∀ state, run.stateOf operation.operationId = some state →
      operation.requested = true → eligible state retryFailures = true →
      Recordable (fun _ => pure processingFailed) (fun _ => processingFailed) operation state := by
    intro operation hop state hstate hrequested heligible
    obtain ⟨hselected, hcheck⟩ := h.tracked.selected hop hstate
    have hop' := h.tracked.eligible hop hstate (status_of_eligible heligible)
    exact ⟨hcheck, hselected.trans hop', rfl, hconsistent⟩
  obtain ⟨states, hstates, hseeds, hrows⟩ := recordAttempts_ok sha256 env hrecordable
  refine ⟨states, ?_, ?_, hrows⟩
  · apply h.process_due hhex hdue
    rw [hprocess]
    simp only [bind_eq_ok]
    exact ⟨states, hstates, rfl⟩
  · exact h.tracked.after hseeds hrows fun _ _ _ => hconsistent

/-! ## The call of a retry -/

theorem exists_raw (target : AcquiredTarget) : ∃ operation ∈ target.operations, operation.operation = "raw" := by
  have hrequests := target.requests
  simp only [operationRequests, bind_eq_ok, ensure_eq_ok] at hrequests
  obtain ⟨operations, -, _, hcount, hpure⟩ := hrequests
  cases hpure
  have hpos : 0 < target.operations.countP (fun operation => operation.operation = "raw") := by
    rw [hcount.2]
    exact Nat.one_pos
  obtain ⟨operation, hop, hraw⟩ := List.countP_pos_iff.mp hpos
  exact ⟨operation, hop, by simpa using hraw⟩

theorem mem_reusedIds {id : String} : id ∈ reusedIds run retryFailures ↔ ∃ operation ∈ run.target.operations,
    operation.operationId = id ∧ operation.requested = true ∧ ∃ state, run.stateOf id = some state ∧
      (state.status = .succeeded ∨ state.status = .failed) ∧ eligible state retryFailures = false := by
  simp only [reusedIds, operationIds, List.mem_map, List.mem_filter, Bool.and_eq_true, Option.any_eq_true,
    Bool.or_eq_true, decide_eq_true_eq, Bool.not_eq_true', and_assoc]
  constructor
  · rintro ⟨operation, hop, hrequested, ⟨state, hstate, hstatus, heligible⟩, rfl⟩
    exact ⟨operation, hop, rfl, hrequested, state, hstate, hstatus, heligible⟩
  · rintro ⟨operation, hop, rfl, hrequested, state, hstate, hstatus, heligible⟩
    exact ⟨operation, hop, hrequested, ⟨state, hstate, hstatus, heligible⟩, rfl⟩

theorem mem_retriedIds {id : String} : id ∈ retriedIds run retryFailures ↔ ∃ operation ∈ run.target.operations,
    operation.operationId = id ∧ operation.requested = true ∧ ∃ state, run.stateOf id = some state ∧
      eligible state retryFailures = true := by
  simp only [retriedIds, operationIds, List.mem_map, List.mem_filter, Bool.and_eq_true, Option.any_eq_true, and_assoc]
  constructor
  · rintro ⟨operation, hop, hrequested, ⟨state, hstate, heligible⟩, rfl⟩
    exact ⟨operation, hop, rfl, hrequested, state, hstate, heligible⟩
  · rintro ⟨operation, hop, rfl, hrequested, state, hstate, heligible⟩
    exact ⟨operation, hop, hrequested, ⟨state, hstate, heligible⟩, rfl⟩

theorem mem_priorResults {results : List OperationResult} {receipt : Bool} {ids : List String} {prior : OperationResult} :
    prior ∈ priorResults ⟨receipt, results.map entryOf⟩ ids ↔ ∃ result ∈ results,
      result.status ∈ reusableStatuses ∧ result.operationId ∈ ids ∧ (entryOf result).reused = prior := by
  have hstatuses : ∀ status : ResultStatus, status ∈ [ResultStatus.available, .blocked, .failed] ↔
      status ∈ reusableStatuses := by
    intro status
    cases status <;> decide
  simp only [priorResults, List.mem_map, List.mem_filter, Bool.and_eq_true, decide_eq_true_eq, hstatuses]
  constructor
  · rintro ⟨entry, ⟨⟨result, hresult, rfl⟩, hstatus, hid⟩, rfl⟩
    exact ⟨result, hresult, hstatus, hid, rfl⟩
  · rintro ⟨result, hresult, hstatus, hid, rfl⟩
    exact ⟨_, ⟨⟨result, hresult, rfl⟩, hstatus, hid⟩, rfl⟩

theorem nodup_priorResults {results : List OperationResult} (receipt : Bool) (ids : List String)
    (hnodup : (results.map (·.operationId)).Nodup) :
    ((priorResults ⟨receipt, results.map entryOf⟩ ids).map (·.operationId)).Nodup := by
  have hmap : (priorResults ⟨receipt, results.map entryOf⟩ ids).map (·.operationId) =
      ((results.map entryOf).filter fun entry =>
        entry.status ∈ [ResultStatus.available, .blocked, .failed] && entry.operationId ∈ ids).map (·.operationId) := by
    rw [priorResults, List.map_map]
    rfl
  rw [hmap]
  refine List.Nodup.sublist (List.Sublist.map _ List.filter_sublist) ?_
  rw [List.map_map]
  exact hnodup

theorem nodup_retriedIds (run : TargetRun) : (retriedIds run retryFailures).Nodup :=
  List.Nodup.sublist (List.Sublist.map _ List.filter_sublist) (nodup_operationIds run.target)

section Settled
variable {results : List OperationResult}

theorem Settled.shown (h : Settled sha256 run results) (hkept : Kept sha256 run) {operation : OperationRequest}
    (hop : operation ∈ run.target.operations) (heligible : operation.eligible = true) :
    ∃ state result, run.stateOf operation.operationId = some state ∧ result ∈ results ∧
      result.operationId = operation.operationId ∧ Sound sha256 run.target operation result ∧ Recorded result state := by
  obtain ⟨state, hstate, -⟩ := hkept.tracked.exists_state hop
  obtain ⟨result, hresult, hid, hrecorded⟩ := h.recorded operation hop heligible state hstate
  exact ⟨state, result, hstate, hresult, hid, h.covers.sound operation hop result hresult hid, hrecorded⟩

theorem eligible_eq_of_succeeded (retryFailures : Bool) {state : OperationState} (h : state.status = .succeeded) :
    eligible state retryFailures = false := by
  simp [eligible, h]

theorem Settled.raw_succeeded (h : Settled sha256 run results) {operation : OperationRequest}
    (hop : operation ∈ run.target.operations) (hraw : operation.operation = "raw") {state : OperationState}
    (hstate : run.stateOf operation.operationId = some state) : state.status = .succeeded := by
  obtain ⟨heligible, result, hresult, hid, havailable⟩ := h.covers.raw operation hop hraw
  obtain ⟨other, hother, hotherId, hrecorded⟩ := h.recorded operation hop heligible state hstate
  have heq := h.covers.eq hother hresult (hotherId.trans hid.symm)
  have hsound := h.covers.sound operation hop other hother hotherId
  rcases hrecorded.outcome hsound heligible with ⟨hsucceeded, -⟩ | ⟨-, hne⟩
  · exact hsucceeded
  · rw [heq] at hne
    exact absurd havailable hne

theorem Settled.reused_ne (h : Settled sha256 run results) (hkept : Kept sha256 run) : reusedIds run retryFailures ≠ [] := by
  obtain ⟨operation, hop, hraw⟩ := exists_raw run.target
  obtain ⟨state, hstate, -⟩ := hkept.tracked.exists_state hop
  have hsucceeded := h.raw_succeeded hop hraw hstate
  have hmem : operation.operationId ∈ reusedIds run retryFailures := mem_reusedIds.mpr ⟨operation, hop, rfl,
    requested_of_eligible (h.covers.raw operation hop hraw).1, state, hstate, Or.inl hsucceeded,
    eligible_eq_of_succeeded _ hsucceeded⟩
  exact List.ne_nil_of_mem hmem

theorem Settled.processOperations_eq (h : Settled sha256 run results) (hkept : Kept sha256 run)
    (env : ProcessingEnvironment) (retryFailures : Bool) :
    processOperations sha256 env run run.manifest retryFailures =
      (processTarget sha256 run.target env run.receipt
        (some (priorResults ⟨run.receipt, results.map entryOf⟩ (reusedIds run retryFailures)))
        (some (retriedIds run retryFailures))).mapError .processing := by
  unfold processOperations
  rw [if_neg (h.reused_ne hkept), h.manifest]

theorem Settled.prior_iff (h : Settled sha256 run results) (hkept : Kept sha256 run) (retryFailures : Bool) {operation : OperationRequest}
    (hop : operation ∈ run.target.operations) (heligible : operation.eligible = true) {state : OperationState}
    (hstate : run.stateOf operation.operationId = some state) :
    operation.operationId ∈ (priorResults ⟨run.receipt, results.map entryOf⟩ (reusedIds run retryFailures)).map
        (·.operationId) ↔
      eligible state retryFailures = false ∧ ¬ (state.status = .failed ∧ operationStatus state = .unsupported) := by
  obtain ⟨other, result, hother, hresult, hid, hsound, hrecorded⟩ := h.shown hkept hop heligible
  rw [hstate] at hother
  obtain rfl := Option.some.inj hother
  have houtcome := hrecorded.outcome hsound heligible
  have hstatus := hsound.eligible heligible
  have hreusable : result.status ∈ reusableStatuses ↔ ¬ (state.status = .failed ∧ operationStatus state = .unsupported) := by
    have hunsupported : result.status ∈ reusableStatuses ↔ result.status ≠ .unsupported := by
      revert hstatus
      generalize result.status = status
      revert status
      decide
    rw [hunsupported]
    constructor
    · rintro hne ⟨hfailed, hreported⟩
      exact hne ((hrecorded.unsupported_iff hsound heligible hfailed).mp hreported)
    · intro hnot hentry
      rcases houtcome with ⟨-, havailable⟩ | ⟨hfailed, -⟩
      · rw [hentry] at havailable
        cases havailable
      · exact hnot ⟨hfailed, (hrecorded.unsupported_iff hsound heligible hfailed).mpr hentry⟩
  rw [← hreusable, List.mem_map]
  constructor
  · rintro ⟨prior, hprior, hpriorId⟩
    obtain ⟨source, hsource, hsourceStatus, hreused, rfl⟩ := mem_priorResults.mp hprior
    replace hpriorId : source.operationId = operation.operationId := hpriorId
    have heq := h.covers.eq hsource hresult (hpriorId.trans hid.symm)
    rw [heq, hid] at hreused
    obtain ⟨_, -, -, -, row, hrow, -, hidle⟩ := mem_reusedIds.mp hreused
    rw [hstate] at hrow
    obtain rfl := Option.some.inj hrow
    exact ⟨hidle, heq ▸ hsourceStatus⟩
  · rintro ⟨hidle, hentry⟩
    refine ⟨(entryOf result).reused, mem_priorResults.mpr ⟨result, hresult, hentry, ?_, rfl⟩, hid⟩
    rw [hid]
    refine mem_reusedIds.mpr ⟨operation, hop, rfl, requested_of_eligible heligible, state, hstate, ?_, hidle⟩
    rcases houtcome with ⟨hsucceeded, -⟩ | ⟨hfailed, -⟩
    · exact Or.inl hsucceeded
    · exact Or.inr hfailed

theorem Settled.prior_sound (h : Settled sha256 run results) {ids : List String} {operation : OperationRequest}
    (hop : operation ∈ run.target.operations) {prior : OperationResult}
    (hprior : prior ∈ priorResults ⟨run.receipt, results.map entryOf⟩ ids)
    (hid : prior.operationId = operation.operationId) : Sound sha256 run.target operation prior := by
  obtain ⟨result, hresult, -, -, rfl⟩ := mem_priorResults.mp hprior
  exact (h.covers.sound operation hop result hresult hid).reused

theorem Returned.mem_of_prior {prior results : List OperationResult} {selected : List String} {raw : OperationRequest}
    {source : Option Bytes} (h : Returned sha256 target env prior selected raw source results)
    (hnodup : (prior.map (·.operationId)).Nodup) {operation : OperationRequest} (hop : operation ∈ target.operations)
    {result : OperationResult} (hresult : result ∈ prior) (hid : result.operationId = operation.operationId) :
    result ∈ results := by
  have hfind : prior.find? (fun other => other.operationId = operation.operationId) = some result := by
    rw [← hid]
    exact find?_key hnodup hresult
  refine (mem_mapM h.gives).mpr ⟨operation, hop, ?_⟩
  unfold operationResult
  rw [hfind]
  rfl

theorem Settled.step_ok (hhex : ∀ bytes, isSha256HexDigest (sha256 bytes) = true) (h : Settled sha256 run results)
    (hkept : Kept sha256 run) {later : List OperationResult} {receipt : Bool}
    (hprocess : processTarget sha256 run.target env run.receipt
      (some (priorResults ⟨run.receipt, results.map entryOf⟩ (reusedIds run retryFailures)))
      (some (retriedIds run retryFailures)) = .ok (later, receipt))
    {states : List OperationState} (hrows : ∀ operation ∈ run.target.operations,
      states.find? (fun state => state.operationId = operation.operationId) =
        (run.stateOf operation.operationId).map (attempted sha256 env retryFailures (fieldsIn later) operation)) :
    Settled sha256 ⟨run.target, states, some ⟨receipt, later.map entryOf⟩, receipt⟩ later := by
  obtain ⟨prior, selected, raw, source, hselect, hreturned, -⟩ := processTarget_eq_ok.mp hprocess
  obtain ⟨rfl, rfl, hcover⟩ := selectOperationExecution_some hselect
  have hnodup := nodup_priorResults run.receipt (reusedIds run retryFailures) h.covers.nodup
  have hcovers : Covers sha256 run.target later :=
    hreturned.covers hhex fun operation hop result hresult hid => h.prior_sound hop hresult hid
  refine ⟨rfl, hcovers, ?_⟩
  intro operation hop heligible state hstate
  replace hstate : states.find? (fun state => state.operationId = operation.operationId) = some state := hstate
  obtain ⟨before, result, hbefore, hresult, hid, hsound, hrecorded⟩ := h.shown hkept hop heligible
  rw [hrows operation hop, hbefore, Option.map_some, Option.some.injEq] at hstate
  obtain rfl := hstate.symm
  unfold attempted
  by_cases hdue : eligible before retryFailures = true
  · obtain ⟨new, hnew, hnewId, hok, -⟩ := hcovers.fields hop heligible
    rw [if_pos (by rw [requested_of_eligible heligible, hdue]; rfl)]
    exact ⟨new, hnew, hnewId, _, hok, Or.inl (shows_recorded sha256 env _ _)⟩
  · -- what is not due is covered by an earlier result
    rw [if_neg (by rw [Bool.and_eq_true]; exact fun hboth => hdue hboth.2)]
    have hnotSelected : operation.operationId ∉ retriedIds run retryFailures := by
      intro hmem
      obtain ⟨_, -, -, -, row, hrow, hrowDue⟩ := mem_retriedIds.mp hmem
      rw [hbefore] at hrow
      obtain rfl := Option.some.inj hrow
      exact hdue hrowDue
    have hprior := (hcover _ (mem_eligibleIds.mpr ⟨operation, hop, heligible, rfl⟩)).resolve_left hnotSelected
    obtain ⟨taken, htaken, htakenId⟩ := List.mem_map.mp hprior
    have hmem := hreturned.mem_of_prior hnodup hop htaken htakenId
    obtain ⟨source, hsource, -, -, rfl⟩ := mem_priorResults.mp htaken
    have heq := h.covers.eq hsource hresult ((show source.operationId = _ from htakenId).trans hid.symm)
    refine ⟨_, hmem, htakenId, ?_⟩
    unfold Recorded
    rw [attemptFields_reused, heq]
    exact hrecorded

theorem Settled.step_refused (h : Settled sha256 run results) (hkept : Kept sha256 run)
    {states : List OperationState} (hrows : ∀ operation ∈ run.target.operations,
      states.find? (fun state => state.operationId = operation.operationId) =
        (run.stateOf operation.operationId).map (attempted sha256 env retryFailures (fun _ => processingFailed) operation)) :
    Settled sha256 { run with states := states } results := by
  refine ⟨h.manifest, h.covers, ?_⟩
  intro operation hop heligible state hstate
  replace hstate : states.find? (fun state => state.operationId = operation.operationId) = some state := hstate
  obtain ⟨before, result, hbefore, hresult, hid, hsound, hrecorded⟩ := h.shown hkept hop heligible
  rw [hrows operation hop, hbefore, Option.map_some, Option.some.injEq] at hstate
  obtain rfl := hstate.symm
  refine ⟨result, hresult, hid, ?_⟩
  unfold attempted
  split
  · next hdue =>
    rw [Bool.and_eq_true] at hdue
    have houtcome := hrecorded.outcome hsound heligible
    obtain ⟨fields, hok, hshows⟩ := hrecorded
    have hretryable : before.retryable = true := by
      have hstatus := hdue.2
      simp only [eligible, Bool.or_eq_true, Bool.and_eq_true, decide_eq_true_eq] at hstatus
      rcases hstatus with hpending | hfailed
      · rcases houtcome with ⟨hsucceeded, -⟩ | ⟨hfailed, -⟩
        · rw [hpending] at hsucceeded
          cases hsucceeded
        · rw [hpending] at hfailed
          cases hfailed
      · exact hfailed.2
    refine ⟨fields, hok, Or.inr ⟨?_, shows_recorded sha256 env _ _⟩⟩
    rcases hshows with hshows | ⟨hretry, -⟩
    · exact hshows.retryable.symm.trans hretryable
    · exact hretry
  · exact hrecorded

end Settled

theorem Fresh.reused_eq (h : Fresh run) (hkept : Kept sha256 run) : reusedIds run retryFailures = [] := by
  rw [List.eq_nil_iff_forall_not_mem]
  intro id hid
  obtain ⟨operation, hop, rfl, -, state, hstate, hstatus, -⟩ := mem_reusedIds.mp hid
  have hactive : state.status ∈ [.pending, .succeeded, .failed] := by
    rcases hstatus with hstatus | hstatus <;> rw [hstatus] <;> decide
  have heligible := hkept.tracked.eligible hop hstate hactive
  rw [h.pending operation hop heligible state hstate] at hstatus
  rcases hstatus with hstatus | hstatus <;> cases hstatus

theorem Lost.not_due (h : Lost run) (hkept : Kept sha256 run) : ¬ Due run retryFailures := by
  rintro ⟨operation, hop, state, hstate, hdue⟩
  have heligible := hkept.tracked.eligible hop hstate (status_of_eligible hdue)
  obtain ⟨hfailed, hretryable⟩ := h.failed operation hop heligible state hstate
  simp [eligible, hfailed, hretryable] at hdue

theorem attempted_idle {f : OperationRequest → AttemptFields} {operation : OperationRequest} {state : OperationState}
    (h : eligible state retryFailures = false) : attempted sha256 env retryFailures f operation state = state :=
  if_neg (by simp [h])

theorem Kept.step (hhex : ∀ bytes, isSha256HexDigest (sha256 bytes) = true) (h : Kept sha256 run)
    (env : ProcessingEnvironment) (retryFailures : Bool) :
    ∃ attemptedTarget after, processAcquiredTarget sha256 env retryFailures run = .ok (attemptedTarget, after) ∧
      Kept sha256 after ∧ ∀ operation ∈ run.target.operations, ∀ state, run.stateOf operation.operationId = some state →
        eligible state retryFailures = false → after.stateOf operation.operationId = some state := by
  by_cases hdue : Due run retryFailures
  · have hidle : ∀ {states : List OperationState} {f : OperationRequest → AttemptFields}
        (_ : ∀ operation ∈ run.target.operations, states.find? (fun state => state.operationId = operation.operationId) =
          (run.stateOf operation.operationId).map (attempted sha256 env retryFailures f operation)),
        ∀ operation ∈ run.target.operations, ∀ state, run.stateOf operation.operationId = some state →
          eligible state retryFailures = false →
          states.find? (fun state => state.operationId = operation.operationId) = some state := by
      intro states f hrows operation hop state hstate hnot
      rw [hrows operation hop, hstate, Option.map_some, attempted_idle hnot]
    rcases h.phase with hfresh | hlost | ⟨results, hsettled⟩
    · have hcall : processOperations sha256 env run run.manifest retryFailures =
          (processTarget sha256 run.target env run.receipt none none).mapError .processing := by
        unfold processOperations
        rw [if_pos (hfresh.reused_eq h)]
      cases hprocess : processTarget sha256 run.target env run.receipt none none with
      | ok outcome =>
        obtain ⟨results, receipt⟩ := outcome
        rw [hprocess] at hcall
        obtain ⟨prior, selected, raw, source, hselect, hreturned, -⟩ := processTarget_eq_ok.mp hprocess
        obtain ⟨rfl, -⟩ := selectOperationExecution_none hselect
        have hcovers : Covers sha256 run.target results :=
          hreturned.covers hhex fun _ _ result hresult => absurd hresult List.not_mem_nil
        obtain ⟨states, hrun, htracked, hrows⟩ := h.process_ok hhex hdue hcall hcovers
        refine ⟨true, _, hrun, ⟨htracked, Or.inr (Or.inr ⟨results, rfl, hcovers, ?_⟩)⟩, hidle hrows⟩
        intro operation hop heligible state hstate
        replace hstate : states.find? (fun state => state.operationId = operation.operationId) = some state := hstate
        obtain ⟨before, hbefore, -⟩ := h.tracked.exists_state hop
        have hpending := hfresh.pending operation hop heligible before hbefore
        rw [hrows operation hop, hbefore, Option.map_some, Option.some.injEq, attempted,
          if_pos (by rw [requested_of_eligible heligible]; simp [eligible, hpending])] at hstate
        obtain ⟨result, hresult, hid, hok, -⟩ := hcovers.fields hop heligible
        refine ⟨result, hresult, hid, _, hok, Or.inl ?_⟩
        rw [← hstate]
        exact shows_recorded sha256 env _ _
      | error message =>
        rw [hprocess] at hcall
        obtain ⟨states, hrun, htracked, hrows⟩ := h.process_refused hhex hdue hcall
        refine ⟨true, _, hrun, ⟨htracked, Or.inr (Or.inl ⟨hfresh.manifest, ?_⟩)⟩, hidle hrows⟩
        intro operation hop heligible state hstate
        replace hstate : states.find? (fun state => state.operationId = operation.operationId) = some state := hstate
        obtain ⟨before, hbefore, -⟩ := h.tracked.exists_state hop
        have hpending := hfresh.pending operation hop heligible before hbefore
        rw [hrows operation hop, hbefore, Option.map_some, Option.some.injEq, attempted,
          if_pos (by rw [requested_of_eligible heligible]; simp [eligible, hpending])] at hstate
        rw [← hstate]
        have hshows := shows_recorded sha256 env processingFailed before
        exact ⟨hshows.status, hshows.retryable⟩
    · exact absurd hdue (hlost.not_due h)
    · have hcall := hsettled.processOperations_eq h env retryFailures
      cases hprocess : processTarget sha256 run.target env run.receipt
          (some (priorResults ⟨run.receipt, results.map entryOf⟩ (reusedIds run retryFailures)))
          (some (retriedIds run retryFailures)) with
      | ok outcome =>
        obtain ⟨later, receipt⟩ := outcome
        rw [hprocess] at hcall
        obtain ⟨prior, selected, raw, source, hselect, hreturned, -⟩ := processTarget_eq_ok.mp hprocess
        obtain ⟨rfl, rfl, -⟩ := selectOperationExecution_some hselect
        have hcovers : Covers sha256 run.target later :=
          hreturned.covers hhex fun operation hop result hresult hid => hsettled.prior_sound hop hresult hid
        obtain ⟨states, hrun, htracked, hrows⟩ := h.process_ok hhex hdue hcall hcovers
        exact ⟨true, _, hrun, ⟨htracked, Or.inr (Or.inr ⟨later, hsettled.step_ok hhex h hprocess hrows⟩)⟩, hidle hrows⟩
      | error message =>
        rw [hprocess] at hcall
        obtain ⟨states, hrun, htracked, hrows⟩ := h.process_refused hhex hdue hcall
        exact ⟨true, _, hrun, ⟨htracked, Or.inr (Or.inr ⟨results, hsettled.step_refused h hrows⟩)⟩, hidle hrows⟩
  · exact ⟨false, run, h.process_idle hhex hdue, h, fun _ _ _ hstate _ => hstate⟩

end Phases
end EdgarSec.Acquisition.Processing
