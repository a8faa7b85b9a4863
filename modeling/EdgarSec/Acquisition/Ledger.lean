import EdgarSec.Acquisition.LedgerEffects
import EdgarSec.Foundation.Sha256

/-! The ledger of one acquisition run: histories without gaps, the records that project
them, and outcomes that stay, over every sequence of writes. -/

namespace EdgarSec.Acquisition
open Foundation Lib Tx

variable {sha256 : Bytes → String} {s t : Store}

def Store.attemptsOf (store : Store) (targetId : String) : List AcquisitionAttempt :=
  store.attempts.filter (·.targetId = targetId)

structure TargetFits (store : Store) (target : TargetState) : Prop where
  numbered : Numbered ((store.attemptsOf target.targetId).map (·.attemptNumber))
  count : target.attemptCount = (store.attemptsOf target.targetId).length
  last : target.lastAttemptId = ((store.attemptsOf target.targetId).getLast?).map (·.attemptId)

structure OperationFits (store : Store) (state : OperationState) : Prop where
  supported : state.selected = true →
    state.requested = true ∧ state.supportStatus = .supported
  numbered : Numbered ((store.operationHistory state.operationId).map (·.attemptNumber))
  count : state.attemptCount = (store.operationHistory state.operationId).length
  fresh : state.attemptCount = 0 → state.lastAttemptId = none ∧ state.retryable = false ∧
    (∀ target ∈ store.targets, target.targetId = state.targetId →
      state.status = state.expectedStatus target) ∧
    state.errorCode = state.expectedErrorCode
  tried : 0 < state.attemptCount → state.selected = true
  latest : ∀ attempt ∈ store.operationHistory state.operationId,
    attempt.attemptNumber = state.attemptCount →
      state.lastAttemptId = some attempt.attemptId ∧ state.errorCode = attempt.errorCode ∧
      state.retryable = attempt.retryable ∧ state.status = attempt.outcome.status

structure Sound (sha256 : Bytes → String) (store : Store) : Prop where
  targetIds : (store.targets.map (·.targetId)).Nodup
  operationIds : (store.operations.map (·.operationId)).Nodup
  targets : ∀ target ∈ store.targets, TargetFits store target
  operations : ∀ state ∈ store.operations, OperationFits store state
  identities : ∀ state ∈ store.operations,
    state.operationId = operationIdentity sha256 state.targetId state.operation

/-! ### `validate_operation_state` accepts sound stores -/

theorem exists_latest {state : OperationState} (hfits : OperationFits s state)
    (hpos : 0 < state.attemptCount) {latest : Option OperationAttempt}
    (hlatest : latest ∈ s.latestAttempts state) :
    ∃ attempt ∈ s.operationHistory state.operationId, latest = some attempt ∧
      attempt.attemptNumber = state.attemptCount := by
  have hlast : state.attemptCount ∈
      (s.operationHistory state.operationId).map (·.attemptNumber) := by
    rw [hfits.numbered.mem_iff, List.length_map, ← hfits.count]
    omega
  obtain ⟨newest, hnewest, hnumber⟩ := List.mem_map.mp hlast
  have hne : (s.operationHistory state.operationId).filter
      (·.attemptNumber = state.attemptCount) ≠ [] := by
    apply List.ne_nil_of_mem (a := newest)
    simp [hnewest, hnumber]
  unfold Store.latestAttempts at hlatest
  split at hlatest
  · contradiction
  · obtain ⟨attempt, hattempt, rfl⟩ := List.mem_map.mp hlatest
    simp only [List.mem_filter, decide_eq_true_eq] at hattempt
    exact ⟨attempt, hattempt.1, rfl, hattempt.2⟩

theorem mismatch_eq_false {state : OperationState} {target : TargetState}
    {latest : Option OperationAttempt} (hfits : OperationFits s state)
    (htarget : target ∈ s.targets) (hid : target.targetId = state.targetId)
    (hlatest : latest ∈ s.latestAttempts state) : s.mismatch state target latest = false := by
  have hcount := hfits.count
  have hmin : (((s.operationHistory state.operationId).map (·.attemptNumber)).min?).any
      (· ≠ 1) = false := by
    rw [Option.any_eq_false]
    intro n hn
    simpa using hfits.numbered.min_eq_one hn
  have hmax : (((s.operationHistory state.operationId).map (·.attemptNumber)).max?).any
      (· ≠ state.attemptCount) = false := by
    rw [Option.any_eq_false]
    intro n hn
    have hlength := hfits.numbered.max_eq_length hn
    rw [List.length_map, ← hcount] at hlength
    simpa using hlength
  unfold Store.mismatch
  simp only [List.length_map, hmin, hmax]
  by_cases hzero : state.attemptCount = 0
  · obtain ⟨hlast, hretry, hstatus, herror⟩ := hfits.fresh hzero
    simp [← hcount, hzero, hlast, hretry, ← hstatus target htarget hid, ← herror]
  · have hpos : 0 < state.attemptCount := by omega
    have hselected := hfits.tried hpos
    obtain ⟨hrequested, hsupported⟩ := hfits.supported hselected
    obtain ⟨attempt, hattempt, rfl, hnumber⟩ := exists_latest hfits hpos hlatest
    obtain ⟨hlast, herror, hretry, hstatus⟩ := hfits.latest attempt hattempt hnumber
    simp [← hcount, hzero, hrequested, hselected, hsupported, hlast, herror, hretry, hstatus]

theorem Sound.validate (hsound : Sound sha256 s) : validateOperationState sha256 s = .ok () := by
  apply bind_eq_ok.mpr
  refine ⟨(), check_eq_ok.mpr ?_, check_eq_ok.mpr ?_⟩
  · simp only [Bool.not_eq_true', List.any_eq_false, List.mem_filter, decide_eq_true_eq,
      Bool.not_eq_true]
    intro state hstate latest hlatest target htarget
    exact mismatch_eq_false (hsound.operations state hstate) htarget.1 htarget.2 hlatest
  · simpa using hsound.identities

/-! ### Attempts on targets -/

theorem numbered_append {numbers : List Int} {new : List AcquisitionAttempt}
    (hold : Numbered numbers) (hnew : contiguous ((numbers.length : Int) + 1) new = true) :
    Numbered (numbers ++ new.map (·.attemptNumber)) := by
  induction new generalizing numbers with
  | nil => simpa using hold
  | cons attempt new ih =>
    simp only [contiguous, Bool.and_eq_true, decide_eq_true_eq] at hnew
    have hnext := ih hold.concat (by simpa using hnew.2)
    rw [List.map_cons, hnew.1, List.append_cons]
    exact hnext

theorem number_of_last {first : Int} {new : List AcquisitionAttempt}
    {final : AcquisitionAttempt} (hnew : contiguous first new = true)
    (hfinal : new.getLast? = some final) : final.attemptNumber = first + new.length - 1 := by
  induction new generalizing first with
  | nil => nomatch hfinal
  | cons attempt new ih =>
    simp only [contiguous, Bool.and_eq_true, decide_eq_true_eq] at hnew
    cases new with
    | nil =>
      obtain rfl := Option.some.inj hfinal
      simp [hnew.1]
    | cons next new =>
      have hlast := ih hnew.2 (by simpa using hfinal)
      simp only [List.length_cons] at hlast ⊢
      omega

theorem TargetFits.congr {target : TargetState} (hfits : TargetFits s target)
    (hsame : t.attemptsOf target.targetId = s.attemptsOf target.targetId) :
    TargetFits t target where
  numbered := by rw [hsame]; exact hfits.numbered
  count := by rw [hsame]; exact hfits.count
  last := by rw [hsame]; exact hfits.last

@[simp] theorem project_targetId (outcome : AcquisitionOutcome) (target : TargetState) :
    (target.project outcome).targetId = target.targetId := by
  unfold TargetState.project
  split_ifs <;> rfl

theorem project_of_ne {outcome : AcquisitionOutcome} {target : TargetState}
    (hne : target.targetId ≠ outcome.targetId) : target.project outcome = target := by
  unfold TargetState.project
  rw [if_neg fun h => hne h.1]

theorem findTarget_eq_some {targetId : String} {target : TargetState}
    (h : s.findTarget targetId = some target) :
    target ∈ s.targets ∧ target.targetId = targetId :=
  ⟨List.mem_of_find?_eq_some h, by simpa using List.find?_some h⟩

theorem Sound.eq_of_targetId (hsound : Sound sha256 s) {a b : TargetState} (ha : a ∈ s.targets)
    (hb : b ∈ s.targets) (hid : a.targetId = b.targetId) : a = b :=
  List.inj_on_of_nodup_map hsound.targetIds ha hb hid

theorem Sound.eq_of_operationId (hsound : Sound sha256 s) {a b : OperationState}
    (ha : a ∈ s.operations) (hb : b ∈ s.operations) (hid : a.operationId = b.operationId) :
    a = b :=
  List.inj_on_of_nodup_map hsound.operationIds ha hb hid

theorem Settled.targetFits (hsound : Sound sha256 s) {new : List AcquisitionAttempt}
    {outcome : AcquisitionOutcome} (hsettled : Settled s new outcome t) :
    ∀ target ∈ t.targets, TargetFits t target := by
  obtain ⟨current, resolutions, final, hfound, hexecutable, -, hnumbers, hnew, hfinal,
    hcount, hlast, rfl⟩ := hsettled
  obtain ⟨hcurrent, hid⟩ := findTarget_eq_some hfound
  intro target' htarget'
  obtain ⟨target, htarget, rfl⟩ := List.mem_map.mp htarget'
  have hhistory : ∀ targetId, (s.attempts ++ new).filter (·.targetId = targetId) =
      s.attemptsOf targetId ++ new.filter (·.targetId = targetId) :=
    fun targetId => List.filter_append ..
  by_cases hsame : target.targetId = outcome.targetId
  · -- the target of the write: its history is the old one and the new attempts
    have heq : target = current := hsound.eq_of_targetId htarget hcurrent (hsame.trans hid.symm)
    subst heq
    have hfits := hsound.targets target htarget
    have hall : new.filter (·.targetId = target.targetId) = new := by
      rw [List.filter_eq_self]
      intro attempt hattempt
      simpa [hsame] using hnew attempt hattempt
    have hstored : (s.attempts ++ new).filter (·.targetId = target.targetId) =
        s.attemptsOf target.targetId ++ new := by
      rw [hhistory, hall]
    have hproject : target.project outcome = { target with
        outcome := outcome.status
        source := outcome.source
        retryable := outcome.retryable
        attemptCount := outcome.attemptCount
        lastAttemptId := outcome.lastAttemptId
        errorCode := outcome.errorCode
        evidence := outcome.evidence } := if_pos ⟨hsame, hexecutable⟩
    rw [hproject]
    constructor
    · show Numbered (((s.attempts ++ new).filter (·.targetId = target.targetId)).map _)
      rw [hstored, List.map_append]
      apply numbered_append hfits.numbered
      rwa [List.length_map, ← hfits.count]
    · show outcome.attemptCount =
        ((s.attempts ++ new).filter (·.targetId = target.targetId)).length
      rw [hstored, hcount, number_of_last hnumbers hfinal, hfits.count, List.length_append]
      push_cast
      ring
    · show outcome.lastAttemptId =
        (((s.attempts ++ new).filter (·.targetId = target.targetId)).getLast?).map _
      rw [hstored, List.getLast?_append, hfinal, hlast]
      rfl
  · have hfits := hsound.targets target htarget
    have hnone : new.filter (·.targetId = target.targetId) = [] := by
      rw [List.filter_eq_nil_iff]
      intro attempt hattempt
      have hattemptId := hnew attempt hattempt
      simp only [decide_eq_true_eq, hattemptId]
      exact fun h => hsame h.symm
    have hstored : (s.attempts ++ new).filter (·.targetId = target.targetId) =
        s.attemptsOf target.targetId := by
      rw [hhistory, hnone, List.append_nil]
    rw [project_of_ne hsame]
    exact hfits.congr hstored

/-! ### Operations of the target -/

/-- A row after its readiness was refreshed to `ready`. -/
def OperationState.readied (ready : Bool) (state : OperationState) : OperationState :=
  { state with
    status := if ready then .pending else .blocked
    retryable := false
    errorCode := if ready then none else some "blocked:acquisition_not_ready" }

theorem refresh_eq (row : ReadinessRow) (state : OperationState) :
    state.refresh row =
      if state.operationId = row.operationId ∧
        (state.status = .pending ∨ state.status = .blocked) then state.readied row.ready
      else state := rfl

theorem refreshAll_of_ne {rows : List ReadinessRow} {state : OperationState}
    (h : ∀ row ∈ rows, row.operationId ≠ state.operationId) : state.refreshAll rows = state := by
  induction rows with
  | nil => rfl
  | cons row rows ih =>
    have hrow : state.refresh row = state := by
      rw [refresh_eq, if_neg fun hid => h row List.mem_cons_self hid.1.symm]
    show (state.refresh row).refreshAll rows = state
    rw [hrow]
    exact ih fun later hlater => h later (List.mem_cons_of_mem row hlater)

theorem refreshAll_of_ready {rows : List ReadinessRow} {state : OperationState} {ready : Bool}
    (hready : ∀ row ∈ rows, row.operationId = state.operationId → row.ready = ready)
    (hrow : ∃ row ∈ rows, row.operationId = state.operationId)
    (hstatus : state.status = .pending ∨ state.status = .blocked) :
    state.refreshAll rows = state.readied ready := by
  -- once readied, further rows of the operation write the same values
  have hstable : ∀ rows : List ReadinessRow,
      (∀ row ∈ rows, row.operationId = state.operationId → row.ready = ready) →
        (state.readied ready).refreshAll rows = state.readied ready := by
    intro rows
    induction rows with
    | nil => exact fun _ => rfl
    | cons row rows ih =>
      intro hrows
      have hsame : (state.readied ready).refresh row = state.readied ready := by
        rw [refresh_eq]
        split_ifs with hid
        · rw [hrows row List.mem_cons_self hid.1.symm]
          rfl
        · rfl
      show ((state.readied ready).refresh row).refreshAll rows = _
      rw [hsame]
      exact ih fun later hlater => hrows later (List.mem_cons_of_mem row hlater)
  induction rows with
  | nil => simp at hrow
  | cons row rows ih =>
    show (state.refresh row).refreshAll rows = _
    by_cases hid : row.operationId = state.operationId
    · rw [refresh_eq, if_pos ⟨hid.symm, hstatus⟩, hready row List.mem_cons_self hid]
      exact hstable rows fun later hlater => hready later (List.mem_cons_of_mem row hlater)
    · rw [refresh_eq, if_neg fun h => hid h.1.symm]
      apply ih fun later hlater => hready later (List.mem_cons_of_mem row hlater)
      obtain ⟨later, hlater, heq⟩ := hrow
      rcases List.mem_cons.mp hlater with rfl | hlater
      · exact absurd heq hid
      · exact ⟨later, hlater, heq⟩

@[simp] theorem refreshAll_seed (rows : List ReadinessRow) (state : OperationState) :
    (state.refreshAll rows).toWorkOrderOperationSeed = state.toWorkOrderOperationSeed := by
  induction rows generalizing state with
  | nil => rfl
  | cons row rows ih =>
    show ((state.refresh row).refreshAll rows).toWorkOrderOperationSeed = _
    rw [ih, refresh_eq]
    split_ifs <;> rfl

theorem expectedStatus_of_selected {state : OperationState} (hrequested : state.requested = true)
    (hselected : state.selected = true) (hsupported : state.supportStatus = .supported)
    (target : TargetState) : state.expectedStatus target =
      if target.outcome = .acquired ∧ target.evidence.selectedBodyRelativePath.isSome then
        .pending else .blocked := by
  simp [OperationState.expectedStatus, hrequested, hselected, hsupported]

theorem expectedStatus_of_not_selected {state : OperationState} (hselected : ¬ state.selected)
    (a b : TargetState) : state.expectedStatus a = state.expectedStatus b := by
  simp [OperationState.expectedStatus, hselected]

theorem mem_readinessRows {targetId : String} {row : ReadinessRow} :
    row ∈ s.readinessRows targetId ↔ ∃ state ∈ s.operations, ∃ target ∈ s.targets,
      state.targetId = targetId ∧ state.requested = true ∧ state.selected = true ∧
      state.supportStatus = .supported ∧ state.attemptCount = 0 ∧
      target.targetId = state.targetId ∧
      row = ⟨state.operationId, target.outcome, target.evidence.selectedBodyRelativePath⟩ := by
  simp only [Store.readinessRows, List.mem_flatMap, List.mem_filter, Bool.and_eq_true,
    decide_eq_true_eq, List.mem_map]
  constructor
  · rintro ⟨state, ⟨hstate, ⟨⟨⟨hid, hrequested⟩, hselected⟩, hsupported⟩, hcount⟩, target,
      ⟨htarget, htargetId⟩, rfl⟩
    exact ⟨state, hstate, target, htarget, hid, hrequested, hselected, hsupported, hcount,
      htargetId, rfl⟩
  · rintro ⟨state, hstate, target, htarget, hid, hrequested, hselected, hsupported, hcount,
      htargetId, rfl⟩
    exact ⟨state, ⟨hstate, ⟨⟨⟨hid, hrequested⟩, hselected⟩, hsupported⟩, hcount⟩, target,
      ⟨htarget, htargetId⟩, rfl⟩

theorem expectedErrorCode_readied (ready : Bool) (state : OperationState) :
    (state.readied ready).expectedErrorCode = (state.readied ready).errorCode := by
  cases ready <;> rfl

theorem OperationFits.readied {state : OperationState} (hfits : OperationFits s state)
    {target : TargetState} (hselected : state.selected = true) (hcount : state.attemptCount = 0)
    (hhistory : t.operationHistory state.operationId = s.operationHistory state.operationId)
    (htargets : ∀ other ∈ t.targets, other.targetId = state.targetId → other = target) :
    OperationFits t (state.readied
      (decide (target.outcome = .acquired) && target.evidence.selectedBodyRelativePath.isSome)) := by
  obtain ⟨hrequested, hsupported⟩ := hfits.supported hselected
  have hempty : s.operationHistory state.operationId = [] := by
    have hlength := hfits.count
    rw [hcount] at hlength
    exact List.length_eq_zero_iff.mp (by exact_mod_cast hlength.symm)
  constructor
  · exact hfits.supported
  · show Numbered ((t.operationHistory state.operationId).map _)
    rw [hhistory]
    exact hfits.numbered
  · show state.attemptCount = (t.operationHistory state.operationId).length
    rw [hhistory]
    exact hfits.count
  · refine fun _ => ⟨(hfits.fresh hcount).1, rfl, fun other hother hid => ?_,
      (expectedErrorCode_readied _ state).symm⟩
    obtain rfl := htargets other hother hid
    show _ = state.expectedStatus other
    rw [expectedStatus_of_selected hrequested hselected hsupported]
    simp only [OperationState.readied, Bool.and_eq_true, decide_eq_true_eq]
  · exact fun hpos => absurd hcount (ne_of_gt hpos)
  · intro attempt hattempt
    have hnone : attempt ∈ s.operationHistory state.operationId := hhistory ▸ hattempt
    rw [hempty] at hnone
    nomatch hnone

theorem OperationFits.congr {state : OperationState} (hfits : OperationFits s state)
    (hhistory : t.operationHistory state.operationId = s.operationHistory state.operationId)
    (htargets : state.attemptCount = 0 → ∀ target ∈ t.targets,
      target.targetId = state.targetId → state.status = state.expectedStatus target) :
    OperationFits t state where
  supported := hfits.supported
  numbered := by rw [hhistory]; exact hfits.numbered
  count := by rw [hhistory]; exact hfits.count
  fresh hcount := ⟨(hfits.fresh hcount).1, (hfits.fresh hcount).2.1, htargets hcount,
    (hfits.fresh hcount).2.2.2⟩
  tried := hfits.tried
  latest := by rw [hhistory]; exact hfits.latest

theorem Settled.operationFits (hsound : Sound sha256 s) {new : List AcquisitionAttempt}
    {outcome : AcquisitionOutcome} (hsettled : Settled s new outcome t) :
    ∀ state ∈ t.operations, OperationFits t state := by
  obtain ⟨current, resolutions, final, hfound, hexecutable, -, -, -, -, -, -, rfl⟩ := hsettled
  obtain ⟨hcurrent, hid⟩ := findTarget_eq_some hfound
  intro state' hstate'
  obtain ⟨state, hstate, rfl⟩ := List.mem_map.mp hstate'
  have hfits := hsound.operations state hstate
  -- the only target row with the identity of the write
  have hunique : ∀ other ∈ s.targets.map (TargetState.project outcome),
      other.targetId = outcome.targetId → other = current.project outcome := by
    intro other hother hotherId
    obtain ⟨before, hbefore, rfl⟩ := List.mem_map.mp hother
    rw [project_targetId] at hotherId
    rw [hsound.eq_of_targetId hbefore hcurrent (hotherId.trans hid.symm)]
  by_cases hrow : ∃ row ∈ Store.readinessRows
      { s with
        attempts := s.attempts ++ new
        resolutions
        targets := s.targets.map (TargetState.project outcome) } outcome.targetId,
      row.operationId = state.operationId
  · obtain ⟨row, hmem, hrowId⟩ := hrow
    obtain ⟨source, hsource, target, htarget, hsourceId, hrequested, hselected, hsupported,
      hcount, htargetId, rfl⟩ := mem_readinessRows.mp hmem
    obtain rfl := hsound.eq_of_operationId hsource hstate hrowId
    have hstatus : source.status = .pending ∨ source.status = .blocked := by
      have hcurrentId : current.targetId = source.targetId := by rw [hid, hsourceId]
      rw [(hfits.fresh hcount).2.2.1 current hcurrent hcurrentId,
        expectedStatus_of_selected hrequested hselected hsupported]
      split_ifs <;> simp
    rw [refreshAll_of_ready _ ⟨_, hmem, rfl⟩ hstatus]
    · apply hfits.readied hselected hcount
      · rfl
      · exact fun other hother hotherId => hunique other hother (hotherId.trans hsourceId)
    · intro row' hrow' hrowId'
      obtain ⟨other, hother, target', htarget', hotherId, -, -, -, -, htargetId', rfl⟩ :=
        mem_readinessRows.mp hrow'
      rw [hunique target' htarget' (htargetId'.trans hotherId)]
      rfl
  · have hsame : state.refreshAll _ = state :=
      refreshAll_of_ne fun row hmem hrowId => hrow ⟨row, hmem, hrowId⟩
    rw [hsame]
    apply hfits.congr
    · rfl
    intro hcount target' htarget' htargetId
    obtain ⟨target, htarget, rfl⟩ := List.mem_map.mp htarget'
    rw [project_targetId] at htargetId
    have hstatus := (hfits.fresh hcount).2.2.1 target htarget htargetId
    by_cases hown : target.targetId = outcome.targetId
    · -- no row of its own: the operation is not selected and expects the same of any target
      have hselected : ¬ state.selected := by
        intro hselected
        obtain ⟨hrequested, hsupported⟩ := hfits.supported hselected
        apply hrow
        refine ⟨_, mem_readinessRows.mpr ⟨state, hstate, target.project outcome, htarget',
          htargetId ▸ hown, hrequested, hselected, hsupported, hcount, ?_, rfl⟩, rfl⟩
        rw [project_targetId, htargetId]
      rw [hstatus]
      exact expectedStatus_of_not_selected hselected _ _
    · rw [project_of_ne hown]
      exact hstatus

theorem refreshAll_operationId (rows : List ReadinessRow) (state : OperationState) :
    (state.refreshAll rows).operationId = state.operationId :=
  congrArg WorkOrderOperationSeed.operationId (refreshAll_seed rows state)

theorem nodup_operationIds {change : OperationState → OperationState}
    (hchange : ∀ state, (change state).operationId = state.operationId)
    {operations : List OperationState} (h : (operations.map (·.operationId)).Nodup) :
    ((operations.map change).map (·.operationId)).Nodup := by
  rw [List.map_map]
  have hsame : operations.map ((·.operationId) ∘ change) = operations.map (·.operationId) :=
    List.map_congr_left fun state _ => hchange state
  rwa [hsame]

theorem Settled.sound (hsound : Sound sha256 s) {new : List AcquisitionAttempt}
    {outcome : AcquisitionOutcome} (hsettled : Settled s new outcome t) : Sound sha256 t := by
  have htargets := hsettled.targetFits hsound
  have hoperations := hsettled.operationFits hsound
  obtain ⟨current, resolutions, final, -, -, -, -, -, -, -, -, rfl⟩ := hsettled
  refine ⟨?_, ?_, htargets, hoperations, ?_⟩
  · have hids : (s.targets.map (TargetState.project outcome)).map (·.targetId) =
        s.targets.map (·.targetId) := by
      simp only [List.map_map]
      exact List.map_congr_left fun target _ => project_targetId outcome target
    show ((s.targets.map (TargetState.project outcome)).map (·.targetId)).Nodup
    rw [hids]
    exact hsound.targetIds
  · exact nodup_operationIds (refreshAll_operationId _) hsound.operationIds
  · intro state' hstate'
    obtain ⟨state, hstate, rfl⟩ := List.mem_map.mp hstate'
    have hidentity := hsound.identities state hstate
    rwa [refreshAll_seed]

theorem Settled.mem_targets (hsound : Sound sha256 s) {new : List AcquisitionAttempt}
    {outcome : AcquisitionOutcome} (hsettled : Settled s new outcome t) {target : TargetState}
    (htarget : target ∈ s.targets) (hterminal : ¬ target.eligible) : target ∈ t.targets := by
  obtain ⟨current, resolutions, final, hfound, -, heligible, -, -, -, -, -, rfl⟩ := hsettled
  obtain ⟨hcurrent, hid⟩ := findTarget_eq_some hfound
  have hne : target.targetId ≠ outcome.targetId := by
    intro hsame
    have heq := hsound.eq_of_targetId htarget hcurrent (hsame.trans hid.symm)
    exact hterminal (heq ▸ heligible)
  exact List.mem_map.mpr ⟨target, htarget, project_of_ne hne⟩

/-! ### Attempts on operations -/

theorem findOperation_eq_some {operationId : String} {state : OperationState}
    (h : s.findOperation operationId = some state) :
    state ∈ s.operations ∧ state.operationId = operationId :=
  ⟨List.mem_of_find?_eq_some h, by simpa using List.find?_some h⟩

@[simp] theorem record_seed (attempt : OperationAttempt) (state : OperationState) :
    (state.record attempt).toWorkOrderOperationSeed = state.toWorkOrderOperationSeed := by
  unfold OperationState.record
  split_ifs <;> rfl

theorem record_of_ne {attempt : OperationAttempt} {state : OperationState}
    (hne : state.operationId ≠ attempt.operationId) : state.record attempt = state := by
  unfold OperationState.record
  rw [if_neg hne]

theorem operationFits_record {attempt : OperationAttempt} {state : OperationState}
    (hfits : OperationFits s state) (hid : state.operationId = attempt.operationId)
    (hselected : state.selected = true) (hnumber : attempt.attemptNumber = state.attemptCount + 1)
    (hhistory : t.operationHistory state.operationId =
      s.operationHistory state.operationId ++ [attempt]) :
    OperationFits t (state.record attempt) := by
  have hrecord : state.record attempt = { state with
      status := attempt.outcome.status
      retryable := attempt.retryable
      attemptCount := attempt.attemptNumber
      lastAttemptId := some attempt.attemptId
      errorCode := attempt.errorCode } := if_pos hid
  have hcount := hfits.count
  rw [hrecord]
  constructor
  · exact hfits.supported
  · show Numbered ((t.operationHistory state.operationId).map _)
    have hnext := hfits.numbered.concat
    rw [List.length_map, ← hcount, ← hnumber] at hnext
    rw [hhistory, List.map_append]
    exact hnext
  · show attempt.attemptNumber = (t.operationHistory state.operationId).length
    rw [hhistory, List.length_append, List.length_singleton]
    omega
  · intro hzero
    have hzero' : attempt.attemptNumber = 0 := hzero
    omega
  · exact fun _ => hselected
  · intro later hlater hlast
    have hlater' : later ∈ s.operationHistory state.operationId ++ [attempt] := hhistory ▸ hlater
    have hlast' : later.attemptNumber = attempt.attemptNumber := hlast
    rcases List.mem_append.mp hlater' with hold | hnew
    · -- an older attempt has a smaller number
      have hbounds := hfits.numbered.mem_iff.mp (List.mem_map_of_mem hold)
      rw [List.length_map] at hbounds
      omega
    · obtain rfl := List.mem_singleton.mp hnew
      exact ⟨rfl, rfl, rfl, rfl⟩

theorem Sound.record (hsound : Sound sha256 s) {attempt : OperationAttempt}
    {current : OperationState} (hfound : s.findOperation attempt.operationId = some current)
    (hselected : current.selected = true)
    (hnumber : attempt.attemptNumber = current.attemptCount + 1) :
    Sound sha256 { s with
      operationAttempts := s.operationAttempts ++ [attempt]
      operations := s.operations.map (OperationState.record attempt) } := by
  obtain ⟨hcurrent, hid⟩ := findOperation_eq_some hfound
  have hhistory : ∀ operationId, (s.operationAttempts ++ [attempt]).filter
      (·.operationId = operationId) = s.operationHistory operationId ++
        [attempt].filter (·.operationId = operationId) :=
    fun operationId => List.filter_append ..
  refine ⟨hsound.targetIds, ?_, ?_, ?_, ?_⟩
  · exact nodup_operationIds
      (fun state => congrArg WorkOrderOperationSeed.operationId (record_seed attempt state))
      hsound.operationIds
  · exact fun target htarget => (hsound.targets target htarget).congr rfl
  · intro state' hstate'
    obtain ⟨state, hstate, rfl⟩ := List.mem_map.mp hstate'
    have hfits := hsound.operations state hstate
    by_cases hsame : state.operationId = attempt.operationId
    · have heq := hsound.eq_of_operationId hstate hcurrent (hsame.trans hid.symm)
      subst heq
      apply operationFits_record hfits hsame hselected hnumber
      show (s.operationAttempts ++ [attempt]).filter _ = _
      rw [hhistory]
      simp [hsame]
    · rw [record_of_ne hsame]
      apply hfits.congr
      · show (s.operationAttempts ++ [attempt]).filter _ = _
        rw [hhistory]
        simp [Ne.symm hsame]
      · exact fun hcount => (hfits.fresh hcount).2.2.1
  · intro state' hstate'
    obtain ⟨state, hstate, rfl⟩ := List.mem_map.mp hstate'
    have hidentity := hsound.identities state hstate
    rwa [record_seed]

/-! ### Seeding -/

/-- The store while `initialize_run_state` fills it. -/
structure Seeded (sha256 : Bytes → String) (store : Store) : Prop where
  targetIds : (store.targets.map (·.targetId)).Nodup
  operationIds : (store.operations.map (·.operationId)).Nodup
  attempts : store.attempts = []
  operationAttempts : store.operationAttempts = []
  targets : ∀ target ∈ store.targets,
    target.attemptCount = 0 ∧ target.lastAttemptId = none ∧ target.outcome ≠ .acquired
  operations : ∀ state ∈ store.operations, ∃ seed, operationSeed sha256 seed = .ok state

theorem targetSeed_ok {seed : WorkOrderTargetSeed} {target : TargetState}
    (h : targetSeed seed = .ok target) :
    target.attemptCount = 0 ∧ target.lastAttemptId = none ∧ target.outcome ≠ .acquired := by
  obtain ⟨_, -, h⟩ := bind_eq_ok.mp h
  obtain ⟨_, -, h⟩ := bind_eq_ok.mp h
  obtain ⟨_, -, h⟩ := bind_eq_ok.mp h
  obtain rfl := Except.ok.inj h
  refine ⟨rfl, rfl, ?_⟩
  show (if seed.executable then AcquisitionStatus.pending else .skipped) ≠ .acquired
  split_ifs <;> simp

theorem operationSeed_ok {seed : WorkOrderOperationSeed} {state : OperationState}
    (h : operationSeed sha256 seed = .ok state) :
    state = { seed with status := seed.seedStatus, errorCode := seed.seedErrorCode } ∧
    seed.operationId = operationIdentity sha256 seed.targetId seed.operation ∧
    (seed.selected = true → seed.requested = true ∧ seed.supportStatus = .supported) ∧
    (seed.supportStatus = .unsupported → seed.supportReason.isSome) := by
  obtain ⟨_, -, h⟩ := bind_eq_ok.mp h
  obtain ⟨_, hidentity, h⟩ := bind_eq_ok.mp h
  obtain ⟨_, -, h⟩ := bind_eq_ok.mp h
  obtain ⟨_, -, h⟩ := bind_eq_ok.mp h
  obtain ⟨_, -, h⟩ := bind_eq_ok.mp h
  obtain ⟨_, hunsupported, h⟩ := bind_eq_ok.mp h
  obtain ⟨_, -, h⟩ := bind_eq_ok.mp h
  obtain ⟨_, hselected, h⟩ := bind_eq_ok.mp h
  obtain ⟨_, -, h⟩ := bind_eq_ok.mp h
  obtain ⟨_, -, h⟩ := bind_eq_ok.mp h
  have hids := check_eq_ok.mp hidentity
  have hpins := check_eq_ok.mp hunsupported
  have hchosen := check_eq_ok.mp hselected
  simp only [Bool.and_eq_true, decide_eq_true_eq] at hids
  refine ⟨(Except.ok.inj h).symm, hids.2, fun hsel => ?_, fun hstatus => ?_⟩
  · simpa [hsel] using hchosen
  · cases hreason : seed.supportReason with
    | none => simp [hstatus, hreason, filled] at hpins
    | some reason => rfl

theorem supportStatus_of_seedStatus {seed : WorkOrderOperationSeed}
    (h : seed.seedStatus = .unsupported) : seed.supportStatus = .unsupported := by
  unfold WorkOrderOperationSeed.seedStatus at h
  split_ifs at h with _ _ hsupport
  exact hsupport

theorem Seeded.sound (hseeded : Seeded sha256 s) : Sound sha256 s := by
  refine ⟨hseeded.targetIds, hseeded.operationIds, ?_, ?_, ?_⟩
  · intro target htarget
    obtain ⟨hcount, hlast, -⟩ := hseeded.targets target htarget
    have hnone : s.attemptsOf target.targetId = [] := by
      simp [Store.attemptsOf, hseeded.attempts]
    exact ⟨by rw [hnone]; exact Numbered.nil, by rw [hnone, hcount]; rfl, by rw [hnone, hlast]; rfl⟩
  · intro state hstate
    obtain ⟨seed, hseed⟩ := hseeded.operations state hstate
    obtain ⟨rfl, -, hselected, hreason⟩ := operationSeed_ok hseed
    have hnone : s.operationHistory seed.operationId = [] := by
      simp [Store.operationHistory, hseeded.operationAttempts]
    constructor
    · exact hselected
    · show Numbered ((s.operationHistory seed.operationId).map _)
      rw [hnone]
      exact Numbered.nil
    · show (0 : Int) = (s.operationHistory seed.operationId).length
      rw [hnone]
      rfl
    · refine fun _ => ⟨rfl, rfl, fun target htarget _ => ?_, ?_⟩
      · have hacquired := (hseeded.targets target htarget).2.2
        simp [OperationState.expectedStatus, WorkOrderOperationSeed.seedStatus, hacquired]
      · show seed.seedErrorCode = _
        unfold WorkOrderOperationSeed.seedErrorCode OperationState.expectedErrorCode
        by_cases hblocked : seed.seedStatus = .blocked
        · simp [hblocked]
        · by_cases hunsupported : seed.seedStatus = .unsupported
          · obtain ⟨reason, hsome⟩ :=
              Option.isSome_iff_exists.mp (hreason (supportStatus_of_seedStatus hunsupported))
            simp [hunsupported, hsome]
          · simp [hblocked, hunsupported]
    · exact fun hpos => absurd hpos (lt_irrefl _)
    · intro attempt hattempt
      have hmem : attempt ∈ s.operationHistory seed.operationId := hattempt
      rw [hnone] at hmem
      nomatch hmem
  · intro state hstate
    obtain ⟨seed, hseed⟩ := hseeded.operations state hstate
    obtain ⟨rfl, hidentity, -, -⟩ := operationSeed_ok hseed
    exact hidentity

theorem Seeded.seedTarget (hseeded : Seeded sha256 s) {seed : WorkOrderTargetSeed} {u : Unit}
    (h : Succeeds (seedTarget seed) s u t) : Seeded sha256 t := by
  obtain ⟨target, m, hchecked, hinsert⟩ := Succeeds.bind h
  obtain ⟨hseed, rfl⟩ := attempted_succeeds hchecked
  obtain ⟨hnew, rfl⟩ := insertTarget_ok (execute_succeeds hinsert)
  refine { hseeded with targetIds := ?_, targets := ?_ }
  · show ((s.targets ++ [target]).map (·.targetId)).Nodup
    rw [List.map_append]
    apply List.Nodup.append hseeded.targetIds (List.nodup_singleton _)
    simpa [List.disjoint_singleton] using hnew
  · intro stored hstored
    rcases List.mem_append.mp hstored with hold | hlast
    · exact hseeded.targets stored hold
    · obtain rfl := List.mem_singleton.mp hlast
      exact targetSeed_ok hseed

theorem Seeded.seedOperation (hseeded : Seeded sha256 s) {seed : WorkOrderOperationSeed} {u : Unit}
    (h : Succeeds (seedOperation sha256 seed) s u t) : Seeded sha256 t := by
  obtain ⟨state, m, hchecked, hinsert⟩ := Succeeds.bind h
  obtain ⟨hseed, rfl⟩ := attempted_succeeds hchecked
  obtain ⟨hnew, rfl⟩ := insertOperation_ok (execute_succeeds hinsert)
  refine { hseeded with operationIds := ?_, operations := ?_ }
  · show ((s.operations ++ [state]).map (·.operationId)).Nodup
    rw [List.map_append]
    apply List.Nodup.append hseeded.operationIds (List.nodup_singleton _)
    simpa [List.disjoint_singleton] using hnew
  · intro stored hstored
    rcases List.mem_append.mp hstored with hold | hlast
    · exact hseeded.operations stored hold
    · obtain rfl := List.mem_singleton.mp hlast
      exact ⟨seed, hseed⟩

theorem seeded_initializeRunState {targets : List WorkOrderTargetSeed}
    {operations : List WorkOrderOperationSeed} {faults : List Bool}
    (h : initializeRunState sha256 targets operations faults .empty = (.ok (), s)) :
    Seeded sha256 s := by
  obtain ⟨_, m, hversion, h⟩ := Succeeds.bind (transaction_ok h)
  obtain ⟨_, m', htargets, hoperations⟩ := Succeeds.bind h
  have hempty : Seeded sha256 m := by
    have hfirst := execute_succeeds hversion
    rw [if_pos (by rfl)] at hfirst
    cases hfirst
    exact ⟨List.nodup_nil, List.nodup_nil, rfl, rfl, by simp [Store.empty], by simp [Store.empty]⟩
  have hfilled : Seeded sha256 m' :=
    Succeeds.forM_preserves (fun _ _ _ _ hs hbody => Seeded.seedTarget hs hbody) hempty htargets
  exact Succeeds.forM_preserves (fun _ _ _ _ hs hbody => Seeded.seedOperation hs hbody) hfilled
    hoperations

/-! ### Runs -/

inductive LedgerCall where
  | appendAttempt (attempt : AcquisitionAttempt) (outcome : AcquisitionOutcome)
      (faults : List Bool)
  | commitAttempts (attempts : List AcquisitionAttempt) (outcome : AcquisitionOutcome)
      (resolution : Option TargetSlotResolution) (recordedAtUtc : Option String)
      (faults : List Bool)
  | appendOperation (attempt : OperationAttempt) (faults : List Bool)

section
variable (sha256 : Bytes → String) (urls : UrlLibrary)

def Store.call (store : Store) : LedgerCall → Except StoreError Unit × Store
  | .appendAttempt attempt outcome faults =>
    appendAttemptAndUpdateTarget urls attempt outcome faults store
  | .commitAttempts attempts outcome resolution recordedAtUtc faults =>
    commitAttemptsAndUpdateTarget urls attempts outcome resolution recordedAtUtc faults store
  | .appendOperation attempt faults => appendOperationAttempt sha256 attempt faults store

def Store.after (store : Store) (calls : List LedgerCall) : Store :=
  calls.foldl (fun store call => (store.call sha256 urls call).2) store

end

variable {urls : UrlLibrary}

theorem Store.after_append (store : Store) (calls more : List LedgerCall) :
    store.after sha256 urls (calls ++ more) = (store.after sha256 urls calls).after sha256 urls more :=
  List.foldl_append

theorem appendAttempt_cases (attempt : AcquisitionAttempt) (outcome : AcquisitionOutcome)
    (faults : List Bool) (s : Store) :
    (∃ e, appendAttemptAndUpdateTarget urls attempt outcome faults s = (.error e, s)) ∨
    ∃ new t, appendAttemptAndUpdateTarget urls attempt outcome faults s = (.ok (), t) ∧
      Settled s new outcome t := by
  unfold appendAttemptAndUpdateTarget
  cases hvalues : appendArguments urls attempt outcome with
  | error e => exact Or.inl ⟨e, rfl⟩
  | ok values =>
    cases hschema : requireSchema s with
    | error e => exact Or.inl ⟨e, rfl⟩
    | ok done =>
      rcases transaction_cases .operationalError (appendBody values outcome) faults s with
        ⟨e, herror⟩ | ⟨a, t, hok, hbody⟩
      · exact Or.inl ⟨e, herror⟩
      · exact Or.inr ⟨[values], t, hok, appendBody_succeeds (appendArguments_ok hvalues) hbody⟩

theorem commitAttempts_cases (attempts : List AcquisitionAttempt) (outcome : AcquisitionOutcome)
    (resolution : Option TargetSlotResolution) (recordedAtUtc : Option String)
    (faults : List Bool) (s : Store) :
    (∃ e, commitAttemptsAndUpdateTarget urls attempts outcome resolution recordedAtUtc faults s =
      (.error e, s)) ∨
    ∃ new t, commitAttemptsAndUpdateTarget urls attempts outcome resolution recordedAtUtc faults s =
      (.ok (), t) ∧ Settled s new outcome t := by
  unfold commitAttemptsAndUpdateTarget
  cases hvalues : commitArguments urls attempts outcome resolution recordedAtUtc with
  | error e => exact Or.inl ⟨e, rfl⟩
  | ok values =>
    cases hschema : requireSchema s with
    | error e => exact Or.inl ⟨e, rfl⟩
    | ok done =>
      cases hfinal : values.getLast? with
      | none =>
        simp only [hfinal]
        exact Or.inl ⟨_, rfl⟩
      | some final =>
        simp only [hfinal]
        rcases transaction_cases .operationalError
            (commitBody urls values final outcome resolution recordedAtUtc) faults s with
          ⟨e, herror⟩ | ⟨a, t, hok, hbody⟩
        · exact Or.inl ⟨e, herror⟩
        · exact Or.inr ⟨values, t, hok,
            commitBody_succeeds (commitArguments_ok hvalues) hfinal hbody⟩

theorem appendOperation_cases (attempt : OperationAttempt) (faults : List Bool) (s : Store) :
    (∃ e, appendOperationAttempt sha256 attempt faults s = (.error e, s)) ∨
    ∃ current, s.findOperation attempt.operationId = some current ∧ current.selected = true ∧
      attempt.attemptNumber = current.attemptCount + 1 ∧
      appendOperationAttempt sha256 attempt faults s = (.ok (), { s with
        operationAttempts := s.operationAttempts ++ [attempt]
        operations := s.operations.map (OperationState.record attempt) }) := by
  unfold appendOperationAttempt
  cases harguments : operationArguments sha256 attempt with
  | error e => exact Or.inl ⟨e, rfl⟩
  | ok done =>
    simp only
    split_ifs with hversion
    · rcases transaction_cases .operationalError (appendOperationBody attempt) faults s with
        ⟨e, herror⟩ | ⟨a, t, hok, hbody⟩
      · exact Or.inl ⟨e, herror⟩
      · obtain ⟨current, hfound, -, hselected, -, hnumber, rfl⟩ :=
          appendOperationBody_succeeds hbody
        exact Or.inr ⟨current, hfound, hselected, hnumber, hok⟩
    · exact Or.inl ⟨_, rfl⟩

/-- What every call keeps: the ledger is sound, terminal rows stay, and a call that raised
wrote nothing. -/
structure Keeps (sha256 : Bytes → String) (s : Store)
    (result : Except StoreError Unit × Store) : Prop where
  sound : Sound sha256 result.2
  terminal : ∀ target ∈ s.targets, ¬ target.eligible → target ∈ result.2.targets
  raised : ∀ e, result.1 = .error e → result.2 = s

theorem keeps_error (hsound : Sound sha256 s) (e : StoreError) : Keeps sha256 s (.error e, s) :=
  ⟨hsound, fun _ htarget _ => htarget, fun _ _ => rfl⟩

theorem Settled.keeps (hsound : Sound sha256 s) {new : List AcquisitionAttempt}
    {outcome : AcquisitionOutcome} (hsettled : Settled s new outcome t) :
    Keeps sha256 s (.ok (), t) :=
  ⟨hsettled.sound hsound, fun _ htarget => hsettled.mem_targets hsound htarget,
    fun _ he => nomatch he⟩

theorem call_keeps (urls : UrlLibrary) (hsound : Sound sha256 s) (call : LedgerCall) :
    Keeps sha256 s (s.call sha256 urls call) := by
  cases call with
  | appendAttempt attempt outcome faults =>
    rw [Store.call]
    rcases appendAttempt_cases attempt outcome faults s with
      ⟨e, herror⟩ | ⟨new, t, hok, hsettled⟩
    · exact herror ▸ keeps_error hsound e
    · exact hok ▸ hsettled.keeps hsound
  | commitAttempts attempts outcome resolution recordedAtUtc faults =>
    rw [Store.call]
    rcases commitAttempts_cases attempts outcome resolution recordedAtUtc faults s with
      ⟨e, herror⟩ | ⟨new, t, hok, hsettled⟩
    · exact herror ▸ keeps_error hsound e
    · exact hok ▸ hsettled.keeps hsound
  | appendOperation attempt faults =>
    rw [Store.call]
    rcases appendOperation_cases attempt faults s with
      ⟨e, herror⟩ | ⟨current, hfound, hselected, hnumber, hok⟩
    · exact herror ▸ keeps_error hsound e
    · rw [hok]
      exact ⟨hsound.record hfound hselected hnumber, fun _ htarget _ => htarget,
        fun _ he => nomatch he⟩

theorem Sound.after (hsound : Sound sha256 s) (calls : List LedgerCall) :
    Sound sha256 (s.after sha256 urls calls) := by
  induction calls generalizing s with
  | nil => exact hsound
  | cons call calls ih => exact ih (call_keeps urls hsound call).sound

theorem Sound.mem_targets_after (hsound : Sound sha256 s) (calls : List LedgerCall)
    {target : TargetState} (htarget : target ∈ s.targets) (hterminal : ¬ target.eligible) :
    target ∈ (s.after sha256 urls calls).targets := by
  induction calls generalizing s with
  | nil => exact htarget
  | cons call calls ih =>
    have hkeeps := call_keeps urls hsound call
    exact ih hkeeps.sound (hkeeps.terminal target htarget hterminal)

/-- The acquisition ledger after one initialization and any calls of its three writers:
the attempts of a target are numbered from one without gaps and projected into its row,
a row whose outcome is terminal stays, the operations match their histories, and a call
that raises leaves the store as it was. -/
theorem ledger_invariant (sha256 : Bytes → String) (urls : UrlLibrary)
    {targets : List WorkOrderTargetSeed} {operations : List WorkOrderOperationSeed}
    {faults : List Bool} {store : Store}
    (hinit : initializeRunState sha256 targets operations faults .empty = (.ok (), store))
    (calls : List LedgerCall) :
    (∀ target ∈ (store.after sha256 urls calls).targets,
      TargetFits (store.after sha256 urls calls) target) ∧
    (∀ more, ∀ target ∈ (store.after sha256 urls calls).targets, ¬ target.eligible →
      target ∈ (store.after sha256 urls (calls ++ more)).targets) ∧
    validateOperationState sha256 (store.after sha256 urls calls) = .ok () ∧
    (∀ call e, ((store.after sha256 urls calls).call sha256 urls call).1 = .error e →
      ((store.after sha256 urls calls).call sha256 urls call).2 = store.after sha256 urls calls) := by
  have hsound : Sound sha256 (store.after sha256 urls calls) :=
    (seeded_initializeRunState hinit).sound.after calls
  refine ⟨hsound.targets, ?_, hsound.validate, fun call => (call_keeps urls hsound call).raised⟩
  intro more target htarget hterminal
  rw [Store.after_append]
  exact hsound.mem_targets_after more htarget hterminal

def rawSeed : WorkOrderOperationSeed where
  operationId := operationIdentity sha256Hex "t" "raw"
  targetId := "t"
  operation := "raw"
  requested := true
  requestMode := .mandatoryRaw
  selected := true
  sourceRequestId := none
  inputOrdinal := none
  inputRole := none
  supportStatus := .supported
  supportReason := none
  capabilityId := some "raw"
  capabilityVersion := some "1"
  handlerId := some "copy"
  handlerVersion := some "1"
  outputKind := some "bytes"

def archiveUrls : UrlLibrary where
  urlsplit _ := some ⟨"https", some "www.sec.gov", none, none, none⟩
  strip url := url

def storedBody : Evidence := ⟨some "d", some 3, some "s/d", some "d", some 3, some "s/d"⟩

def acquireFirst : LedgerCall :=
  .appendAttempt
    { attemptId := "a1", targetId := "t", attemptNumber := 1, attemptKind := .documentBody
      source := .liveSec, requestedUrl := "https://www.sec.gov/d", outcome := .acquired
      retryable := false, errorCode := none, httpStatus := some 200, finalUrl := none
      startedAtUtc := "1", finishedAtUtc := "2", evidence := storedBody
      selectedFilename := none }
    { targetId := "t", source := some .liveSec, status := .acquired, attemptCount := 1
      lastAttemptId := some "a1", errorCode := none, retryable := false
      evidence := storedBody } []

theorem ledger_invariant_acquired :
    ∃ store, initializeRunState sha256Hex
        [⟨"t", true, none⟩, ⟨"u", false, some "duplicate"⟩] [rawSeed] [] .empty =
      (.ok (), store) ∧
    (∀ target ∈ (store.after sha256Hex archiveUrls [acquireFirst]).targets,
      TargetFits (store.after sha256Hex archiveUrls [acquireFirst]) target) ∧
    validateOperationState sha256Hex (store.after sha256Hex archiveUrls [acquireFirst]) =
      .ok () := by
  have hok : (initializeRunState sha256Hex
      [⟨"t", true, none⟩, ⟨"u", false, some "duplicate"⟩] [rawSeed] [] .empty).1 = .ok () := by
    decide +kernel
  obtain ⟨store, hinit⟩ : ∃ store, initializeRunState sha256Hex
      [⟨"t", true, none⟩, ⟨"u", false, some "duplicate"⟩] [rawSeed] [] .empty = (.ok (), store) :=
    ⟨_, Prod.ext hok rfl⟩
  have hledger := ledger_invariant sha256Hex archiveUrls hinit [acquireFirst]
  exact ⟨store, hinit, hledger.1, hledger.2.2.1⟩

end EdgarSec.Acquisition
