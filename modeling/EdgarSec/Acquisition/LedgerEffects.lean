import EdgarSec.Acquisition.RunStateWriters
import EdgarSec.Lib.Numbering
import EdgarSec.Lib.Outcome

/-! What a successful writer has done to the run-state database. -/

namespace EdgarSec.Acquisition
open Foundation Lib Tx

variable {s t : Store}

/-! ### Statements -/

theorem execute_succeeds {α : Type} {body : Store → Except StoreError (α × Store)} {a : α}
    (h : Succeeds (execute body) s a t) : body s = .ok (a, t) := h.statement

theorem query_succeeds {α : Type} {read : Store → α} {a : α}
    (h : Succeeds (query read) s a t) : read s = a ∧ s = t := by
  have hdone := execute_succeeds h
  simp only [Except.ok.injEq, Prod.mk.injEq] at hdone
  exact hdone

theorem attempted_succeeds {α : Type} {x : Except StoreError α} {a : α}
    (h : Succeeds (attempted x) s a t) : x = .ok a ∧ s = t := by
  cases x with
  | error e => exact absurd h not_succeeds_throw
  | ok a' =>
    obtain ⟨rfl, rfl⟩ := Succeeds.pure h
    exact ⟨rfl, rfl⟩

theorem check_eq_ok {condition : Bool} {e : StoreError} :
    check condition e = .ok () ↔ condition = true := by
  cases condition <;> simp [check]

theorem insertAttempt_ok {attempt : AcquisitionAttempt} {u : Unit}
    (h : s.insertAttempt attempt = .ok (u, t)) :
    t = { s with attempts := s.attempts ++ [attempt] } := by
  unfold Store.insertAttempt at h
  split_ifs at h
  cases h
  rfl

theorem insertResolution_ok {resolution : TargetSlotResolution} {recordedAtUtc : String} {u : Unit}
    (h : s.insertResolution resolution recordedAtUtc = .ok (u, t)) :
    ∃ resolutions, t = { s with resolutions } := by
  unfold Store.insertResolution at h
  split_ifs at h
  cases h
  exact ⟨_, rfl⟩

theorem insertTarget_ok {target : TargetState} {u : Unit}
    (h : s.insertTarget target = .ok (u, t)) :
    (∀ stored ∈ s.targets, stored.targetId ≠ target.targetId) ∧
      t = { s with targets := s.targets ++ [target] } := by
  unfold Store.insertTarget at h
  split_ifs at h with hnew
  cases h
  simp only [Bool.and_eq_true, Bool.not_eq_true', List.any_eq_false, decide_eq_true_eq] at hnew
  exact ⟨hnew.2, rfl⟩

theorem insertOperation_ok {state : OperationState} {u : Unit}
    (h : s.insertOperation state = .ok (u, t)) :
    (∀ stored ∈ s.operations, stored.operationId ≠ state.operationId) ∧
      t = { s with operations := s.operations ++ [state] } := by
  unfold Store.insertOperation at h
  split_ifs at h with hnew
  cases h
  simp only [Bool.and_eq_true, Bool.not_eq_true', List.any_eq_false, decide_eq_true_eq] at hnew
  exact ⟨hnew.2, rfl⟩

theorem insertOperationAttempt_ok {attempt : OperationAttempt} {u : Unit}
    (h : s.insertOperationAttempt attempt = .ok (u, t)) :
    t = { s with operationAttempts := s.operationAttempts ++ [attempt] } := by
  unfold Store.insertOperationAttempt at h
  split_ifs at h
  cases h
  rfl

theorem updateTarget_ok {outcome : AcquisitionOutcome} {n : Nat}
    (h : s.updateTarget outcome = .ok (n, t)) :
    t = { s with targets := s.targets.map (TargetState.project outcome) } := by
  simp only [Store.updateTarget] at h
  split_ifs at h
  cases h
  rfl

theorem updateOperations_ok {change : OperationState → OperationState} {u : Unit}
    (h : s.updateOperations change = .ok (u, t)) :
    t = { s with operations := s.operations.map change } := by
  simp only [Store.updateOperations] at h
  split_ifs at h
  cases h
  rfl

/-! ### Writers -/

/-- The updates of `refresh_operation_readiness` on one row, one after the other. -/
def OperationState.refreshAll (rows : List ReadinessRow) (state : OperationState) :
    OperationState :=
  rows.foldl (fun state row => state.refresh row) state

theorem foldl_refresh (rows : List ReadinessRow) (store : Store) :
    rows.foldl (fun store row =>
      { store with operations := store.operations.map (OperationState.refresh row) }) store =
    { store with operations := store.operations.map (OperationState.refreshAll rows) } := by
  induction rows generalizing store with
  | nil =>
    have hsame : store.operations.map (OperationState.refreshAll []) = store.operations :=
      List.map_id _
    rw [List.foldl_nil, hsame]
  | cons row rows ih =>
    rw [List.foldl_cons, ih, List.map_map]
    rfl

theorem refreshOperationReadiness_succeeds {targetId : String} {u : Unit}
    (h : Succeeds (refreshOperationReadiness targetId) s u t) :
    t = { s with operations :=
      s.operations.map (OperationState.refreshAll (s.readinessRows targetId)) } := by
  obtain ⟨rows, m, hrows, hloop⟩ := Succeeds.bind h
  obtain ⟨rfl, rfl⟩ := query_succeeds hrows
  rw [← foldl_refresh]
  exact Succeeds.forM (fun row s u t hrow => updateOperations_ok (execute_succeeds hrow)) hloop

theorem executableTarget_succeeds {targetId : String} {target : TargetState}
    (h : Succeeds (executableTarget targetId) s target t) :
    s.findTarget targetId = some target ∧ target.executable = true ∧ s = t := by
  obtain ⟨current, m, hquery, hrest⟩ := Succeeds.bind h
  obtain ⟨hcurrent, rfl⟩ := query_succeeds hquery
  cases current with
  | none => exact absurd hrest not_succeeds_throw
  | some current =>
    obtain ⟨_, m, hrequire, hpure⟩ := Succeeds.bind hrest
    obtain ⟨hexecutable, rfl⟩ := hrequire.require
    obtain ⟨rfl, rfl⟩ := hpure.pure
    exact ⟨hcurrent, hexecutable, rfl⟩

/-- The store after `_UPDATE_TARGET` and the refresh of its target's operations. -/
def Store.projected (store : Store) (outcome : AcquisitionOutcome) : Store :=
  let targets := store.targets.map (TargetState.project outcome)
  { store with
    targets
    operations := store.operations.map
      (OperationState.refreshAll ({ store with targets }.readinessRows outcome.targetId)) }

theorem projectOutcome_succeeds {outcome : AcquisitionOutcome} {u : Unit}
    (h : Succeeds (projectOutcome outcome) s u t) : t = s.projected outcome := by
  obtain ⟨matched, m, hupdate, hrest⟩ := Succeeds.bind h
  obtain rfl := updateTarget_ok (execute_succeeds hupdate)
  obtain ⟨_, m', hmatched, hrefresh⟩ := Succeeds.bind hrest
  obtain ⟨-, rfl⟩ := hmatched.require
  exact refreshOperationReadiness_succeeds hrefresh

/-- What both writers of attempts have done when they succeed: an executable target that
was pending or could be retried has got the attempts `new`, numbered on from its count. -/
def Settled (s : Store) (new : List AcquisitionAttempt) (outcome : AcquisitionOutcome)
    (t : Store) : Prop :=
  ∃ current resolutions final,
    s.findTarget outcome.targetId = some current ∧ current.executable = true ∧
    current.eligible = true ∧ contiguous (current.attemptCount + 1) new = true ∧
    (∀ attempt ∈ new, attempt.targetId = outcome.targetId) ∧
    new.getLast? = some final ∧ outcome.attemptCount = final.attemptNumber ∧
    outcome.lastAttemptId = some final.attemptId ∧
    t = Store.projected { s with attempts := s.attempts ++ new, resolutions } outcome

theorem attemptValues_ok {urls : UrlLibrary} {attempt values : AcquisitionAttempt}
    (h : attemptValues urls attempt = .ok values) : values = attempt := by
  obtain ⟨_, -, h⟩ := bind_eq_ok.mp h
  obtain ⟨_, -, h⟩ := bind_eq_ok.mp h
  exact (Except.ok.inj h).symm

theorem appendArguments_ok {urls : UrlLibrary} {attempt values : AcquisitionAttempt}
    {outcome : AcquisitionOutcome} (h : appendArguments urls attempt outcome = .ok values) :
    values.targetId = outcome.targetId := by
  obtain ⟨values', hvalues, h⟩ := bind_eq_ok.mp h
  obtain ⟨_, htarget, h⟩ := bind_eq_ok.mp h
  obtain ⟨_, -, h⟩ := bind_eq_ok.mp h
  obtain ⟨_, -, h⟩ := bind_eq_ok.mp h
  obtain ⟨_, -, h⟩ := bind_eq_ok.mp h
  obtain rfl := Except.ok.inj h
  rw [attemptValues_ok hvalues]
  simpa using check_eq_ok.mp htarget

theorem appendBody_succeeds {values : AcquisitionAttempt} {outcome : AcquisitionOutcome} {u : Unit}
    (htarget : values.targetId = outcome.targetId)
    (h : Succeeds (appendBody values outcome) s u t) : Settled s [values] outcome t := by
  obtain ⟨current, _, hcurrent, h⟩ := Succeeds.bind h
  obtain ⟨hfound, hexecutable, rfl⟩ := executableTarget_succeeds hcurrent
  obtain ⟨_, _, hcheck, h⟩ := Succeeds.bind h
  obtain ⟨hnumber, rfl⟩ := hcheck.require
  obtain ⟨_, _, hcheck, h⟩ := Succeeds.bind h
  obtain ⟨heligible, rfl⟩ := hcheck.require
  obtain ⟨_, _, hcheck, h⟩ := Succeeds.bind h
  obtain ⟨hprojection, rfl⟩ := hcheck.require
  obtain ⟨_, _, hinsert, hproject⟩ := Succeeds.bind h
  obtain rfl := insertAttempt_ok (execute_succeeds hinsert)
  simp only [Bool.and_eq_true, decide_eq_true_eq] at hnumber hprojection
  refine ⟨current, s.resolutions, values, htarget ▸ hfound, hexecutable, heligible, ?_, ?_, rfl,
    hprojection.1, hprojection.2, projectOutcome_succeeds hproject⟩
  · simp [contiguous, hnumber]
  · simpa using htarget

theorem forM_insertAttempt {new : List AcquisitionAttempt} {u : Unit}
    (h : Succeeds (new.forM fun value => execute (Store.insertAttempt value)) s u t) :
    t = { s with attempts := s.attempts ++ new } := by
  induction new generalizing s with
  | nil =>
    obtain rfl := (Succeeds.pure h).2
    rw [List.append_nil]
  | cons value new ih =>
    obtain ⟨_, m, hvalue, hnew⟩ := Succeeds.bind h
    obtain rfl := insertAttempt_ok (execute_succeeds hvalue)
    rw [ih hnew, List.append_assoc]
    rfl

theorem storeResolution_succeeds {urls : UrlLibrary} {outcome : AcquisitionOutcome}
    {recordedAtUtc : Option String} {resolution : Option TargetSlotResolution} {u : Unit}
    (h : Succeeds (storeResolution urls outcome recordedAtUtc resolution) s u t) :
    ∃ resolutions, t = { s with resolutions } := by
  cases resolution with
  | none =>
    obtain rfl := (Succeeds.pure h).2
    exact ⟨s.resolutions, rfl⟩
  | some resolution =>
    obtain ⟨_, m, hindex, h⟩ := Succeeds.bind h
    have hsame : s = m := by
      unfold requireIndexAttempt at hindex
      split at hindex
      · exact hindex.pure.2
      · obtain ⟨found, _, hquery, hfound⟩ := Succeeds.bind hindex
        exact (query_succeeds hquery).2.trans hfound.require.2
    subst hsame
    obtain ⟨selectedUrl, _, hurl, hinsert⟩ := Succeeds.bind h
    obtain ⟨-, rfl⟩ := attempted_succeeds hurl
    exact insertResolution_ok (execute_succeeds hinsert)

theorem commitArguments_ok {urls : UrlLibrary} {attempts values : List AcquisitionAttempt}
    {outcome : AcquisitionOutcome} {resolution : Option TargetSlotResolution}
    {recordedAtUtc : Option String}
    (h : commitArguments urls attempts outcome resolution recordedAtUtc = .ok values) :
    ∀ value ∈ values, value.targetId = outcome.targetId := by
  obtain ⟨_, -, h⟩ := bind_eq_ok.mp h
  obtain ⟨_, htargets, h⟩ := bind_eq_ok.mp h
  obtain ⟨values', hvalues, h⟩ := bind_eq_ok.mp h
  have hsame : values = values' := by
    cases resolution with
    | none => exact (Except.ok.inj h).symm
    | some resolution =>
      obtain ⟨_, -, hsame⟩ := map_eq_ok.mp h
      exact hsame.symm
  subst hsame
  intro value hvalue
  obtain ⟨attempt, hattempt, hcopied⟩ := (mem_mapM hvalues).mp hvalue
  rw [attemptValues_ok hcopied]
  simpa using List.all_eq_true.mp (check_eq_ok.mp htargets) attempt hattempt

theorem commitBody_succeeds {urls : UrlLibrary} {values : List AcquisitionAttempt}
    {final : AcquisitionAttempt} {outcome : AcquisitionOutcome}
    {resolution : Option TargetSlotResolution} {recordedAtUtc : Option String} {u : Unit}
    (htargets : ∀ value ∈ values, value.targetId = outcome.targetId)
    (hfinal : values.getLast? = some final)
    (h : Succeeds (commitBody urls values final outcome resolution recordedAtUtc) s u t) :
    Settled s values outcome t := by
  obtain ⟨current, _, hcurrent, h⟩ := Succeeds.bind h
  obtain ⟨hfound, hexecutable, rfl⟩ := executableTarget_succeeds hcurrent
  obtain ⟨_, _, hcheck, h⟩ := Succeeds.bind h
  obtain ⟨heligible, rfl⟩ := hcheck.require
  obtain ⟨_, _, hcheck, h⟩ := Succeeds.bind h
  obtain ⟨hnumbers, rfl⟩ := hcheck.require
  obtain ⟨_, _, hcheck, h⟩ := Succeeds.bind h
  obtain ⟨hprojection, rfl⟩ := hcheck.require
  obtain ⟨_, _, hstate, h⟩ := Succeeds.bind h
  obtain ⟨-, rfl⟩ := hstate.require
  obtain ⟨_, _, hinsert, h⟩ := Succeeds.bind h
  obtain rfl := forM_insertAttempt hinsert
  obtain ⟨_, _, hresolution, hproject⟩ := Succeeds.bind h
  obtain ⟨resolutions, rfl⟩ := storeResolution_succeeds hresolution
  simp only [Bool.and_eq_true, decide_eq_true_eq] at hprojection
  exact ⟨current, resolutions, final, hfound, hexecutable, heligible, hnumbers, htargets, hfinal,
    hprojection.1, hprojection.2, projectOutcome_succeeds hproject⟩

theorem appendOperationBody_succeeds {attempt : OperationAttempt} {u : Unit}
    (h : Succeeds (appendOperationBody attempt) s u t) :
    ∃ current, s.findOperation attempt.operationId = some current ∧
      current.requested = true ∧ current.selected = true ∧ current.supportStatus = .supported ∧
      attempt.attemptNumber = current.attemptCount + 1 ∧
      t = { s with
        operationAttempts := s.operationAttempts ++ [attempt]
        operations := s.operations.map (OperationState.record attempt) } := by
  obtain ⟨current, _, hcurrent, h⟩ := Succeeds.bind h
  obtain ⟨found, _, hquery, hcurrent⟩ := Succeeds.bind hcurrent
  obtain ⟨hfound, rfl⟩ := query_succeeds hquery
  cases found with
  | none => exact absurd hcurrent not_succeeds_throw
  | some found =>
    obtain ⟨_, _, hcheck, hpure⟩ := Succeeds.bind hcurrent
    obtain ⟨hselected, rfl⟩ := hcheck.require
    obtain ⟨rfl, rfl⟩ := hpure.pure
    obtain ⟨_, _, hcheck, h⟩ := Succeeds.bind h
    obtain ⟨hnumber, rfl⟩ := hcheck.require
    obtain ⟨_, _, hcheck, h⟩ := Succeeds.bind h
    obtain ⟨-, rfl⟩ := hcheck.require
    obtain ⟨_, _, hinsert, hrecord⟩ := Succeeds.bind h
    obtain rfl := insertOperationAttempt_ok (execute_succeeds hinsert)
    obtain rfl := updateOperations_ok (execute_succeeds hrecord)
    simp only [Bool.and_eq_true, decide_eq_true_eq] at hselected hnumber
    exact ⟨found, hfound, hselected.1.1, hselected.1.2, hselected.2, hnumber, rfl⟩

end EdgarSec.Acquisition
