import EdgarSec.Storage.StagedWriter

/-! What the commits of a `StagedParquetWriter` publish, over every run of one writer. -/

namespace EdgarSec.Storage
open Lib

section Commits
variable {S R : Type} {cfg : Settings S R}

namespace State
variable {s t : State S R} {handle : Handle R} {rows : List R} {fails : Bool}

def pending (s : State S R) : List R := s.object.preloaded.getD []

/-! ## The final file -/

@[simp] theorem final_closeHandle : (s.closeHandle cfg handle fails).1.disk.final = s.disk.final := by
  cases handle <;> cases fails <;> rfl

@[simp] theorem final_ensureWriter {fault : Option (EnsureFault R)} :
    (s.ensureWriter fault).1.disk.final = s.disk.final := by
  unfold ensureWriter
  split
  · rfl
  · split
    · split_ifs <;> rfl
    · split
      · split <;> rfl
      · rfl

@[simp] theorem final_createStage {faults : CommitFaults R} :
    (s.createStage faults).1.disk.final = s.disk.final := by
  unfold createStage
  split_ifs
  · exact final_ensureWriter
  · rfl

@[simp] theorem final_openPreloaded {faults : CommitFaults R} :
    (s.openPreloaded faults).1.disk.final = s.disk.final := by
  unfold openPreloaded
  split
  · exact final_ensureWriter
  · rfl

@[simp] theorem final_closeStage {faults : CommitFaults R} :
    (s.closeStage cfg faults).1.disk.final = s.disk.final := by
  unfold closeStage
  split
  · dsimp only
    split_ifs
    · exact final_closeHandle
    · exact final_closeHandle
  · rfl

@[simp] theorem final_settle {faults : CommitFaults R} :
    (s.settle cfg faults).1.disk.final = s.disk.final := by
  unfold settle
  dsimp only
  split_ifs
  · exact final_createStage
  · rw [final_openPreloaded, final_createStage]
  · rw [final_closeStage, final_openPreloaded, final_createStage]

theorem promote_raised {expected : Option Nat} {faults : CommitFaults R} {failure : Failure}
    (h : (s.promote expected faults).2 = .raised failure) :
    (s.promote expected faults).1 = s := by
  unfold promote at h ⊢
  split at h
  · rfl
  · rfl
  · split_ifs at h ⊢ <;> rfl

theorem promote_returned {expected : Option Nat} {faults : CommitFaults R} {n : Nat}
    (h : (s.promote expected faults).2 = .returned n) :
    ∃ schema rows, s.disk.stage = some (.table schema rows) ∧
      (s.promote expected faults).1 = { s with disk := ⟨some (.table schema rows), none⟩ } := by
  unfold promote at h ⊢
  split at h
  · exact Outcome.noConfusion h
  · exact Outcome.noConfusion h
  next schema rows hstage =>
    split_ifs at h ⊢
    exact ⟨schema, rows, hstage, rfl⟩

theorem commit_of_closed {expected : Option Nat} {faults : CommitFaults R}
    (h : s.object.closed = true) :
    s.commit cfg expected faults = (s, .returned s.object.rowCount) := by
  rw [commit, if_pos h]

theorem commit_of_unsettled {expected : Option Nat} {faults : CommitFaults R}
    (h : s.object.closed = false) (hsettled : (s.settle cfg faults).2 = false) :
    s.commit cfg expected faults = ((s.settle cfg faults).1, .raised .arrow) := by
  rw [commit, h, if_neg Bool.false_ne_true]
  dsimp only
  rw [hsettled, Bool.not_false, if_pos rfl]

theorem commit_of_settled {expected : Option Nat} {faults : CommitFaults R}
    (h : s.object.closed = false) (hsettled : (s.settle cfg faults).2 = true) :
    s.commit cfg expected faults =
      { (s.settle cfg faults).1 with object.closed := true }.promote expected faults := by
  rw [commit, h, if_neg Bool.false_ne_true]
  dsimp only
  rw [hsettled, Bool.not_true, if_neg Bool.false_ne_true]

theorem final_of_commit_raised {expected : Option Nat} {faults : CommitFaults R} {failure : Failure}
    (h : (s.commit cfg expected faults).2 = .raised failure) :
    (s.commit cfg expected faults).1.disk.final = s.disk.final := by
  cases hclosed : s.object.closed with
  | true =>
    rw [commit_of_closed hclosed] at h
    exact Outcome.noConfusion h
  | false =>
    cases hsettled : (s.settle cfg faults).2 with
    | false =>
      rw [commit_of_unsettled hclosed hsettled]
      exact final_settle
    | true =>
      rw [commit_of_settled hclosed hsettled] at h ⊢
      rw [promote_raised h]
      exact final_settle

/-! ## Opening the stage -/

theorem ensureWriter_cases (hnone : s.object.writer = none) (fault : Option (EnsureFault R)) :
    ((∃ left, fault = some (.preloadFails left)) ∧ s.pending ≠ [] ∧
      (s.ensureWriter fault).2 = false) ∨
    ((s.ensureWriter fault).2 = true ∧ (s.ensureWriter fault).1.disk.stage = some .broken ∧
      (s.ensureWriter fault).1.object.writer = some (.writing s.pending) ∧
      (s.ensureWriter fault).1.object.closed = s.object.closed ∧
      (s.ensureWriter fault).1.pending = []) ∨
    ((s.ensureWriter fault).2 = false ∧ (s.ensureWriter fault).1.object = s.object ∧
      ((s.ensureWriter fault).1.disk.stage = s.disk.stage ∨
        (s.ensureWriter fault).1.disk.stage = some .broken)) := by
  unfold ensureWriter
  rw [hnone]
  dsimp only
  cases fault with
  | none =>
    refine Or.inr (Or.inl ?_)
    cases hpreloaded : s.object.preloaded with
    | none => simp [pending, hpreloaded]
    | some rows => cases rows <;> simp [pending, hpreloaded]
  | some fault =>
    cases fault with
    | openFails truncated =>
      refine Or.inr (Or.inr ?_)
      cases truncated <;> simp
    | preloadFails left =>
      cases hpreloaded : s.object.preloaded with
      | none => simp [pending, hpreloaded]
      | some rows => cases rows <;> simp [pending, hpreloaded]

/-! ## The rows on the stage -/

/-- The open file, the stage this writer has closed and the file it has published hold what it was
given; rows that were preloaded are waiting as long as nothing was opened. -/
structure Sound (cfg : Settings S R) (s : State S R) (given : List R) (opened : Bool) : Prop where
  writing : ∀ rows, s.object.writer = some (.writing rows) → rows = given
  spoiled : s.object.writer = some .spoiled → s.disk.stage = some .broken
  staged : s.object.writer = none → opened = true → ∀ schema rows,
    s.disk.stage = some (.table schema rows) → schema = cfg.schema ∧ rows = given
  promoted : s.object.closed = true → s.disk.final = some (.table cfg.schema given)
  taken : s.object.writer ≠ none → s.pending = [] ∧ opened = true
  waiting : s.object.writer = none → s.pending ≠ [] → given = s.pending

variable {given : List R} {opened : Bool}

theorem Sound.of_opened (hwriter : t.object.writer = some (.writing given))
    (hclosed : t.object.closed = false) (hpending : t.pending = []) : Sound cfg t given true := by
  constructor
  · intro rows hrows
    rw [hwriter] at hrows
    exact (Handle.writing.inj (Option.some.inj hrows)).symm
  · intro hspoiled
    rw [hwriter] at hspoiled
    cases hspoiled
  · intro hnone
    rw [hwriter] at hnone
    cases hnone
  · intro hpromoted
    rw [hclosed] at hpromoted
    exact absurd hpromoted Bool.false_ne_true
  · exact fun _ => ⟨hpending, rfl⟩
  · intro hnone
    rw [hwriter] at hnone
    cases hnone

theorem Sound.or_isSome (h : Sound cfg s given opened) :
    (opened || s.object.writer.isSome) = opened := by
  cases hwriter : s.object.writer with
  | none => simp
  | some handle =>
    have hopened := (h.taken (by simp [hwriter])).2
    rw [hopened, Bool.true_or]

theorem Sound.of_stage (h : Sound cfg s given opened) (hobject : t.object = s.object)
    (hfinal : t.disk.final = s.disk.final)
    (hstage : t.disk.stage = s.disk.stage ∨ t.disk.stage = some .broken) :
    Sound cfg t given opened := by
  have hpending : t.pending = s.pending := by rw [pending, hobject, pending]
  constructor
  · rw [hobject]
    exact h.writing
  · rw [hobject]
    intro hspoiled
    rcases hstage with hstage | hstage
    · rw [hstage, h.spoiled hspoiled]
    · exact hstage
  · rw [hobject]
    intro hnone hopened schema rows hrows
    rcases hstage with hstage | hstage
    · exact h.staged hnone hopened schema rows (hstage ▸ hrows)
    · rw [hstage] at hrows
      cases hrows
  · rw [hobject, hfinal]
    exact h.promoted
  · rw [hobject, hpending]
    exact h.taken
  · rw [hobject, hpending]
    exact h.waiting

/-! ## Writing -/

def WriteGuard (s : State S R) (given : List R) (fault : Option (WriteFault R)) : Prop :=
  s.object.closed = false →
    (s.object.writer = none → given = s.pending ∧
      ∀ left, fault = some (.ensure (.preloadFails left)) → s.pending = []) ∧
    ∀ left, fault = some (.batchFails left) → left = []

theorem Sound.appendBatch (h : Sound cfg s given opened) (hclosed : s.object.closed = false)
    {batch : List R} {fault : Option (WriteFault R)}
    (hbatch : ∀ left, fault = some (.batchFails left) → left = []) :
    Sound cfg (s.appendBatch batch fault).1 (givenAfter given batch (s.appendBatch batch fault).2)
      opened := by
  unfold State.appendBatch
  split
  next rows hwriter =>
    obtain rfl := h.writing rows hwriter
    obtain ⟨hpending, rfl⟩ := h.taken (by simp [hwriter])
    split
    next left =>
      rw [hbatch left rfl, List.append_nil]
      exact Sound.of_opened rfl hclosed hpending
    next => exact Sound.of_opened rfl hclosed hpending
  next => exact h

theorem isSome_appendBatch {batch : List R} {fault : Option (WriteFault R)}
    (h : s.object.writer.isSome = true) :
    (s.appendBatch batch fault).1.object.writer.isSome = true := by
  unfold State.appendBatch
  split
  · split <;> rfl
  · exact h

theorem Sound.writeBatch (h : Sound cfg s given opened) {batch : List R}
    {fault : Option (WriteFault R)} (hguard : WriteGuard s given fault) :
    Sound cfg (s.writeBatch batch fault).1 (givenAfter given batch (s.writeBatch batch fault).2)
      (opened || (s.writeBatch batch fault).1.object.writer.isSome) := by
  unfold State.writeBatch
  cases hclosed : s.object.closed with
  | true =>
    rw [if_pos rfl, h.or_isSome]
    exact h
  | false =>
    obtain ⟨hopen, hbatch⟩ := hguard hclosed
    rw [if_neg Bool.false_ne_true]
    dsimp only
    cases hwriter : s.object.writer with
    | some handle =>
      have hensure : s.ensureWriter (ensureFault fault) = (s, true) := by
        unfold ensureWriter
        rw [hwriter]
      rw [hensure, Bool.not_true, if_neg Bool.false_ne_true]
      have happend : Sound cfg (s.appendBatch batch fault).1
          (givenAfter given batch (s.appendBatch batch fault).2) opened :=
        h.appendBatch hclosed hbatch
      rwa [happend.or_isSome]
    | none =>
      obtain ⟨hgiven, hpreload⟩ := hopen hwriter
      rcases ensureWriter_cases hwriter (ensureFault fault) with
        ⟨⟨left, hfault⟩, hpending, _⟩ | ⟨hok, _, hhandle, hstill, hpending⟩ |
        ⟨hfails, hobject, hstage⟩
      · -- the preloaded rows are lost: the guard excludes it
        have hwrite : fault = some (.ensure (.preloadFails left)) := by
          cases fault with
          | none => cases hfault
          | some fault =>
            cases fault with
            | ensure fault => rw [ensureFault] at hfault; rw [Option.some.inj hfault]
            | batchFails left => cases hfault
        exact absurd (hpreload left hwrite) hpending
      · rw [hok, Bool.not_true, if_neg Bool.false_ne_true]
        rw [← hgiven] at hhandle
        have hsound : Sound cfg (s.ensureWriter (ensureFault fault)).1 given true :=
          Sound.of_opened hhandle (hstill.trans hclosed) hpending
        rw [isSome_appendBatch (by rw [hhandle]; rfl), Bool.or_true]
        exact hsound.appendBatch (hstill.trans hclosed) hbatch
      · rw [hfails, Bool.not_false, if_pos rfl]
        have hsound := h.of_stage hobject final_ensureWriter hstage
        rwa [hsound.or_isSome]

/-! ## Closing -/

/-- What this writer has closed is complete or does not read back. -/
def Settled (cfg : Settings S R) (t : State S R) (given : List R) : Prop :=
  t.disk.stage = some (.table cfg.schema given) ∨ t.disk.stage = some .broken ∨ t.disk.stage = none

theorem Sound.closeHandle (h : Sound cfg s given opened) (hwriter : s.object.writer = some handle) :
    Settled cfg (s.closeHandle cfg handle fails).1 given := by
  cases handle with
  | spoiled => exact Or.inr (Or.inl (h.spoiled hwriter))
  | writing rows =>
    rw [h.writing rows hwriter]
    cases fails with
    | true => exact Or.inr (Or.inl rfl)
    | false => exact Or.inl rfl

theorem Sound.of_settled (hsettled : Settled cfg t given) (hnone : t.object.writer = none)
    (hpromoted : t.object.closed = true → t.disk.final = some (.table cfg.schema given))
    (hpending : t.pending = []) : Sound cfg t given opened := by
  constructor
  · intro rows hrows
    rw [hnone] at hrows
    cases hrows
  · intro hspoiled
    rw [hnone] at hspoiled
    cases hspoiled
  · intro _ _ schema rows hrows
    rcases hsettled with hstage | hstage | hstage
    · rw [hstage, Option.some.injEq, Content.table.injEq] at hrows
      exact ⟨hrows.1.symm, hrows.2.symm⟩
    · rw [hstage] at hrows
      cases hrows
    · rw [hstage] at hrows
      cases hrows
  · exact hpromoted
  · exact fun hopen => absurd hnone hopen
  · exact fun _ hne => absurd hpending hne

@[simp] theorem closed_closeHandle :
    (s.closeHandle cfg handle fails).1.object.closed = s.object.closed := by
  cases handle <;> cases fails <;> rfl

@[simp] theorem pending_closeHandle : (s.closeHandle cfg handle fails).1.pending = s.pending := by
  cases handle <;> cases fails <;> rfl

theorem Sound.reset (h : Sound cfg s given opened) {closeFails unlinkFails : Bool} :
    Sound cfg (s.reset cfg closeFails unlinkFails) given opened := by
  cases hwriter : s.object.writer with
  | some handle =>
    refine Sound.of_settled ?_ rfl (fun hclosed => absurd hclosed Bool.false_ne_true) rfl
    unfold State.reset
    rw [hwriter]
    cases unlinkFails with
    | true => exact h.closeHandle hwriter
    | false => exact Or.inr (Or.inr rfl)
  | none =>
    unfold State.reset
    rw [hwriter]
    cases unlinkFails with
    | false =>
      exact Sound.of_settled (Or.inr (Or.inr rfl)) rfl
        (fun hclosed => absurd hclosed Bool.false_ne_true) rfl
    | true =>
      constructor
      · intro rows hrows
        cases hrows
      · intro hspoiled
        cases hspoiled
      · exact fun _ => h.staged hwriter
      · exact fun hclosed => absurd hclosed Bool.false_ne_true
      · exact fun hopen => absurd rfl hopen
      · exact fun _ hne => absurd rfl hne

theorem Sound.exit (h : Sound cfg s given opened) {error closeFails unlinkFails : Bool} :
    Sound cfg (s.exit cfg error closeFails unlinkFails) given opened := by
  unfold State.exit
  cases error with
  | true =>
    rw [if_pos rfl]
    split_ifs
    · split
      next handle hwriter =>
        have hpending := (h.taken (by simp [hwriter])).1
        refine Sound.of_settled (h.closeHandle hwriter) rfl ?_ ?_
        · intro hclosed
          have hfinal : (s.closeHandle cfg handle closeFails).1.disk.final = s.disk.final :=
            final_closeHandle
          show (s.closeHandle cfg handle closeFails).1.disk.final = _
          rw [hfinal]
          exact h.promoted (closed_closeHandle.symm.trans hclosed)
        · exact pending_closeHandle.trans hpending
      next => exact h
    · exact h.reset
  | false =>
    rw [if_neg Bool.false_ne_true]
    split
    next handle hclosed hwriter =>
      obtain ⟨hpending, hopened⟩ := h.taken (by simp [hwriter])
      dsimp only
      split_ifs with hok
      · refine Sound.of_settled (h.closeHandle hwriter) rfl ?_ (pending_closeHandle.trans hpending)
        intro hpromoted
        have hfalse : s.object.closed = true := closed_closeHandle.symm.trans hpromoted
        rw [hclosed] at hfalse
        exact absurd hfalse Bool.false_ne_true
      · -- the footer could not be written
        cases handle with
        | spoiled => exact h
        | writing rows =>
          cases closeFails with
          | false => exact absurd rfl hok
          | true =>
            constructor
            · intro rows hrows
              cases hrows
            · exact fun _ => rfl
            · intro hnone
              cases hnone
            · intro hpromoted
              have hfalse : s.object.closed = true := hpromoted
              rw [hclosed] at hfalse
              exact absurd hfalse Bool.false_ne_true
            · exact fun _ => ⟨hpending, hopened⟩
            · intro hnone
              cases hnone
    next => exact h

/-! ## Committing -/

def CommitGuard (s : State S R) (given : List R) (opened raised : Bool) : Prop :=
  raised = false ∧ (s.object.closed = false → s.object.writer = none →
    match s.object.preloaded with
    | some rows => given = rows
    | none => (s.disk.stage = none → given = []) ∧
      ∀ schema rows, s.disk.stage = some (.table schema rows) → opened = true)

theorem closeStage_spec (h : Sound cfg s given opened) (hopen : s.object.writer.isSome = true)
    {faults : CommitFaults R} (hok : (s.closeStage cfg faults).2 = true) :
    Settled cfg (s.closeStage cfg faults).1 given ∧
      (s.closeStage cfg faults).1.object.writer = none ∧ (s.closeStage cfg faults).1.pending = [] := by
  obtain ⟨handle, hwriter⟩ := Option.isSome_iff_exists.mp hopen
  have hpending := (h.taken (by simp [hwriter])).1
  unfold closeStage at hok ⊢
  rw [hwriter] at hok ⊢
  dsimp only at hok ⊢
  split_ifs at hok ⊢ with hclosed
  · exact ⟨h.closeHandle hwriter, rfl, pending_closeHandle.trans hpending⟩
  · exact absurd hok hclosed

theorem sound_of_ensure (hnone : s.object.writer = none) (hclosed : s.object.closed = false)
    (hgiven : given = s.pending) {fault : Option (EnsureFault R)}
    (hok : (s.ensureWriter fault).2 = true) :
    Sound cfg (s.ensureWriter fault).1 given true ∧
      (s.ensureWriter fault).1.object.writer.isSome = true := by
  rcases ensureWriter_cases hnone fault with
    ⟨_, _, hfails⟩ | ⟨_, _, hhandle, hstill, hpending⟩ | ⟨hfails, _, _⟩
  · rw [hok] at hfails
    exact Bool.noConfusion hfails
  · rw [← hgiven] at hhandle
    refine ⟨Sound.of_opened hhandle (hstill.trans hclosed) hpending, ?_⟩
    rw [hhandle]
    rfl
  · rw [hok] at hfails
    exact Bool.noConfusion hfails

theorem openPreloaded_of_isSome (hopen : s.object.writer.isSome = true) {faults : CommitFaults R} :
    s.openPreloaded faults = (s, true) := by
  obtain ⟨handle, hwriter⟩ := Option.isSome_iff_exists.mp hopen
  unfold openPreloaded
  rw [hwriter]

theorem settle_spec (h : Sound cfg s given opened) (hclosed : s.object.closed = false)
    {raised : Bool} (hguard : CommitGuard s given opened raised) {faults : CommitFaults R}
    (hok : (s.settle cfg faults).2 = true) :
    Settled cfg (s.settle cfg faults).1 given ∧ (s.settle cfg faults).1.object.writer = none ∧
      (s.settle cfg faults).1.pending = [] := by
  have hown := hguard.2 hclosed
  unfold settle at hok ⊢
  dsimp only at hok ⊢
  cases hwriter : s.object.writer with
  | some handle =>
    have hopen : s.object.writer.isSome = true := by
      rw [hwriter]
      rfl
    have hcreate : s.createStage faults = (s, true) := by
      unfold createStage
      rw [hwriter]
      rfl
    rw [hcreate, openPreloaded_of_isSome hopen] at hok ⊢
    exact closeStage_spec h hopen hok
  | none =>
    have hmine := hown hwriter
    cases hstage : s.disk.stage with
    | none =>
      have hgiven : given = s.pending := by
        cases hpreloaded : s.object.preloaded with
        | some rows =>
          rw [hpreloaded] at hmine
          rw [pending, hpreloaded, Option.getD_some]
          exact hmine
        | none =>
          rw [hpreloaded] at hmine
          rw [pending, hpreloaded, Option.getD_none]
          exact hmine.1 hstage
      have hcreate : s.createStage faults = s.ensureWriter faults.ensure := by
        unfold createStage
        rw [hwriter, hstage]
        rfl
      rw [hcreate] at hok ⊢
      cases hensure : (s.ensureWriter faults.ensure).2 with
      | false =>
        rw [hensure, Bool.not_false, if_pos rfl, hensure] at hok
        exact absurd hok Bool.false_ne_true
      | true =>
        have hopened : Sound cfg (s.ensureWriter faults.ensure).1 given true ∧ _ :=
          sound_of_ensure hwriter hclosed hgiven hensure
        rw [hensure] at hok
        rw [Bool.not_true, if_neg Bool.false_ne_true, openPreloaded_of_isSome hopened.2] at hok ⊢
        exact closeStage_spec hopened.1 hopened.2 hok
    | some content =>
      have hcreate : s.createStage faults = (s, true) := by
        unfold createStage
        rw [hwriter, hstage]
        rfl
      rw [hcreate] at hok ⊢
      cases hpreloaded : s.object.preloaded with
      | some rows =>
        rw [hpreloaded] at hmine
        have hgiven : given = s.pending := by
          rw [pending, hpreloaded, Option.getD_some]
          exact hmine
        have hload : s.openPreloaded faults = s.ensureWriter faults.ensure := by
          unfold openPreloaded
          rw [hwriter, hpreloaded]
        rw [hload] at hok ⊢
        cases hensure : (s.ensureWriter faults.ensure).2 with
        | false =>
          rw [hensure] at hok
          exact absurd (hensure.symm.trans hok) Bool.false_ne_true
        | true =>
          have hopened : Sound cfg (s.ensureWriter faults.ensure).1 given true ∧ _ :=
            sound_of_ensure hwriter hclosed hgiven hensure
          rw [hensure] at hok
          exact closeStage_spec hopened.1 hopened.2 hok
      | none =>
        rw [hpreloaded] at hmine
        have hload : s.openPreloaded faults = (s, true) := by
          unfold openPreloaded
          rw [hwriter, hpreloaded]
        have hclose : s.closeStage cfg faults = (s, true) := by
          unfold closeStage
          rw [hwriter]
        have hpending : s.pending = [] := by rw [pending, hpreloaded, Option.getD_none]
        rw [hload]
        refine ⟨?_, ?_, ?_⟩
        · show Settled cfg (s.closeStage cfg faults).1 given
          rw [hclose]
          cases content with
          | broken => exact Or.inr (Or.inl hstage)
          | table schema rows =>
            obtain ⟨rfl, rfl⟩ := h.staged hwriter (hmine.2 schema rows hstage) schema rows hstage
            exact Or.inl hstage
        · show (s.closeStage cfg faults).1.object.writer = none
          rw [hclose, hwriter]
        · show (s.closeStage cfg faults).1.pending = []
          rw [hclose, hpending]

theorem Sound.commit (h : Sound cfg s given opened) {raised : Bool}
    (hguard : CommitGuard s given opened raised) {expected : Option Nat} {faults : CommitFaults R}
    {n : Nat} (hreturned : (s.commit cfg expected faults).2 = .returned n) :
    (s.commit cfg expected faults).1.disk.final = some (.table cfg.schema given) ∧
      Sound cfg (s.commit cfg expected faults).1 given opened := by
  cases hclosed : s.object.closed with
  | true =>
    rw [commit_of_closed hclosed]
    exact ⟨h.promoted hclosed, h⟩
  | false =>
    cases hok : (s.settle cfg faults).2 with
    | false =>
      rw [commit_of_unsettled hclosed hok] at hreturned
      cases hreturned
    | true =>
      obtain ⟨hsettled, hnone, hpending⟩ := settle_spec h hclosed hguard hok
      rw [commit_of_settled hclosed hok] at hreturned ⊢
      obtain ⟨schema, rows, hstage, hpromoted⟩ := promote_returned hreturned
      have hrows : Content.table schema rows = .table cfg.schema given := by
        have hstage' : (s.settle cfg faults).1.disk.stage = some (.table schema rows) := hstage
        rcases hsettled with hsettled | hsettled | hsettled
        · exact Option.some.inj (hstage'.symm.trans hsettled)
        · rw [hsettled] at hstage'
          cases hstage'
        · rw [hsettled] at hstage'
          cases hstage'
      rw [hpromoted, hrows]
      refine ⟨rfl, Sound.of_settled (Or.inr (Or.inr rfl)) hnone (fun _ => rfl) hpending⟩

end State

/-! ## Every run of one writer -/

namespace Session

def Guard (s : Session S R) : Operation R → Prop
  | .writeBatch _ fault => s.state.WriteGuard s.given fault
  | .commit _ _ => s.state.CommitGuard s.given s.opened s.raised
  | .exit _ _ _ => True

theorem sound_start [DecidableEq S] {disk : Disk S R} {preload : Option (Bool × Bool)} :
    (start cfg disk preload).state.Sound cfg (start cfg disk preload).given
      (start cfg disk preload).opened := by
  have hwriter : (start cfg disk preload).state.object.writer = none ∧
      (start cfg disk preload).state.object.closed = false := by
    unfold start
    cases preload with
    | none => exact ⟨rfl, rfl⟩
    | some flags =>
      dsimp only
      unfold State.getExistingIds
      split
      · split_ifs
        · exact ⟨rfl, rfl⟩
        · split
          · split_ifs <;> exact ⟨rfl, rfl⟩
          · exact ⟨rfl, rfl⟩
      · exact ⟨rfl, rfl⟩
  constructor
  · intro rows hrows
    rw [hwriter.1] at hrows
    cases hrows
  · intro hspoiled
    rw [hwriter.1] at hspoiled
    cases hspoiled
  · exact fun _ hopened => absurd hopened Bool.false_ne_true
  · intro hclosed
    rw [hwriter.2] at hclosed
    exact absurd hclosed Bool.false_ne_true
  · exact fun hopen => absurd hwriter.1 hopen
  · exact fun _ _ => rfl

/-- As long as no commit has raised, the state is sound. -/
def Sound (cfg : Settings S R) (s : Session S R) : Prop :=
  s.raised = false → s.state.Sound cfg s.given s.opened

theorem Sound.step {s : Session S R} {op : Operation R} (h : Sound cfg s) (hguard : s.Guard op) :
    Sound cfg (s.step cfg op) := by
  intro hraised
  cases op with
  | writeBatch batch fault =>
    exact (h hraised).writeBatch hguard
  | commit expected faults =>
    unfold Session.step at hraised ⊢
    dsimp only at hraised ⊢
    cases houtcome : (s.state.commit cfg expected faults).2 with
    | raised failure =>
      rw [houtcome] at hraised
      exact absurd hraised.symm Bool.false_ne_true
    | returned n =>
      rw [houtcome] at hraised
      have hcommit := ((h hraised).commit hguard houtcome).2
      rwa [hcommit.or_isSome]
  | exit error closeFails unlinkFails => exact (h hraised).exit

/-- What is right about a commit: one that returns has published what the writer was given, and
none before it has raised; one that raises has left the final file alone. -/
def CommitRight (cfg : Settings S R) (s : Session S R) (expected : Option Nat)
    (faults : CommitFaults R) : Prop :=
  match (s.state.commit cfg expected faults).2 with
  | .returned _ => (s.state.commit cfg expected faults).1.disk.final =
      some (.table cfg.schema s.given) ∧ s.raised = false
  | .raised _ => (s.state.commit cfg expected faults).1.disk.final = s.state.disk.final

/-- In a run whose operations all meet their conditions, every commit is right. -/
theorem staged_commits_right [DecidableEq S] {disk : Disk S R} {preload : Option (Bool × Bool)}
    {ops before : List (Operation R)} {expected : Option Nat}
    {faults : CommitFaults R}
    (hmeets : Meets (fun s op => some (Session.step cfg s op)) Guard (start cfg disk preload) ops)
    (hcommit : before ++ [.commit expected faults] <+: ops) :
    CommitRight cfg (before.foldl (Session.step cfg) (start cfg disk preload)) expected faults := by
  obtain ⟨after, rfl⟩ := hcommit
  have hrun : run (fun s op => some (Session.step cfg s op)) (start cfg disk preload) before =
      some (before.foldl (Session.step cfg) (start cfg disk preload)) := run_total
  have hguard := hmeets.left.last hrun
  have hstep : ∀ (s : Session S R) (op : Operation R) (t : Session S R), Sound cfg s → s.Guard op →
      some (Session.step cfg s op) = some t → Sound cfg t := by
    intro s op t hsound hguard hnext
    rw [← Option.some.inj hnext]
    exact hsound.step hguard
  have hsound := run_invariant hstep (fun _ => sound_start) hmeets.left.left hrun
  unfold CommitRight
  split
  next n houtcome => exact ⟨((hsound hguard.1).commit hguard houtcome).1, hguard.1⟩
  next failure houtcome => exact State.final_of_commit_raised houtcome

end Session
end Commits

/-! ## A stage that was left behind -/

def plainSettings : Settings Unit Nat :=
  ⟨(), fun _ => ["cik"], some "cik", fun n => some (toString n), false⟩

def noFaults : CommitFaults Nat := ⟨none, false, false, false⟩

def leftOver : Disk Unit Nat := ⟨none, some (.table () [1])⟩

theorem staged_commits_right_resumed : Session.CommitRight plainSettings
    (([.writeBatch [2] none] : List (Operation Nat)).foldl (Session.step plainSettings)
      (Session.start plainSettings leftOver (some (false, false)))) (some 2) noFaults := by
  apply @Session.staged_commits_right _ _ plainSettings _ leftOver (some (false, false))
    [.writeBatch [2] none, .commit (some 2) noFaults] [.writeBatch [2] none]
  · refine ⟨fun _ => ⟨fun _ => ⟨rfl, ?_⟩, ?_⟩, fun s hs => ⟨?_, fun _ _ => trivial⟩⟩
    · intro left hfault
      cases hfault
    · intro left hfault
      cases hfault
    · rw [← Option.some.inj hs]
      refine ⟨rfl, fun _ hnone => ?_⟩
      cases hnone
  · exact List.prefix_rfl

/-- The row of the writer before is published by a writer that was given nothing. -/
theorem leftover_published :
    ¬ ∀ (disk : Disk Unit Nat) (preload : Option (Bool × Bool)) (before : List (Operation Nat))
      (expected : Option Nat) (faults : CommitFaults Nat),
      Session.CommitRight plainSettings
        (before.foldl (Session.step plainSettings) (Session.start plainSettings disk preload))
        expected faults := by
  intro h
  have hright := h leftOver none [] none noFaults
  have hfinal : (some (.table () [1]) : Option (Content Unit Nat)) = some (.table () []) := hright.1
  exact absurd hfinal (by decide)

def renameFailed : Session Unit Nat :=
  ([.writeBatch [2] none, .commit none ⟨none, false, false, true⟩] : List (Operation Nat)).foldl
    (Session.step plainSettings) (Session.start plainSettings ⟨none, none⟩ none)

-- the writer is closed all the same, so the next commit reports its rows
example : renameFailed.raised = true ∧
    (renameFailed.state.commit plainSettings none noFaults).2 = .returned 1 ∧
    (renameFailed.state.commit plainSettings none noFaults).1.disk.final = none :=
  ⟨rfl, rfl, rfl⟩

end EdgarSec.Storage
