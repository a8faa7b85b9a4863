import EdgarSec.Lib.Transition

/-! The run lock of `document_acquisition/run_state/locks.py`, cut at its file
operations: any number of acquirers on one lock path, any interleaving, processes
that die between any two operations. -/

namespace EdgarSec.Acquisition
open Lib

structure LockPayload where
  runId : String
  host : String
  pid : Int
  startedAtUtc : String
  ownerToken : String
  deriving DecidableEq, Repr

inductive RunLockError where
  | unreadable
  | differentRun
  | remoteHost
  | invalidPid
  | alreadyLocked
  | notConfirmed
  | recoveryActive
  | changedDuringRecovery
  | acquiredConcurrently
  deriving DecidableEq, Repr

def RunLockError.message (path : String) : RunLockError → String
  | unreadable => "existing run lock is unreadable"
  | differentRun => "existing lock belongs to a different run"
  | remoteHost => "remote-host locks require operator recovery"
  | invalidPid => "existing run lock has an invalid PID"
  | alreadyLocked => "run is already locked: " ++ path
  | notConfirmed => "stale local lock recovery requires explicit confirmation"
  | recoveryActive => "stale-lock recovery is already active"
  | changedDuringRecovery => "run lock changed during stale recovery"
  | acquiredConcurrently => "run lock was acquired concurrently"

inductive LockFailure where
  | runLockError (error : RunLockError)
  | osError
  deriving DecidableEq, Repr

/-- The fields of a `RunLock` object and the flag it was built with. -/
structure RunLock where
  token : String
  runId : String
  host : String
  pid : Int
  startedAtUtc : String
  staleLocalLockConfirmed : Bool

def RunLock.payload (self : RunLock) : LockPayload where
  runId := self.runId
  host := self.host
  pid := self.pid
  startedAtUtc := self.startedAtUtc
  ownerToken := self.token

/-- The checks of `_recover_existing` on what it read, up to the recovery file. -/
def RunLock.inspect (self : RunLock) (existing : LockPayload) (pidIsAlive : Bool) :
    Except RunLockError Unit :=
  if existing.runId ≠ self.runId then .error .differentRun
  else if existing.host ≠ self.host then .error .remoteHost
  else if existing.pid ≤ 0 then .error .invalidPid
  else if pidIsAlive then .error .alreadyLocked
  else if !self.staleLocalLockConfirmed then .error .notConfirmed
  else .ok ()

/-- The objects built on one lock path. Their tokens come from `uuid4`. -/
structure Acquirers (ι : Type) where
  lock : ι → RunLock
  token_injective : Function.Injective fun a => (lock a).token

abbrev Process := String × Int

def Acquirers.process {ι : Type} (acquirers : Acquirers ι) (a : ι) : Process :=
  ((acquirers.lock a).host, (acquirers.lock a).pid)

def Acquirers.payload {ι : Type} (acquirers : Acquirers ι) (a : ι) : LockPayload :=
  (acquirers.lock a).payload

/-- How far an acquirer is. A file that was opened is named by the acquirer that
created it: none creates the lock file twice. -/
inductive LockPhase (ι : Type) where
  | constructing
  | writing (recovered : Bool)
  | syncing (recovered : Bool)
  | found
  | reading (file : ι)
  | inspecting (existing : LockPayload)
  | recovering (existing : LockPayload)
  | writingRecovery (existing : LockPayload)
  | rechecking (existing : LockPayload)
  | rereading (existing : LockPayload) (file : ι)
  | replacing (existing : LockPayload)
  | recreating
  | cleaning (failure : Option LockFailure)
  | failed (failure : LockFailure)
  | holding
  | closing (file : ι)
  | releasing
  | closed

/-- The lock file and the recovery file, each named by its creator; whose payload is
complete; how far each acquirer is; which processes have not died. -/
structure LockSystem (ι : Type) where
  lock : Option ι
  recovery : Option ι
  written : ι → Bool
  phase : ι → LockPhase ι
  alive : Process → Bool

/-- `advance` takes the next operation of an acquirer, `raise` lets it fail with an
error of the operating system. -/
inductive LockAction (ι : Type) where
  | advance (a : ι)
  | raise (a : ι)
  | crash (p : Process)

namespace LockSystem
variable {ι : Type} [DecidableEq ι]

def initial : LockSystem ι where
  lock := none
  recovery := none
  written _ := false
  phase _ := .constructing
  alive _ := true

def become (s : LockSystem ι) (a : ι) (phase : LockPhase ι) : LockSystem ι :=
  { s with phase := Function.update s.phase a phase }

def withLock (s : LockSystem ι) (file : Option ι) : LockSystem ι := { s with lock := file }

def withRecovery (s : LockSystem ι) (file : Option ι) : LockSystem ι := { s with recovery := file }

def write (s : LockSystem ι) (a : ι) : LockSystem ι :=
  { s with written := Function.update s.written a true }

/-- `_read_lock` on a file that was opened. A payload cut short is no JSON document. -/
def readLock (acquirers : Acquirers ι) (s : LockSystem ι) (file : ι) :
    Except RunLockError LockPayload :=
  if s.written file then .ok (acquirers.payload file) else .error .unreadable

section
variable (acquirers : Acquirers ι)

def advance (s : LockSystem ι) (a : ι) : LockPhase ι → LockSystem ι
  | .constructing =>
    match s.lock with
    | none => (s.withLock (some a)).become a (.writing false)
    | some _ => s.become a .found
  | .writing recovered => (s.write a).become a (.syncing recovered)
  | .syncing false => s.become a .holding
  | .syncing true => s.become a (.cleaning none)
  | .found =>
    match s.lock with
    | none => s.become a (.failed (.runLockError .unreadable))
    | some file => s.become a (.reading file)
  | .reading file =>
    match s.readLock acquirers file with
    | .error error => s.become a (.failed (.runLockError error))
    | .ok existing => s.become a (.inspecting existing)
  | .inspecting existing =>
    match (acquirers.lock a).inspect existing
        (s.alive ((acquirers.lock a).host, existing.pid)) with
    | .error error => s.become a (.failed (.runLockError error))
    | .ok () => s.become a (.recovering existing)
  | .recovering existing =>
    match s.recovery with
    | none => (s.withRecovery (some a)).become a (.writingRecovery existing)
    | some _ => s.become a (.failed (.runLockError .recoveryActive))
  | .writingRecovery existing => s.become a (.rechecking existing)
  | .rechecking existing =>
    match s.lock with
    | none => s.become a (.cleaning (some (.runLockError .unreadable)))
    | some file => s.become a (.rereading existing file)
  | .rereading existing file =>
    match s.readLock acquirers file with
    | .error error => s.become a (.cleaning (some (.runLockError error)))
    | .ok current =>
      if current.ownerToken ≠ existing.ownerToken then
        s.become a (.cleaning (some (.runLockError .changedDuringRecovery)))
      else s.become a (.replacing existing)
  | .replacing _ =>
    match s.lock with
    | none => s.become a (.cleaning (some .osError))
    | some _ => (s.withLock none).become a .recreating
  | .recreating =>
    match s.lock with
    | none => (s.withLock (some a)).become a (.writing true)
    | some _ => s.become a (.cleaning (some (.runLockError .acquiredConcurrently)))
  | .cleaning none => (s.withRecovery none).become a .holding
  | .cleaning (some failure) => (s.withRecovery none).become a (.failed failure)
  | .failed failure => s.become a (.failed failure)
  | .holding | .closed =>
    match s.lock with
    | none => s.become a .closed
    | some file => s.become a (.closing file)
  | .closing file =>
    match s.readLock acquirers file with
    | .error _ => s.become a .closed
    | .ok current =>
      if current.ownerToken = (acquirers.lock a).token then s.become a .releasing
      else s.become a .closed
  | .releasing => (s.withLock none).become a .closed

/-- Where an error of the operating system leads: inside the `try` of
`_recover_existing` the recovery file is removed on the way out. -/
def raised : LockPhase ι → LockPhase ι
  | .rechecking _ | .rereading _ _ | .replacing _ | .recreating | .writing true
  | .syncing true => .cleaning (some .osError)
  | .cleaning none => .failed .osError
  | .cleaning (some failure) => .failed failure
  | .failed failure => .failed failure
  | .holding | .closing _ | .releasing | .closed => .closed
  | _ => .failed .osError

def step (s : LockSystem ι) : LockAction ι → Option (LockSystem ι)
  | .advance a =>
    if s.alive (acquirers.process a) then some (s.advance acquirers a (s.phase a)) else none
  | .raise a =>
    if s.alive (acquirers.process a) then some (s.become a (raised (s.phase a))) else none
  | .crash p => some { s with alive := Function.update s.alive p false }

end

@[simp] theorem become_phase_self (s : LockSystem ι) (a : ι) (phase : LockPhase ι) :
    (s.become a phase).phase a = phase := Function.update_self _ _ _

theorem become_phase_of_ne {a b : ι} (hne : b ≠ a) (s : LockSystem ι) (phase : LockPhase ι) :
    (s.become a phase).phase b = s.phase b := Function.update_of_ne hne _ _

end LockSystem

/-! ### Exclusion -/

namespace LockSystem
variable {ι : Type} (acquirers : Acquirers ι)

def Stale (s : LockSystem ι) (existing : LockPayload) : Prop :=
  ∃ owner, acquirers.payload owner = existing ∧ ¬ s.alive (acquirers.process owner)

def Local (s : LockSystem ι) (a : ι) : LockPhase ι → Prop
  | .constructing | .found | .reading _ | .failed _ | .closed => True
  | .writing false | .syncing false | .holding | .releasing => s.lock = some a
  | .writing true | .syncing true | .cleaning none =>
    s.lock = some a ∧ s.recovery = some a
  | .inspecting existing => ∃ owner, acquirers.payload owner = existing
  | .recovering existing => s.Stale acquirers existing
  | .writingRecovery existing | .rechecking existing =>
    s.Stale acquirers existing ∧ s.recovery = some a
  | .rereading existing file =>
    s.Stale acquirers existing ∧ s.recovery = some a ∧
      ((acquirers.payload file).ownerToken = existing.ownerToken → s.lock = some file)
  | .replacing _ =>
    s.recovery = some a ∧ ∃ owner, s.lock = some owner ∧ ¬ s.alive (acquirers.process owner)
  | .recreating | .cleaning (some _) => s.recovery = some a
  | .closing file => file = a → s.lock = some a

def Safe (s : LockSystem ι) : Prop :=
  ∀ a, s.alive (acquirers.process a) → s.Local acquirers a (s.phase a)

variable {acquirers} {s t : LockSystem ι} {a b : ι}

theorem Stale.mono {existing : LockPayload} (hstale : s.Stale acquirers existing)
    (hdead : ∀ p, ¬ s.alive p → ¬ t.alive p) : t.Stale acquirers existing := by
  obtain ⟨owner, hpayload, howner⟩ := hstale
  exact ⟨owner, hpayload, hdead _ howner⟩

theorem Local.frame {phase : LockPhase ι} (hlocal : s.Local acquirers a phase)
    (hlock : s.lock = some a → t.lock = some a)
    (hrecovery : s.recovery = some a → t.recovery = some a)
    (hkeeps : s.recovery = some a → ∀ owner, ¬ s.alive (acquirers.process owner) →
      s.lock = some owner → t.lock = some owner)
    (hdead : ∀ p, ¬ s.alive p → ¬ t.alive p) : t.Local acquirers a phase := by
  cases phase with
  | constructing | found | reading | failed | closed => trivial
  | writing recovered | syncing recovered =>
    cases recovered with
    | false => exact hlock hlocal
    | true => exact ⟨hlock hlocal.1, hrecovery hlocal.2⟩
  | cleaning failure =>
    cases failure with
    | none => exact ⟨hlock hlocal.1, hrecovery hlocal.2⟩
    | some failure => exact hrecovery hlocal
  | holding | releasing => exact hlock hlocal
  | inspecting existing => exact hlocal
  | recovering existing => exact Stale.mono hlocal hdead
  | writingRecovery existing | rechecking existing =>
    exact ⟨hlocal.1.mono hdead, hrecovery hlocal.2⟩
  | rereading existing file =>
    obtain ⟨hstale, hown, hfile⟩ := hlocal
    refine ⟨hstale.mono hdead, hrecovery hown, fun htoken => ?_⟩
    obtain ⟨owner, hpayload, howner⟩ := hstale
    have hsame : file = owner := acquirers.token_injective (htoken.trans (by rw [← hpayload]; rfl))
    subst hsame
    exact hkeeps hown file howner (hfile htoken)
  | replacing existing =>
    obtain ⟨hown, owner, hfile, howner⟩ := hlocal
    exact ⟨hrecovery hown, owner, hkeeps hown owner howner hfile, hdead _ howner⟩
  | recreating => exact hrecovery hlocal
  | closing file => exact fun hfile => hlock (hlocal hfile)

theorem readLock_ok {file : ι} {existing : LockPayload}
    (hread : s.readLock acquirers file = .ok existing) : acquirers.payload file = existing := by
  unfold readLock at hread
  split_ifs at hread
  exact Except.ok.inj hread

theorem stale_of_inspect {existing : LockPayload} {owner : ι}
    (howner : acquirers.payload owner = existing)
    (hinspect : (acquirers.lock b).inspect existing
      (s.alive ((acquirers.lock b).host, existing.pid)) = .ok ()) :
    s.Stale acquirers existing := by
  unfold RunLock.inspect at hinspect
  split_ifs at hinspect with _ hhost _ hdead
  rw [not_not] at hhost
  have hprocess : acquirers.process owner = ((acquirers.lock b).host, existing.pid) := by
    rw [← hhost, ← howner]
    rfl
  exact ⟨owner, howner, by rwa [hprocess]⟩

theorem eq_of_ownerToken {file owner : ι}
    (htoken : (acquirers.payload file).ownerToken = (acquirers.payload owner).ownerToken) :
    file = owner :=
  acquirers.token_injective htoken

variable [DecidableEq ι]

theorem advance_effect (acquirers : Acquirers ι) (s : LockSystem ι) (b : ι) (phase : LockPhase ι) :
    ((s.advance acquirers b phase).lock = s.lock ∨
      (s.lock = none ∧ (s.advance acquirers b phase).lock = some b) ∨
      ((s.advance acquirers b phase).lock = none ∧
        (phase = .releasing ∨ ∃ existing, phase = .replacing existing))) ∧
    ((s.advance acquirers b phase).recovery = s.recovery ∨
      (s.recovery = none ∧ (s.advance acquirers b phase).recovery = some b) ∨
      ((s.advance acquirers b phase).recovery = none ∧ ∃ failure, phase = .cleaning failure)) ∧
    (s.advance acquirers b phase).alive = s.alive ∧
    ∀ a ≠ b, (s.advance acquirers b phase).phase a = s.phase a := by
  have hother : ∀ next a, a ≠ b → Function.update s.phase b next a = s.phase a :=
    fun next a hne => Function.update_of_ne hne next s.phase
  fun_cases advance acquirers s b phase <;> simp_all [become, withLock, withRecovery, write]

theorem advance_lock (acquirers : Acquirers ι) (s : LockSystem ι) (b : ι) (phase : LockPhase ι) :
    (s.advance acquirers b phase).lock = s.lock ∨
    (s.lock = none ∧ (s.advance acquirers b phase).lock = some b) ∨
    ((s.advance acquirers b phase).lock = none ∧
      (phase = .releasing ∨ ∃ existing, phase = .replacing existing)) :=
  (advance_effect acquirers s b phase).1

theorem advance_recovery (acquirers : Acquirers ι) (s : LockSystem ι) (b : ι) (phase : LockPhase ι) :
    (s.advance acquirers b phase).recovery = s.recovery ∨
    (s.recovery = none ∧ (s.advance acquirers b phase).recovery = some b) ∨
    ((s.advance acquirers b phase).recovery = none ∧ ∃ failure, phase = .cleaning failure) :=
  (advance_effect acquirers s b phase).2.1

@[simp] theorem advance_alive (phase : LockPhase ι) :
    (s.advance acquirers b phase).alive = s.alive :=
  (advance_effect acquirers s b phase).2.2.1

theorem advance_phase_of_ne (hne : a ≠ b) (phase : LockPhase ι) :
    (s.advance acquirers b phase).phase a = s.phase a :=
  (advance_effect acquirers s b phase).2.2.2 a hne

theorem advance_local {phase : LockPhase ι} (hlocal : s.Local acquirers b phase) :
    (s.advance acquirers b phase).Local acquirers b
      ((s.advance acquirers b phase).phase b) := by
  cases phase with
  | constructing =>
    cases hfile : s.lock with
    | none =>
      simp only [advance, hfile, become_phase_self]
      exact rfl
    | some file => simp only [advance, hfile, become_phase_self, Local]
  | writing recovered =>
    simp only [advance, become_phase_self]
    cases recovered <;> exact hlocal
  | syncing recovered =>
    cases recovered <;> simp only [advance, become_phase_self] <;> exact hlocal
  | found =>
    cases hfile : s.lock <;> simp only [advance, hfile, become_phase_self, Local]
  | reading file =>
    cases hread : s.readLock acquirers file with
    | error error => simp only [advance, hread, become_phase_self, Local]
    | ok existing =>
      simp only [advance, hread, become_phase_self]
      exact ⟨file, readLock_ok hread⟩
  | inspecting existing =>
    obtain ⟨owner, howner⟩ := hlocal
    cases hinspect : (acquirers.lock b).inspect existing
        (s.alive ((acquirers.lock b).host, existing.pid)) with
    | error error => simp only [advance, hinspect, become_phase_self, Local]
    | ok done =>
      have hstale := stale_of_inspect howner hinspect
      simp only [advance, hinspect, become_phase_self]
      exact hstale
  | recovering existing =>
    cases hfile : s.recovery with
    | none =>
      simp only [advance, hfile, become_phase_self]
      exact ⟨hlocal, rfl⟩
    | some file => simp only [advance, hfile, become_phase_self, Local]
  | writingRecovery existing =>
    simp only [advance, become_phase_self]
    exact hlocal
  | rechecking existing =>
    cases hfile : s.lock with
    | none =>
      simp only [advance, hfile, become_phase_self]
      exact hlocal.2
    | some file =>
      simp only [advance, hfile, become_phase_self]
      exact ⟨hlocal.1, hlocal.2, fun _ => hfile⟩
  | rereading existing file =>
    obtain ⟨hstale, hown, hfile⟩ := hlocal
    cases hread : s.readLock acquirers file with
    | error error =>
      simp only [advance, hread, become_phase_self]
      exact hown
    | ok current =>
      by_cases htoken : current.ownerToken = existing.ownerToken
      · -- the same token is the same file: the dead owner's is still in place
        obtain ⟨owner, howner, hdead⟩ := hstale
        rw [← readLock_ok hread] at htoken
        have hsame : file = owner := eq_of_ownerToken (htoken.trans (by rw [howner]))
        simp only [advance, hread, ← readLock_ok hread, htoken, ne_eq, not_true_eq_false,
          if_false, become_phase_self]
        exact ⟨hown, owner, hsame ▸ hfile htoken, hdead⟩
      · simp only [advance, hread, htoken, ne_eq, not_false_eq_true, if_true,
          become_phase_self]
        exact hown
  | replacing existing =>
    obtain ⟨hown, owner, hfile, -⟩ := hlocal
    simp only [advance, hfile, become_phase_self]
    exact hown
  | recreating =>
    cases hfile : s.lock with
    | none =>
      simp only [advance, hfile, become_phase_self]
      exact ⟨rfl, hlocal⟩
    | some file =>
      simp only [advance, hfile, become_phase_self]
      exact hlocal
  | cleaning failure =>
    cases failure with
    | none =>
      simp only [advance, become_phase_self]
      exact hlocal.1
    | some failure => simp only [advance, become_phase_self, Local]
  | failed failure => simp only [advance, become_phase_self, Local]
  | holding | closed =>
    cases hfile : s.lock with
    | none => simp only [advance, hfile, become_phase_self, Local]
    | some file =>
      simp only [advance, hfile, become_phase_self]
      exact fun hown => hown ▸ hfile
  | closing file =>
    cases hread : s.readLock acquirers file with
    | error error => simp only [advance, hread, become_phase_self, Local]
    | ok current =>
      by_cases htoken : current.ownerToken = (acquirers.lock b).token
      · simp only [advance, hread, htoken, if_true, become_phase_self]
        rw [← readLock_ok hread] at htoken
        exact hlocal (acquirers.token_injective htoken)
      · simp only [advance, hread, htoken, if_false, become_phase_self, Local]
  | releasing => simp only [advance, become_phase_self, Local]

theorem raised_local {phase : LockPhase ι} (hlocal : s.Local acquirers b phase) :
    (s.become b (raised phase)).Local acquirers b (raised phase) := by
  cases phase with
  | constructing | found | reading | inspecting | recovering | writingRecovery
  | failed | holding | closing | releasing | closed => trivial
  | writing recovered | syncing recovered =>
    cases recovered with
    | false => trivial
    | true => exact hlocal.2
  | rechecking existing => exact hlocal.2
  | rereading existing file => exact hlocal.2.1
  | replacing existing => exact hlocal.1
  | recreating => exact hlocal
  | cleaning failure => cases failure <;> trivial

theorem advance_frame (hsafe : s.Safe acquirers) (hb : s.alive (acquirers.process b))
    (ha : s.alive (acquirers.process a)) (hne : a ≠ b) :
    (s.advance acquirers b (s.phase b)).Local acquirers a (s.phase a) := by
  have hlocal := hsafe b hb
  have hkept : ∀ owner, s.lock = some owner →
      owner = a ∨ ¬ s.alive (acquirers.process owner) ∧ s.recovery = some a →
        (s.advance acquirers b (s.phase b)).lock = some owner := by
    intro owner hfile howner
    rcases advance_lock acquirers s b (s.phase b) with
      hsame | ⟨hnone, -⟩ | ⟨-, hphase | ⟨existing, hphase⟩⟩
    · rw [hsame, hfile]
    · rw [hnone] at hfile
      nomatch hfile
    · -- a release: the file is the releaser's, who is alive and is not `a`
      rw [hphase] at hlocal
      have hb' : owner = b := Option.some.inj (hfile.symm.trans hlocal)
      subst hb'
      rcases howner with hown | ⟨hdead, -⟩
      · exact absurd hown.symm hne
      · exact absurd hb hdead
    · -- a recovery: its file is a dead owner's, and the recovery file is not `a`'s
      rw [hphase] at hlocal
      obtain ⟨hrecovery, dead, hdeadFile, hdead⟩ := hlocal
      have hdead' : owner = dead := Option.some.inj (hfile.symm.trans hdeadFile)
      subst hdead'
      rcases howner with hown | ⟨-, hown⟩
      · exact absurd (hown ▸ ha) hdead
      · exact absurd (Option.some.inj (hown.symm.trans hrecovery)) hne
  have hrecovery : s.recovery = some a →
      (s.advance acquirers b (s.phase b)).recovery = some a := by
    intro hown
    rcases advance_recovery acquirers s b (s.phase b) with
      hsame | ⟨hnone, -⟩ | ⟨-, failure, hphase⟩
    · rw [hsame, hown]
    · rw [hnone] at hown
      nomatch hown
    · rw [hphase] at hlocal
      have hheld : s.recovery = some b := by
        cases failure with
        | none => exact hlocal.2
        | some failure => exact hlocal
      exact absurd (Option.some.inj (hown.symm.trans hheld)) hne
  apply (hsafe a ha).frame
  · exact fun hfile => hkept a hfile (Or.inl rfl)
  · exact hrecovery
  · exact fun hown owner hdead hfile => hkept owner hfile (Or.inr ⟨hdead, hown⟩)
  · exact fun p hp => by rwa [advance_alive]

omit [DecidableEq ι] in
theorem safe_initial : (initial : LockSystem ι).Safe acquirers := fun _ _ => trivial

theorem Safe.step (hsafe : s.Safe acquirers) {action : LockAction ι}
    (hstep : s.step acquirers action = some t) : t.Safe acquirers := by
  intro a ha
  cases action with
  | advance b =>
    simp only [LockSystem.step, Option.ite_none_right_eq_some, Option.some.injEq] at hstep
    obtain ⟨hb, rfl⟩ := hstep
    rw [advance_alive] at ha
    by_cases hab : a = b
    · subst hab
      exact advance_local (hsafe a ha)
    · rw [advance_phase_of_ne hab]
      exact advance_frame hsafe hb ha hab
  | raise b =>
    simp only [LockSystem.step, Option.ite_none_right_eq_some, Option.some.injEq] at hstep
    obtain ⟨hb, rfl⟩ := hstep
    by_cases hab : a = b
    · subst hab
      rw [become_phase_self]
      exact raised_local (hsafe a ha)
    · rw [become_phase_of_ne hab]
      exact (hsafe a ha).frame id id (fun _ _ _ => id) fun _ => id
  | crash p =>
    simp only [LockSystem.step, Option.some.injEq] at hstep
    subst hstep
    have hshrink : ∀ q, Function.update s.alive p false q → s.alive q := by
      intro q hq
      by_cases hqp : q = p
      · subst hqp
        simp at hq
      · rwa [Function.update_of_ne hqp] at hq
    exact (hsafe a (hshrink _ ha)).frame id id (fun _ _ _ => id) fun q => mt (hshrink q)

theorem safe_of_run {actions : List (LockAction ι)}
    (hrun : run (LockSystem.step acquirers) initial actions = some s) : s.Safe acquirers :=
  run_preserves (fun _ _ _ hsafe hstep => Safe.step hsafe hstep) safe_initial hrun

/-- The constructor of `a` returned, its process lives, and it has not given the lock up:
a `close` under way counts until the file is gone. -/
def HeldBy (acquirers : Acquirers ι) (s : LockSystem ι) (a : ι) : Prop :=
  s.alive (acquirers.process a) ∧
    (s.phase a = .holding ∨ s.phase a = .closing a ∨ s.phase a = .releasing)

omit [DecidableEq ι] in
theorem Safe.lock_of_heldBy (hsafe : s.Safe acquirers) (hheld : s.HeldBy acquirers a) :
    s.lock = some a := by
  obtain ⟨halive, hphase⟩ := hheld
  have hlocal := hsafe a halive
  rcases hphase with hphase | hphase | hphase
  · rwa [hphase] at hlocal
  · rw [hphase] at hlocal
    exact hlocal rfl
  · rwa [hphase] at hlocal

/-- Over every schedule of acquirers, recoveries, releases, failures and crashes the lock
has one holder at most, and what a release unlinks is the releaser's own file. -/
theorem run_exclusive {actions : List (LockAction ι)}
    (hrun : run (LockSystem.step acquirers) initial actions = some s) :
    (∀ a b, s.HeldBy acquirers a → s.HeldBy acquirers b → a = b) ∧
    (∀ a t, s.phase a = .releasing → s.step acquirers (.advance a) = some t →
      s.lock = some a) := by
  have hsafe := safe_of_run hrun
  constructor
  · intro a b ha hb
    have hfile := (hsafe.lock_of_heldBy ha).symm.trans (hsafe.lock_of_heldBy hb)
    exact Option.some.inj hfile
  · intro a t hphase hstep
    simp only [LockSystem.step, Option.ite_none_right_eq_some] at hstep
    exact hsafe.lock_of_heldBy ⟨hstep.1, Or.inr (Or.inr hphase)⟩

end LockSystem

def twoAcquirers : Acquirers Bool where
  lock second :=
    { token := if second then "b" else "a"
      runId := "r"
      host := "h"
      pid := if second then 2 else 1
      startedAtUtc := "t"
      staleLocalLockConfirmed := second }
  token_injective := by decide

def takeover : List (LockAction Bool) :=
  List.replicate 3 (.advance false) ++ [.crash ("h", 1)] ++ List.replicate 15 (.advance true)

theorem takeover_releases :
    (run (LockSystem.step twoAcquirers) LockSystem.initial takeover).map (·.phase true) =
      some .releasing := by
  rfl

theorem run_exclusive_takeover :
    ∃ s, run (LockSystem.step twoAcquirers) LockSystem.initial takeover = some s ∧
      s.phase true = .releasing ∧
      (∀ a b, s.HeldBy twoAcquirers a → s.HeldBy twoAcquirers b → a = b) ∧
      (∀ a t, s.phase a = .releasing → s.step twoAcquirers (.advance a) = some t →
        s.lock = some a) := by
  obtain ⟨s, hrun, hphase⟩ := Option.map_eq_some_iff.mp takeover_releases
  exact ⟨s, hrun, hphase, LockSystem.run_exclusive hrun⟩

end EdgarSec.Acquisition
