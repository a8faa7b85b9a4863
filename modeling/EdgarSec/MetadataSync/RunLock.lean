import EdgarSec.Lib.Transition

/-! The run lock of `metadata_sync/run_lock.py`, cut at its file operations: any number of
constructors and closers on one lock path of one host, any interleaving, processes that die
between any two operations. -/

namespace EdgarSec.MetadataSync
open Lib

structure LockOwner where
  pid : Int
  host : String
  token : String
  deriving DecidableEq, Repr

inductive RunLockError where
  | unreadable
  | malformed
  | alreadyLocked
  | notConfirmed
  | recoveryActive
  | acquiredConcurrently
  deriving DecidableEq, Repr

def RunLockError.message (path : String) : RunLockError → String
  | unreadable => "run lock is unreadable: " ++ path
  | malformed => "run lock is malformed: " ++ path
  | alreadyLocked => "run is already locked: " ++ path
  | notConfirmed => "run is already locked: " ++ path ++
      "; stale recovery requires explicit operator confirmation"
  | recoveryActive => "stale-lock recovery is already active: " ++ path
  | acquiredConcurrently => "run lock was acquired concurrently: " ++ path

inductive LockFailure where
  | runLockError (error : RunLockError)
  | osError
  deriving DecidableEq, Repr

/-- The checks of `read_lock_owner` on a payload that was written whole. -/
def LockOwner.validate (owner : LockOwner) : Except RunLockError LockOwner :=
  if owner.pid ≤ 0 ∨ owner.host = "" ∨ owner.token = "" then .error .malformed else .ok owner

/-- The `RunLock` objects built on one lock path of one host, with the processes that build
them. Their tokens come from `uuid4`. -/
structure Constructors (ι : Type) where
  host : String
  pid : ι → Int
  token : ι → String
  staleLockConfirmed : ι → Bool
  token_injective : Function.Injective token

def Constructors.payload {ι : Type} (locks : Constructors ι) (a : ι) : LockOwner where
  pid := locks.pid a
  host := locks.host
  token := locks.token a

/-- `_recover_existing` on the owner it read, up to the recovery file. -/
def Constructors.inspect {ι : Type} (locks : Constructors ι) (a : ι) (owner : LockOwner)
    (pidIsAlive : Bool) : Except RunLockError Unit :=
  if owner.host = locks.host ∧ pidIsAlive = true then .error .alreadyLocked
  else if locks.staleLockConfirmed a = false then .error .notConfirmed
  else .ok ()

/-- How far a constructor, and after it `close`, is. A file that was opened is named by the
object that created it: none creates the lock file twice. -/
inductive Phase (ι : Type) where
  | constructing
  | writing (recovered : Bool)
  | syncing (recovered : Bool)
  | found
  | acquiringAfterRelease
  | reading (file : ι)
  | inspecting (file : ι) (owner : LockOwner)
  | recovering (file : ι)
  | writingRecovery (file : ι)
  | unlinking (file : ι)
  | recreating
  | cleaning (failure : Option LockFailure)
  | finishing (failure : Option LockFailure)
  | failed (failure : LockFailure)
  | holding
  | closing (file : ι)
  | releasing
  | closed

/-- The lock file and the recovery file, each named by its creator; whose payload is
complete; how far each object is; which processes have not died. -/
structure RunLocks (ι : Type) where
  lock : Option ι
  recovery : Option ι
  written : ι → Bool
  phase : ι → Phase ι
  alive : Int → Bool

/-- `advance` takes the next operation of an object, `raise` lets it fail with an error of
the operating system. -/
inductive Action (ι : Type) where
  | advance (a : ι)
  | raise (a : ι)
  | crash (pid : Int)

namespace RunLocks
variable {ι : Type} [DecidableEq ι]

def initial : RunLocks ι where
  lock := none
  recovery := none
  written _ := false
  phase _ := .constructing
  alive _ := true

def become (s : RunLocks ι) (a : ι) (phase : Phase ι) : RunLocks ι :=
  { s with phase := Function.update s.phase a phase }

def withLock (s : RunLocks ι) (file : Option ι) : RunLocks ι := { s with lock := file }

def withRecovery (s : RunLocks ι) (file : Option ι) : RunLocks ι := { s with recovery := file }

def write (s : RunLocks ι) (a : ι) : RunLocks ι :=
  { s with written := Function.update s.written a true }

section
variable (locks : Constructors ι)

/-- `read_lock_owner` on a file that was opened. A payload cut short is no JSON document. -/
def readLockOwner (s : RunLocks ι) (file : ι) : Except RunLockError LockOwner :=
  if s.written file then (locks.payload file).validate else .error .malformed

def advance (s : RunLocks ι) (a : ι) : Phase ι → RunLocks ι
  | .constructing =>
    match s.lock with
    | none => (s.withLock (some a)).become a (.writing false)
    | some _ => s.become a .found
  | .writing recovered => (s.write a).become a (.syncing recovered)
  | .syncing false => s.become a .holding
  | .syncing true => s.become a (.cleaning none)
  | .found =>
    match s.lock with
    | none => s.become a .acquiringAfterRelease
    | some file => s.become a (.reading file)
  | .acquiringAfterRelease =>
    match s.lock with
    | none => (s.withLock (some a)).become a (.writing false)
    | some _ => s.become a (.failed (.runLockError .acquiredConcurrently))
  | .reading file =>
    match s.readLockOwner locks file with
    | .error error => s.become a (.failed (.runLockError error))
    | .ok owner => s.become a (.inspecting file owner)
  | .inspecting file owner =>
    match locks.inspect a owner (s.alive owner.pid) with
    | .error error => s.become a (.failed (.runLockError error))
    | .ok () => s.become a (.recovering file)
  | .recovering file =>
    match s.recovery with
    | none => (s.withRecovery (some a)).become a (.writingRecovery file)
    | some _ => s.become a (.failed (.runLockError .recoveryActive))
  | .writingRecovery file => s.become a (.unlinking file)
  | .unlinking _ => (s.withLock none).become a .recreating
  | .recreating =>
    match s.lock with
    | none => (s.withLock (some a)).become a (.writing true)
    | some _ => s.become a (.cleaning (some (.runLockError .acquiredConcurrently)))
  | .cleaning failure => (s.withRecovery none).become a (.finishing failure)
  | .finishing none => s.become a .holding
  | .finishing (some failure) => s.become a (.failed failure)
  | .failed failure => s.become a (.failed failure)
  | .holding | .closed =>
    match s.lock with
    | none => s.become a .closed
    | some file => s.become a (.closing file)
  | .closing file =>
    -- `close` looks at the token alone
    if s.written file ∧ locks.token file = locks.token a then s.become a .releasing
    else s.become a .closed
  | .releasing => (s.withLock none).become a .closed

/-- Where an error of the operating system leads: inside the `try` of `_recover_existing`
the recovery file is removed on the way out. -/
def raised : Phase ι → Phase ι
  | .unlinking _ | .recreating | .writing true | .syncing true => .cleaning (some .osError)
  | .found | .reading _ => .failed (.runLockError .unreadable)
  | .failed failure => .failed failure
  | .holding | .closing _ | .releasing | .closed => .closed
  | _ => .failed .osError

def step (s : RunLocks ι) : Action ι → Option (RunLocks ι)
  | .advance a =>
    if s.alive (locks.pid a) then some (s.advance locks a (s.phase a)) else none
  | .raise a => if s.alive (locks.pid a) then some (s.become a (raised (s.phase a))) else none
  | .crash pid => some { s with alive := Function.update s.alive pid false }

end

@[simp] theorem become_phase_self (s : RunLocks ι) (a : ι) (phase : Phase ι) :
    (s.become a phase).phase a = phase := Function.update_self _ _ _

theorem become_phase_of_ne {a b : ι} (hne : b ≠ a) (s : RunLocks ι) (phase : Phase ι) :
    (s.become a phase).phase b = s.phase b := Function.update_of_ne hne _ _

/-! ### Exclusion -/

variable {locks : Constructors ι} {s t : RunLocks ι} {a b : ι}

def RemovesWhatItRead (s : RunLocks ι) : Action ι → Prop
  | .advance a => ∀ file other, s.phase a = .unlinking file → s.lock = some other → other = file
  | _ => True

instance (s : RunLocks ι) (action : Action ι) : Decidable (s.RemovesWhatItRead action) :=
  match action with
  | .advance a =>
    match h : s.phase a with
    | .unlinking file =>
      decidable_of_iff (∀ other ∈ s.lock, other = file)
        ⟨fun hall f other hf => Phase.unlinking.inj (h.symm.trans hf) ▸ hall other,
          fun hall other => hall file other h⟩
    | .constructing | .writing _ | .syncing _ | .found | .acquiringAfterRelease | .reading _
    | .inspecting _ _ | .recovering _ | .writingRecovery _ | .recreating | .cleaning _
    | .finishing _ | .failed _ | .holding | .closing _ | .releasing | .closed =>
      isTrue (by simp [RemovesWhatItRead, h])
  | .raise _ | .crash _ => isTrue trivial

def Local (locks : Constructors ι) (s : RunLocks ι) (a : ι) : Phase ι → Prop
  | .writing _ | .syncing _ | .cleaning none | .finishing none | .holding | .releasing =>
    s.lock = some a
  | .inspecting file owner => locks.payload file = owner
  | .recovering file | .writingRecovery file | .unlinking file => ¬ s.alive (locks.pid file)
  | .closing file => file = a → s.lock = some a
  | _ => True

def Safe (locks : Constructors ι) (s : RunLocks ι) : Prop :=
  ∀ a, s.alive (locks.pid a) → s.Local locks a (s.phase a)

omit [DecidableEq ι] in
theorem Local.frame {phase : Phase ι} (hlocal : s.Local locks a phase)
    (hlock : s.lock = some a → t.lock = some a) (hdead : ∀ p, ¬ s.alive p → ¬ t.alive p) :
    t.Local locks a phase := by
  cases phase with
  | constructing | found | acquiringAfterRelease | reading | recreating | failed | closed => trivial
  | writing recovered | syncing recovered => exact hlock hlocal
  | cleaning failure | finishing failure =>
    cases failure with
    | none => exact hlock hlocal
    | some failure => trivial
  | holding | releasing => exact hlock hlocal
  | inspecting file owner => exact hlocal
  | recovering file | writingRecovery file | unlinking file => exact hdead _ hlocal
  | closing file => exact fun hfile => hlock (hlocal hfile)

omit [DecidableEq ι] in
theorem readLockOwner_ok {file : ι} {owner : LockOwner}
    (hread : s.readLockOwner locks file = .ok owner) : locks.payload file = owner := by
  unfold readLockOwner LockOwner.validate at hread
  split_ifs at hread
  exact Except.ok.inj hread

omit [DecidableEq ι] in
/-- An owner that passes the checks is a process of this host that is not alive. -/
theorem dead_of_inspect {file : ι} {owner : LockOwner} (howner : locks.payload file = owner)
    (hinspect : locks.inspect b owner (s.alive owner.pid) = .ok ()) :
    ¬ s.alive (locks.pid file) := by
  unfold Constructors.inspect at hinspect
  split_ifs at hinspect with hlive _
  rw [← howner] at hlive
  exact fun halive => hlive ⟨rfl, halive⟩

theorem advance_effect (locks : Constructors ι) (s : RunLocks ι) (b : ι) (phase : Phase ι) :
    ((s.advance locks b phase).lock = s.lock ∨
      (s.lock = none ∧ (s.advance locks b phase).lock = some b) ∨
      ((s.advance locks b phase).lock = none ∧
        (phase = .releasing ∨ ∃ file, phase = .unlinking file))) ∧
    (s.advance locks b phase).alive = s.alive ∧
    ∀ a ≠ b, (s.advance locks b phase).phase a = s.phase a := by
  have hother : ∀ next a, a ≠ b → Function.update s.phase b next a = s.phase a :=
    fun next a hne => Function.update_of_ne hne next s.phase
  fun_cases advance locks s b phase <;> simp_all [become, withLock, withRecovery, write]

theorem advance_lock (locks : Constructors ι) (s : RunLocks ι) (b : ι) (phase : Phase ι) :
    (s.advance locks b phase).lock = s.lock ∨
    (s.lock = none ∧ (s.advance locks b phase).lock = some b) ∨
    ((s.advance locks b phase).lock = none ∧
      (phase = .releasing ∨ ∃ file, phase = .unlinking file)) :=
  (advance_effect locks s b phase).1

@[simp] theorem advance_alive (phase : Phase ι) : (s.advance locks b phase).alive = s.alive :=
  (advance_effect locks s b phase).2.1

theorem advance_phase_of_ne (hne : a ≠ b) (phase : Phase ι) :
    (s.advance locks b phase).phase a = s.phase a :=
  (advance_effect locks s b phase).2.2 a hne

theorem advance_local {phase : Phase ι} (hlocal : s.Local locks b phase) :
    (s.advance locks b phase).Local locks b ((s.advance locks b phase).phase b) := by
  cases phase with
  | constructing | acquiringAfterRelease | recreating =>
    cases hfile : s.lock with
    | none =>
      simp only [advance, hfile, become_phase_self]
      exact rfl
    | some file => simp only [advance, hfile, become_phase_self, Local]
  | writing recovered =>
    simp only [advance, become_phase_self]
    exact hlocal
  | syncing recovered =>
    cases recovered <;> simp only [advance, become_phase_self] <;> exact hlocal
  | found =>
    cases hfile : s.lock <;> simp only [advance, hfile, become_phase_self, Local]
  | reading file =>
    cases hread : s.readLockOwner locks file with
    | error error => simp only [advance, hread, become_phase_self, Local]
    | ok owner =>
      simp only [advance, hread, become_phase_self]
      exact readLockOwner_ok hread
  | inspecting file owner =>
    cases hinspect : locks.inspect b owner (s.alive owner.pid) with
    | error error => simp only [advance, hinspect, become_phase_self, Local]
    | ok done =>
      have hdead := dead_of_inspect hlocal hinspect
      simp only [advance, hinspect, become_phase_self]
      exact hdead
  | recovering file =>
    cases hfile : s.recovery with
    | none =>
      simp only [advance, hfile, become_phase_self]
      exact hlocal
    | some other => simp only [advance, hfile, become_phase_self, Local]
  | writingRecovery file =>
    simp only [advance, become_phase_self]
    exact hlocal
  | unlinking file => simp only [advance, become_phase_self, Local]
  | cleaning failure =>
    simp only [advance, become_phase_self]
    cases failure with
    | none => exact hlocal
    | some failure => trivial
  | finishing failure =>
    cases failure with
    | none =>
      simp only [advance, become_phase_self]
      exact hlocal
    | some failure => simp only [advance, become_phase_self, Local]
  | failed failure => simp only [advance, become_phase_self, Local]
  | holding | closed =>
    cases hfile : s.lock with
    | none => simp only [advance, hfile, become_phase_self, Local]
    | some file =>
      simp only [advance, hfile, become_phase_self]
      exact fun hown => hown ▸ hfile
  | closing file =>
    by_cases htoken : s.written file ∧ locks.token file = locks.token b
    · simp only [advance, if_pos htoken, become_phase_self]
      exact hlocal (locks.token_injective htoken.2)
    · simp only [advance, if_neg htoken, become_phase_self, Local]
  | releasing => simp only [advance, become_phase_self, Local]

omit [DecidableEq ι] in
theorem raised_local {phase : Phase ι} : s.Local locks b (raised phase) := by
  cases phase with
  | writing recovered | syncing recovered => cases recovered <;> trivial
  | _ => trivial

theorem advance_keeps_lock (hsafe : s.Safe locks) (hguard : s.RemovesWhatItRead (.advance b))
    (hb : s.alive (locks.pid b)) (ha : s.alive (locks.pid a)) (hne : a ≠ b)
    (hfile : s.lock = some a) : (s.advance locks b (s.phase b)).lock = some a := by
  have hlocal := hsafe b hb
  rcases advance_lock locks s b (s.phase b) with
    hsame | ⟨hnone, -⟩ | ⟨-, hphase | ⟨file, hphase⟩⟩
  · rw [hsame, hfile]
  · rw [hnone] at hfile
    cases hfile
  · rw [hphase] at hlocal
    have hown : a = b := Option.some.inj (hfile.symm.trans hlocal)
    exact absurd hown hne
  · rw [hphase] at hlocal
    have hread : a = file := hguard file a hphase hfile
    exact absurd (hread ▸ ha) hlocal

omit [DecidableEq ι] in
theorem safe_initial : (initial : RunLocks ι).Safe locks := fun _ _ => trivial

theorem Safe.step (hsafe : s.Safe locks) {action : Action ι} (hguard : s.RemovesWhatItRead action)
    (hstep : s.step locks action = some t) : t.Safe locks := by
  intro a ha
  cases action with
  | advance b =>
    simp only [RunLocks.step, Option.ite_none_right_eq_some, Option.some.injEq] at hstep
    obtain ⟨hb, rfl⟩ := hstep
    rw [advance_alive] at ha
    by_cases hab : a = b
    · subst hab
      exact advance_local (hsafe a ha)
    · rw [advance_phase_of_ne hab]
      apply (hsafe a ha).frame
      · exact advance_keeps_lock hsafe hguard hb ha hab
      · exact fun p hp => by rwa [advance_alive]
  | raise b =>
    simp only [RunLocks.step, Option.ite_none_right_eq_some, Option.some.injEq] at hstep
    obtain ⟨hb, rfl⟩ := hstep
    by_cases hab : a = b
    · subst hab
      rw [become_phase_self]
      exact raised_local
    · rw [become_phase_of_ne hab]
      exact (hsafe a ha).frame id fun _ => id
  | crash pid =>
    simp only [RunLocks.step, Option.some.injEq] at hstep
    subst hstep
    have hshrink : ∀ p, Function.update s.alive pid false p → s.alive p := by
      intro p hp
      by_cases hpid : p = pid
      · subst hpid
        simp at hp
      · rwa [Function.update_of_ne hpid] at hp
    exact (hsafe a (hshrink _ ha)).frame id fun p => mt (hshrink p)

theorem safe_of_run {actions : List (Action ι)}
    (hmeets : Meets (RunLocks.step locks) RemovesWhatItRead initial actions)
    (hrun : run (RunLocks.step locks) initial actions = some s) : s.Safe locks :=
  run_invariant (fun _ _ _ hsafe hguard hstep => Safe.step hsafe hguard hstep) safe_initial hmeets hrun

/-- The constructor of `a` returned, its process lives, and it has not given the lock up:
a `close` under way counts until the file is gone. -/
def HeldBy (locks : Constructors ι) (s : RunLocks ι) (a : ι) : Prop :=
  s.alive (locks.pid a) ∧
    (s.phase a = .holding ∨ s.phase a = .closing a ∨ s.phase a = .releasing)

omit [DecidableEq ι] in
theorem Safe.lock_of_heldBy (hsafe : s.Safe locks) (hheld : s.HeldBy locks a) : s.lock = some a := by
  obtain ⟨halive, hphase⟩ := hheld
  have hlocal := hsafe a halive
  rcases hphase with hphase | hphase | hphase
  · rwa [hphase] at hlocal
  · rw [hphase] at hlocal
    exact hlocal rfl
  · rwa [hphase] at hlocal

/-- Over every schedule in which each recovery removes only what it read, the lock has one
holder at most, and no operation of another object takes the holder's file away. -/
theorem run_oneHolder {actions : List (Action ι)}
    (hmeets : Meets (RunLocks.step locks) RemovesWhatItRead initial actions)
    (hrun : run (RunLocks.step locks) initial actions = some s) :
    (∀ a b, s.HeldBy locks a → s.HeldBy locks b → a = b) ∧
    (∀ a b t, s.HeldBy locks a → b ≠ a → s.RemovesWhatItRead (.advance b) →
      s.step locks (.advance b) = some t → s.lock = some a ∧ t.lock = some a) := by
  have hsafe := safe_of_run hmeets hrun
  constructor
  · intro a b ha hb
    have hfile := (hsafe.lock_of_heldBy ha).symm.trans (hsafe.lock_of_heldBy hb)
    exact Option.some.inj hfile
  · intro a b t ha hne hguard hstep
    have hfile := hsafe.lock_of_heldBy ha
    simp only [RunLocks.step, Option.ite_none_right_eq_some, Option.some.injEq] at hstep
    obtain ⟨hb, rfl⟩ := hstep
    exact ⟨hfile, advance_keeps_lock hsafe hguard hb ha.1 hne.symm hfile⟩

end RunLocks

def twoRecoverers : Constructors (Fin 3) where
  host := "h"
  pid a := a.val + 1
  token a := if a = 0 then "a" else if a = 1 then "b" else "c"
  staleLockConfirmed a := a ≠ 0
  token_injective := by decide

def turns (a : Fin 3) (n : Nat) : List (Action (Fin 3)) := List.replicate n (.advance a)

def recovery : List (Action (Fin 3)) := turns 0 3 ++ .crash 1 :: turns 1 12

theorem recovery_meets :
    Meets (RunLocks.step twoRecoverers) RunLocks.RemovesWhatItRead RunLocks.initial recovery := by
  decide +kernel

theorem recovery_holds : (run (RunLocks.step twoRecoverers) RunLocks.initial recovery).map
    (fun s => (s.phase 1, s.alive 2)) = some (.holding, true) := by
  rfl

theorem run_oneHolder_recovery :
    ∃ s, run (RunLocks.step twoRecoverers) RunLocks.initial recovery = some s ∧
      s.HeldBy twoRecoverers 1 ∧
      (∀ a b, s.HeldBy twoRecoverers a → s.HeldBy twoRecoverers b → a = b) ∧
      (∀ a b t, s.HeldBy twoRecoverers a → b ≠ a → s.RemovesWhatItRead (.advance b) →
        s.step twoRecoverers (.advance b) = some t → s.lock = some a ∧ t.lock = some a) := by
  obtain ⟨s, hrun, hend⟩ := Option.map_eq_some_iff.mp recovery_holds
  obtain ⟨hphase, halive⟩ := Prod.mk.inj hend
  exact ⟨s, hrun, ⟨halive, .inl hphase⟩, RunLocks.run_oneHolder recovery_meets hrun⟩

def secondRecovery : List (Action (Fin 3)) :=
  turns 0 3 ++ .crash 1 :: (turns 1 4 ++ turns 2 4 ++ turns 1 8 ++ turns 2 2)

/-- The second recoverer takes away the live holder's file, and then both hold the lock. -/
theorem run_twoHolders :
    (∃ s t, run (RunLocks.step twoRecoverers) RunLocks.initial secondRecovery = some s ∧
      s.HeldBy twoRecoverers 1 ∧ s.lock = some 1 ∧
      s.step twoRecoverers (.advance 2) = some t ∧ t.HeldBy twoRecoverers 1 ∧ t.lock = none) ∧
    ∃ u, run (RunLocks.step twoRecoverers) RunLocks.initial (secondRecovery ++ turns 2 6) = some u ∧
      u.HeldBy twoRecoverers 1 ∧ u.HeldBy twoRecoverers 2 :=
  ⟨⟨_, _, rfl, ⟨rfl, .inl rfl⟩, rfl, rfl, ⟨rfl, .inl rfl⟩, rfl⟩,
    ⟨_, rfl, ⟨rfl, .inl rfl⟩, ⟨rfl, .inl rfl⟩⟩⟩

end EdgarSec.MetadataSync
