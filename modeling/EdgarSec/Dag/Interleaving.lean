import EdgarSec.Dag.Retention
import EdgarSec.Lib.Transition

/-! Concurrent calls on one repository. Every call is cut at its catalog reads, catalog
transactions and directory operations, and any process may take the next step. -/

namespace EdgarSec.Dag
open Foundation Lib

/-- The files locks are taken on: publishers lock the catalog, a purge `.publication.lock`. -/
inductive LockFile where
  | catalogFile
  | publicationLock
  deriving DecidableEq, Repr

structure PublishCall where
  manifest : DAGNodeManifest
  staged : Option Path
  expected : Option String
  branchName : Option String
  blocking : Bool

def PublishCall.branch (call : PublishCall) : String := targetBranch call.branchName

/-- How far a `publish_node` call is; from the move on with the place its directory went. -/
inductive PublishPhase where
  | called
  | locked
  | checked
  | moved (place : Option Path)
  | closing (place : Option Path) (result : Except DagError Path)
  | returned (place : Option Path) (result : Except DagError Path)

/-- `checkout_tip` and `create_branch`. -/
inductive PointerCall where
  | checkoutTip (target : String) (branchName : Option String)
  | createBranch (branchName target : String)

def PointerCall.target : PointerCall → String
  | .checkoutTip target _ => target
  | .createBranch _ target => target

def PointerCall.branch : PointerCall → String
  | .checkoutTip _ branchName => targetBranch branchName
  | .createBranch branchName _ => targetBranch (some branchName)

inductive PointerPhase where
  | called
  | checked
  | returned (result : Except DagError Unit)

structure PurgeCall where
  report : RetentionReport
  dryRun : Bool
  pins : List String

/-- How far a `purge_unreferenced` call is: what it removed, and what it still plans to. -/
inductive PurgePhase where
  | called
  | locked
  | removing (removed : List String) (plan : List (String × Option Path))
  | deleting (removed : List String) (snapshotId : String) (plan : List (String × Option Path))
  | closing (result : Except DagError (List String))
  | returned (result : Except DagError (List String))

inductive Proc where
  | idle
  | publish (call : PublishCall) (phase : PublishPhase)
  | point (call : PointerCall) (phase : PointerPhase)
  | purge (call : PurgeCall) (phase : PurgePhase)

structure System (ι : Type) where
  repo : Repository
  lock : LockFile → Option ι
  procs : ι → Proc

namespace System
variable {ι : Type} [DecidableEq ι]

def become (s : System ι) (p : ι) (proc : Proc) : System ι :=
  { s with procs := Function.update s.procs p proc }

def acquire (s : System ι) (p : ι) (file : LockFile) : System ι :=
  { s with lock := Function.update s.lock file (some p) }

def release (s : System ι) (file : LockFile) : System ι :=
  { s with lock := Function.update s.lock file none }

def withRepo (s : System ι) (repo : Repository) : System ι := { s with repo := repo }

section
variable (sha256 : Bytes → String)

/-- The next step of `publish_node`; none while it waits for the lock. -/
def publishStep (s : System ι) (p : ι) (now : String) (call : PublishCall) :
    PublishPhase → Option (System ι)
  | .called =>
    if s.lock .catalogFile = none then
      some ((s.acquire p .catalogFile).become p (.publish call .locked))
    else if call.blocking then none
    else some (s.become p (.publish call (.returned none
      (.error (.publicationLockError "publication lock is held")))))
  | .locked =>
    match s.repo.checkTip call.branch call.expected with
    | .error e => some (s.become p (.publish call (.closing none (.error e))))
    | .ok () => some (s.become p (.publish call .checked))
  | .checked =>
    match s.repo.moveStaged call.manifest.snapshotId call.staged with
    | .error e => some (s.become p (.publish call (.closing none (.error e))))
    | .ok (repo, place) => some ((s.withRepo repo).become p (.publish call (.moved place)))
  | .moved place =>
    match s.repo.commit sha256 call.manifest call.branch now with
    | .error e => some (s.become p (.publish call (.closing place (.error e))))
    | .ok repo => some ((s.withRepo repo).become p (.publish call
        (.closing place (.ok (s.repo.snapshotDir call.manifest.snapshotId)))))
  | .closing place result =>
    some ((s.release .catalogFile).become p (.publish call (.returned place result)))
  | .returned _ _ => none

def pointStep (s : System ι) (p : ι) (now : String) (call : PointerCall) :
    PointerPhase → Option (System ι)
  | .called =>
    let answer : Except DagError Repository := match call with
      | .checkoutTip target branchName => s.repo.checkoutTip target branchName now
      | .createBranch branchName target => s.repo.createBranch branchName target now
    match answer with
    | .error e => some (s.become p (.point call (.returned (.error e))))
    | .ok _ => some (s.become p (.point call .checked))
  | .checked =>
    some ((s.withRepo { s.repo with
      catalog := s.repo.catalog.writePointer call.branch call.target now }).become p
        (.point call (.returned (.ok ()))))
  | .returned _ => none

/-- The next step of `purge_unreferenced`. The recheck and the plan it leads to are one
step; each removal is two. -/
def purgeStep (s : System ι) (p : ι) (call : PurgeCall) : PurgePhase → Option (System ι)
  | .called =>
    if s.lock .publicationLock = none then
      some ((s.acquire p .publicationLock).become p (.purge call .locked))
    else none
  | .locked =>
    match s.repo.removalPlan call.report call.pins with
    | .error e => some (s.become p (.purge call (.closing (.error e))))
    | .ok plan =>
      if call.dryRun then some (s.become p (.purge call (.closing (.ok (plan.map Prod.fst)))))
      else some (s.become p (.purge call (.removing [] plan)))
  | .removing removed [] => some (s.become p (.purge call (.closing (.ok removed))))
  | .removing removed ((id, none) :: plan) =>
    some (s.become p (.purge call (.deleting removed id plan)))
  | .removing removed ((id, some dir) :: plan) =>
    match s.repo.files.rmtree dir with
    | none => some (s.become p (.purge call (.closing
        (.error (.fileNotFoundError "No such file or directory")))))
    | some files => some ((s.withRepo { s.repo with files := files }).become p
        (.purge call (.deleting removed id plan)))
  | .deleting removed id plan =>
    some ((s.withRepo { s.repo with catalog := s.repo.catalog.deleteNode id }).become p
      (.purge call (.removing (removed ++ [id]) plan)))
  | .closing result => some ((s.release .publicationLock).become p (.purge call (.returned result)))
  | .returned _ => none

/-- Process `e.1` takes its next step at the time `e.2`. -/
def step (s : System ι) (e : ι × String) : Option (System ι) :=
  match s.procs e.1 with
  | .idle => none
  | .publish call phase => publishStep sha256 s e.1 e.2 call phase
  | .point call phase => pointStep s e.1 e.2 call phase
  | .purge call phase => purgeStep s e.1 call phase

end

/-! ## What a step can do -/

section
variable {sha256 : Bytes → String} {s t : System ι} {p : ι} {now : String}

inductive Publishes (sha256 : Bytes → String) (s : System ι) (p : ι) (now : String)
    (call : PublishCall) : PublishPhase → System ι → Prop
  | acquire (hfree : s.lock .catalogFile = none) : Publishes sha256 s p now call .called
      ((s.acquire p .catalogFile).become p (.publish call .locked))
  | refuse (e : DagError) : Publishes sha256 s p now call .called
      (s.become p (.publish call (.returned none (.error e))))
  | stale (e : DagError) : Publishes sha256 s p now call .locked
      (s.become p (.publish call (.closing none (.error e))))
  | check (htip : s.repo.checkTip call.branch call.expected = .ok ()) :
      Publishes sha256 s p now call .locked (s.become p (.publish call .checked))
  | stuck (e : DagError) : Publishes sha256 s p now call .checked
      (s.become p (.publish call (.closing none (.error e))))
  | move {repo : Repository} {place : Option Path}
      (hmove : s.repo.moveStaged call.manifest.snapshotId call.staged = .ok (repo, place)) :
      Publishes sha256 s p now call .checked
        ((s.withRepo repo).become p (.publish call (.moved place)))
  | reject {place : Option Path} (e : DagError) : Publishes sha256 s p now call (.moved place)
      (s.become p (.publish call (.closing place (.error e))))
  | commit {repo : Repository} {place : Option Path}
      (hcommit : s.repo.commit sha256 call.manifest call.branch now = .ok repo) :
      Publishes sha256 s p now call (.moved place) ((s.withRepo repo).become p (.publish call
        (.closing place (.ok (s.repo.snapshotDir call.manifest.snapshotId)))))
  | close {place : Option Path} {result : Except DagError Path} :
      Publishes sha256 s p now call (.closing place result)
        ((s.release .catalogFile).become p (.publish call (.returned place result)))

theorem publishes_of_publishStep {call : PublishCall} {phase : PublishPhase}
    (h : publishStep sha256 s p now call phase = some t) : Publishes sha256 s p now call phase t := by
  cases phase with
  | called =>
    rw [publishStep] at h
    split at h
    · rename_i hfree
      obtain rfl := Option.some.inj h
      exact .acquire hfree
    · split at h
      · cases h
      · obtain rfl := Option.some.inj h
        exact .refuse _
  | locked =>
    rw [publishStep] at h
    split at h
    · obtain rfl := Option.some.inj h
      exact .stale _
    · rename_i htip
      obtain rfl := Option.some.inj h
      exact .check htip
  | checked =>
    rw [publishStep] at h
    split at h
    · obtain rfl := Option.some.inj h
      exact .stuck _
    · rename_i hmove
      obtain rfl := Option.some.inj h
      exact .move hmove
  | moved place =>
    rw [publishStep] at h
    split at h
    · obtain rfl := Option.some.inj h
      exact .reject _
    · rename_i hcommit
      obtain rfl := Option.some.inj h
      exact .commit hcommit
  | closing place result =>
    obtain rfl := Option.some.inj h
    exact .close
  | returned place result => cases h

inductive Points (s : System ι) (p : ι) (now : String) (call : PointerCall) :
    PointerPhase → System ι → Prop
  | refuse (e : DagError) : Points s p now call .called (s.become p (.point call (.returned (.error e))))
  | lookUp : Points s p now call .called (s.become p (.point call .checked))
  | write : Points s p now call .checked ((s.withRepo { s.repo with
      catalog := s.repo.catalog.writePointer call.branch call.target now }).become p
        (.point call (.returned (.ok ()))))

theorem points_of_pointStep {call : PointerCall} {phase : PointerPhase}
    (h : pointStep s p now call phase = some t) : Points s p now call phase t := by
  cases phase with
  | called =>
    simp only [pointStep] at h
    split at h
    · obtain rfl := Option.some.inj h
      exact .refuse _
    · obtain rfl := Option.some.inj h
      exact .lookUp
  | checked =>
    obtain rfl := Option.some.inj h
    exact .write
  | returned result => cases h

inductive Purges (s : System ι) (p : ι) (call : PurgeCall) : PurgePhase → System ι → Prop
  | acquire (hfree : s.lock .publicationLock = none) : Purges s p call .called
      ((s.acquire p .publicationLock).become p (.purge call .locked))
  | give (result : Except DagError (List String)) {phase : PurgePhase} : Purges s p call phase
      (s.become p (.purge call (.closing result)))
  | plan {plan : List (String × Option Path)}
      (hplan : s.repo.removalPlan call.report call.pins = .ok plan) : Purges s p call .locked
      (s.become p (.purge call (.removing [] plan)))
  | skip {removed : List String} {id : String} {plan : List (String × Option Path)} :
      Purges s p call (.removing removed ((id, none) :: plan))
        (s.become p (.purge call (.deleting removed id plan)))
  | rmtree {removed : List String} {id : String} {dir : Path} {plan : List (String × Option Path)}
      {files : FileSystem} (hrm : s.repo.files.rmtree dir = some files) :
      Purges s p call (.removing removed ((id, some dir) :: plan))
        ((s.withRepo { s.repo with files := files }).become p (.purge call (.deleting removed id plan)))
  | delete {removed : List String} {id : String} {plan : List (String × Option Path)} :
      Purges s p call (.deleting removed id plan)
        ((s.withRepo { s.repo with catalog := s.repo.catalog.deleteNode id }).become p
          (.purge call (.removing (removed ++ [id]) plan)))
  | close {result : Except DagError (List String)} : Purges s p call (.closing result)
      ((s.release .publicationLock).become p (.purge call (.returned result)))

theorem purges_of_purgeStep {call : PurgeCall} {phase : PurgePhase}
    (h : purgeStep s p call phase = some t) : Purges s p call phase t := by
  cases phase with
  | called =>
    rw [purgeStep] at h
    split at h
    · rename_i hfree
      obtain rfl := Option.some.inj h
      exact .acquire hfree
    · cases h
  | locked =>
    rw [purgeStep] at h
    split at h
    · obtain rfl := Option.some.inj h
      exact .give _
    · rename_i plan hplan
      split at h
      · obtain rfl := Option.some.inj h
        exact .give _
      · obtain rfl := Option.some.inj h
        exact .plan hplan
  | removing removed plan =>
    cases plan with
    | nil =>
      obtain rfl := Option.some.inj h
      exact .give _
    | cons e plan =>
      obtain ⟨id, _ | dir⟩ := e
      · obtain rfl := Option.some.inj h
        exact .skip
      · rw [purgeStep] at h
        dsimp only at h
        split at h
        · obtain rfl := Option.some.inj h
          exact .give _
        · rename_i files hrm
          obtain rfl := Option.some.inj h
          exact .rmtree hrm
  | deleting removed id plan =>
    obtain rfl := Option.some.inj h
    exact .delete
  | closing result =>
    obtain rfl := Option.some.inj h
    exact .close
  | returned result => cases h

theorem step_cases (h : step sha256 s (p, now) = some t) :
    (∃ call phase, s.procs p = .publish call phase ∧ Publishes sha256 s p now call phase t) ∨
    (∃ call phase, s.procs p = .point call phase ∧ Points s p now call phase t) ∨
    ∃ call phase, s.procs p = .purge call phase ∧ Purges s p call phase t := by
  unfold step at h
  dsimp only at h
  split at h
  · cases h
  · rename_i call phase hp
    exact Or.inl ⟨call, phase, hp, publishes_of_publishStep h⟩
  · rename_i call phase hp
    exact Or.inr (Or.inl ⟨call, phase, hp, points_of_pointStep h⟩)
  · rename_i call phase hp
    exact Or.inr (Or.inr ⟨call, phase, hp, purges_of_purgeStep h⟩)

@[simp] theorem procs_become_self (s : System ι) (p : ι) (proc : Proc) :
    (s.become p proc).procs p = proc := by
  unfold become
  exact Function.update_self _ _ _

theorem procs_become_of_ne {q : ι} (s : System ι) (proc : Proc) (h : q ≠ p) :
    (s.become p proc).procs q = s.procs q := by
  unfold become
  exact Function.update_of_ne h _ _

theorem procs_step {q : ι} (h : step sha256 s (p, now) = some t) (hq : q ≠ p) :
    t.procs q = s.procs q := by
  rcases step_cases h with ⟨_, _, _, h⟩ | ⟨_, _, _, h⟩ | ⟨_, _, _, h⟩ <;> cases h <;>
    exact procs_become_of_ne _ _ hq

end

end System
end EdgarSec.Dag
