import EdgarSec.Dag.Interleaving
import EdgarSec.Foundation.Sha256

/-! Compare-and-swap publication. Publishers exclude each other, so the tip one of them
read can only be moved before its commit by a call that takes no lock. -/

namespace EdgarSec.Dag
open Foundation Lib

/-! ## Who moves a tip -/

section Tip
variable {cat cat' : Catalog}

theorem tipId_writePointer (cat : Catalog) (b id now b' : String) :
    (cat.writePointer b id now).tipId b' = if b' = b then some id else cat.tipId b' := by
  unfold Catalog.tipId Catalog.writePointer
  rw [Dict.get?_set]
  split <;> rfl

theorem tipId_insertManifest {sha256 : Bytes → String} {m : DAGNodeManifest}
    (h : cat.insertManifest sha256 m = .ok cat') (b : String) : cat'.tipId b = cat.tipId b := by
  rcases Catalog.insertManifest_cases h with ⟨rfl, _⟩ | ⟨_, _, _, rfl⟩ <;> rfl

end Tip

theorem Repository.tipId_commit {repo repo' : Repository} {sha256 : Bytes → String}
    {m : DAGNodeManifest} {b now : String} (h : repo.commit sha256 m b now = .ok repo') (b' : String) :
    repo'.catalog.tipId b' = if b' = b then some m.snapshotId else repo.catalog.tipId b' := by
  obtain ⟨cat, hcat, rfl⟩ := map_eq_ok.mp h
  obtain ⟨cat₁, hins, rfl⟩ := Catalog.publishNode_cases hcat
  rw [tipId_writePointer, tipId_insertManifest hins]

theorem Repository.catalog_moveStaged {repo repo' : Repository} {id : String} {staged : Option Path}
    {place : Option Path} (h : repo.moveStaged id staged = .ok (repo', place)) :
    repo'.catalog = repo.catalog ∧ repo'.root = repo.root := by
  unfold moveStaged at h
  split at h
  · obtain ⟨rfl, _⟩ := Prod.mk.inj (Except.ok.inj h)
    exact ⟨rfl, rfl⟩
  · split at h
    · split at h
      · obtain ⟨rfl, _⟩ := Prod.mk.inj (Except.ok.inj h)
        exact ⟨rfl, rfl⟩
      · cases h
    · obtain ⟨rfl, _⟩ := Prod.mk.inj (Except.ok.inj h)
      exact ⟨rfl, rfl⟩

theorem Repository.checkTip_eq_ok {repo : Repository} {b : String} {expected : Option String} :
    repo.checkTip b expected = .ok () ↔ repo.catalog.tipId b = expected := by
  unfold checkTip
  by_cases h : repo.catalog.tipId b = expected <;> simp [h]

/-! ## The lock and the tip that was read -/

def PublishPhase.inside : PublishPhase → Bool
  | .locked | .checked | .moved _ | .closing _ _ => true
  | .called | .returned _ _ => false

def PublishPhase.pending : PublishPhase → Bool
  | .checked | .moved _ => true
  | _ => false

namespace System
variable {ι : Type} [DecidableEq ι] {sha256 : Bytes → String} {s t : System ι} {p q : ι} {now : String}

def Sound (s : System ι) (p : ι) : Proc → Prop
  | .publish call phase => (phase.inside = true → s.lock .catalogFile = some p) ∧
      (phase.pending = true → s.repo.catalog.tipId call.branch = call.expected)
  | _ => True

def Exclusive (s : System ι) : Prop := ∀ p, s.Sound p (s.procs p)

omit [DecidableEq ι] in
theorem Exclusive.sound (hs : Exclusive s) {call : PublishCall} {phase : PublishPhase}
    (hp : s.procs p = .publish call phase) : s.Sound p (.publish call phase) := hp ▸ hs p

/-- The step does not write the pointer of a branch a publisher has read and not yet
moved, unless it writes what that publisher expects. -/
def Undisturbed (s : System ι) (e : ι × String) : Prop :=
  ∀ pc, s.procs e.1 = .point pc .checked → ∀ q call phase, s.procs q = .publish call phase →
    phase.pending = true → call.branch = pc.branch → call.expected = some pc.target

theorem inside_of_pending {phase : PublishPhase} (h : phase.pending = true) : phase.inside = true := by
  cases phase with
  | checked => rfl
  | moved place => rfl
  | _ => cases h

theorem Exclusive.lock_step (hs : Exclusive s) (h : step sha256 s (p, now) = some t) (hq : q ≠ p)
    (hlock : s.lock .catalogFile = some q) : t.lock .catalogFile = some q := by
  rcases step_cases h with ⟨call, phase, hp, h⟩ | ⟨call, phase, hp, h⟩ | ⟨call, phase, hp, h⟩
  · cases h with
    | acquire hfree =>
      rw [hfree] at hlock
      cases hlock
    | close =>
      have hown : s.lock .catalogFile = some p := (hs.sound hp).1 rfl
      rw [hown] at hlock
      exact absurd (Option.some.inj hlock).symm hq
    | _ => exact hlock
  · cases h <;> exact hlock
  · cases h with
    | acquire hfree =>
      show Function.update s.lock .publicationLock (some p) .catalogFile = some q
      rw [Function.update_of_ne (by decide), hlock]
    | close =>
      show Function.update s.lock .publicationLock none .catalogFile = some q
      rw [Function.update_of_ne (by decide), hlock]
    | _ => exact hlock

theorem Exclusive.tip_step (hs : Exclusive s) (h : step sha256 s (p, now) = some t)
    (hquiet : Undisturbed s (p, now)) (hq : q ≠ p) {call : PublishCall} {phase : PublishPhase}
    (hproc : s.procs q = .publish call phase) (hpending : phase.pending = true) :
    t.repo.catalog.tipId call.branch = call.expected := by
  have htip := (hs.sound hproc).2 hpending
  have hlock := (hs.sound hproc).1 (inside_of_pending hpending)
  rcases step_cases h with ⟨call', phase', hp, h⟩ | ⟨pc, phase', hp, h⟩ | ⟨pc, phase', hp, h⟩
  · cases h with
    | @move repo place hmove =>
      show repo.catalog.tipId call.branch = call.expected
      rw [(Repository.catalog_moveStaged hmove).1, htip]
    | commit hcommit =>
      -- only one process is inside the lock
      have hown : s.lock .catalogFile = some p := (hs.sound hp).1 rfl
      rw [hown] at hlock
      exact absurd (Option.some.inj hlock).symm hq
    | _ => exact htip
  · cases h with
    | write =>
      show (s.repo.catalog.writePointer pc.branch pc.target now).tipId call.branch = call.expected
      rw [tipId_writePointer]
      split
      · rename_i hb
        exact (hquiet pc hp q call phase hproc hpending hb).symm
      · exact htip
    | _ => exact htip
  · cases h <;> exact htip

theorem Exclusive.own_step (hs : Exclusive s) (h : step sha256 s (p, now) = some t) :
    t.Sound p (t.procs p) := by
  rcases step_cases h with ⟨call, phase, hp, h⟩ | ⟨call, phase, hp, h⟩ | ⟨call, phase, hp, h⟩
  · have hsound := hs.sound hp
    cases h with
    | acquire hfree =>
      rw [procs_become_self]
      refine ⟨fun _ => ?_, fun h => (by cases h)⟩
      show Function.update s.lock .catalogFile (some p) .catalogFile = some p
      exact Function.update_self _ _ _
    | check htip =>
      rw [procs_become_self]
      exact ⟨fun _ => hsound.1 rfl, fun _ => Repository.checkTip_eq_ok.mp htip⟩
    | @move repo place hmove =>
      rw [procs_become_self]
      refine ⟨fun _ => hsound.1 rfl, fun _ => ?_⟩
      show repo.catalog.tipId call.branch = call.expected
      rw [(Repository.catalog_moveStaged hmove).1]
      exact hsound.2 rfl
    | refuse e | close =>
      rw [procs_become_self]
      exact ⟨fun h => (by cases h), fun h => (by cases h)⟩
    | _ =>
      rw [procs_become_self]
      exact ⟨fun _ => hsound.1 rfl, fun h => (by cases h)⟩
  · cases h <;> rw [procs_become_self] <;> trivial
  · cases h <;> rw [procs_become_self] <;> trivial

theorem Exclusive.step (hs : Exclusive s) {e : ι × String} (hquiet : Undisturbed s e)
    (h : step sha256 s e = some t) : Exclusive t := by
  obtain ⟨p, now⟩ := e
  intro q
  by_cases hq : q = p
  · subst hq
    exact hs.own_step h
  · rw [procs_step h hq]
    cases hproc : s.procs q with
    | publish call phase =>
      exact ⟨fun hinside => hs.lock_step h hq ((hs.sound hproc).1 hinside),
        fun hpending => hs.tip_step h hquiet hq hproc hpending⟩
    | _ => trivial

/-! ## Runs -/

/-- Every publisher is about to start. -/
def Fresh (s : System ι) : Prop := ∀ p call phase, s.procs p = .publish call phase → phase = .called

omit [DecidableEq ι] in
theorem Fresh.exclusive (hs : Fresh s) : Exclusive s := by
  intro p
  cases hproc : s.procs p with
  | publish call phase =>
    obtain rfl := hs p call phase hproc
    exact ⟨fun h => (by cases h), fun h => (by cases h)⟩
  | _ => trivial

/-- The commit of a call in a run, with the state `u` it was taken in. -/
def CommitsFrom (sha256 : Bytes → String) (s : System ι) (es : List (ι × String)) (p : ι)
    (call : PublishCall) (place : Option Path) (u : System ι) : Prop :=
  ∃ es₁ now es₂ repo, es = es₁ ++ (p, now) :: es₂ ∧ run (step sha256) s es₁ = some u ∧
    u.procs p = .publish call (.moved place) ∧
    u.repo.commit sha256 call.manifest call.branch now = .ok repo

theorem CommitsFrom.concat {es : List (ι × String)} {call : PublishCall} {place : Option Path}
    {u : System ι} (h : CommitsFrom sha256 s es p call place u) (e : ι × String) :
    CommitsFrom sha256 s (es ++ [e]) p call place u := by
  obtain ⟨es₁, now, es₂, repo, rfl, hu, hmoved, hcommit⟩ := h
  exact ⟨es₁, now, es₂ ++ [e], repo, by simp, hu, hmoved, hcommit⟩

theorem exists_commit (hs : Fresh s) {es : List (ι × String)} (hrun : run (step sha256) s es = some t)
    {call : PublishCall} {place : Option Path} {dir : Path}
    (hdone : t.procs p = .publish call (.closing place (.ok dir)) ∨
      t.procs p = .publish call (.returned place (.ok dir))) :
    ∃ u, CommitsFrom sha256 s es p call place u := by
  induction es using List.reverseRecOn generalizing t with
  | nil =>
    obtain rfl := Option.some.inj hrun
    rcases hdone with hdone | hdone <;> cases hs p call _ hdone
  | append_singleton es e ih =>
    obtain ⟨u, hu, hstep⟩ := run_concat.mp hrun
    obtain ⟨q, now⟩ := e
    by_cases hq : p = q
    · subst hq
      rcases step_cases hstep with ⟨call', phase, hp, h⟩ | ⟨_, _, hp, h⟩ | ⟨_, _, hp, h⟩
      · cases h <;> rw [procs_become_self] at hdone <;> simp at hdone
        case commit repo place hcommit =>
          obtain ⟨rfl, rfl, _⟩ := hdone
          exact ⟨u, es, now, [], repo, rfl, hu, hp, hcommit⟩
        case close place result =>
          obtain ⟨rfl, rfl, rfl⟩ := hdone
          obtain ⟨v, hv⟩ := ih hu (Or.inl hp)
          exact ⟨v, hv.concat _⟩
      · cases h <;> rw [procs_become_self] at hdone <;> simp at hdone
      · cases h <;> rw [procs_become_self] at hdone <;> simp at hdone
    · rw [procs_step hstep hq] at hdone
      obtain ⟨v, hv⟩ := ih hu hdone
      exact ⟨v, hv.concat _⟩

/-- In a run that never writes the pointer of a branch between a publisher's tip read and
its commit (unless it writes what that publisher expects), a publisher that returns
normally has moved its branch away from exactly the tip it expected. -/
theorem publishNode_compareAndSwap (hs : Fresh s) {es : List (ι × String)}
    (hrun : run (step sha256) s es = some t) (hquiet : Meets (step sha256) Undisturbed s es)
    {call : PublishCall} {place : Option Path} {dir : Path}
    (hdone : t.procs p = .publish call (.returned place (.ok dir))) :
    ∃ u, CommitsFrom sha256 s es p call place u ∧
      u.repo.catalog.tipId call.branch = call.expected := by
  obtain ⟨u, hcommit⟩ := exists_commit hs hrun (Or.inr hdone)
  refine ⟨u, hcommit, ?_⟩
  obtain ⟨es₁, now, es₂, repo, rfl, hu, hmoved, _⟩ := hcommit
  have hexclusive : Exclusive u := run_invariant (fun _ _ _ hs hg h => Exclusive.step hs hg h)
    hs.exclusive hquiet.left hu
  exact (hexclusive.sound hmoved).2 rfl

def IsPublisher (s : System ι) (p : ι) : Prop := ∃ call phase, s.procs p = .publish call phase

theorem IsPublisher.step {e : ι × String} (hq : IsPublisher s q) (h : step sha256 s e = some t) :
    IsPublisher t q := by
  obtain ⟨p, now⟩ := e
  obtain ⟨call, phase, hproc⟩ := hq
  by_cases heq : q = p
  · subst heq
    rcases step_cases h with ⟨_, _, _, h⟩ | ⟨_, _, hp, _⟩ | ⟨_, _, hp, _⟩
    · cases h <;> exact ⟨_, _, procs_become_self _ _ _⟩
    · rw [hproc] at hp
      cases hp
    · rw [hproc] at hp
      cases hp
  · exact ⟨call, phase, (procs_step h heq).trans hproc⟩

theorem meets_of_publishers {es : List (ι × String)} (h : ∀ e ∈ es, IsPublisher s e.1) :
    Meets (step sha256) Undisturbed s es := by
  have hstep : ∀ (s : System ι) a t, a ∈ es → (∀ e ∈ es, IsPublisher s e.1) →
      step sha256 s a = some t → ∀ e ∈ es, IsPublisher t e.1 :=
    fun s a t _ hs ht e he => (hs e he).step ht
  refine meets_of_invariant hstep (fun s a ha hs pc hpc => ?_) h
  obtain ⟨call, phase, hp⟩ := hs a ha
  rw [hp] at hpc
  cases hpc

/-! ## A publisher and a checkout -/

def bareNode (id : String) (kind : NodeKind) (parents : List String) : DAGNodeManifest where
  snapshotId := id
  kind := kind
  parents := parents.map fun p => ⟨p, ""⟩
  checkpointAnchorId := ""
  lineageDepth := parents.length
  createdAt := id
  relations := .empty
  logicalFingerprint := ""

def twoCheckpoints : Except DagError Catalog :=
  (Catalog.empty.recordNodes sha256Hex [bareNode "c0" .checkpoint [], bareNode "c1" .checkpoint []]).map
    fun cat => cat.writePointer "main" "c0" "t0"

def deltaCall : PublishCall where
  manifest := bareNode "d1" .delta ["c0"]
  staged := none
  expected := some "c0"
  branchName := none
  blocking := true

/-- A publisher of a delta on `c0`, and a checkout of `c1` on the same branch. -/
def publisherAndCheckout : System Bool where
  repo := ⟨["r"], (FileSystem.empty.mkdirs ["r"]).getD .empty, twoCheckpoints.toOption.getD .empty⟩
  lock := fun _ => none
  procs := fun p => if p then .point (.checkoutTip "c1" none) .called else .publish deltaCall .called

theorem fresh_publisherAndCheckout : Fresh publisherAndCheckout := by
  intro p call phase h
  cases p <;> cases h
  rfl

theorem publishNode_compareAndSwap_alone : ∃ u : System Bool,
    CommitsFrom sha256Hex publisherAndCheckout
      [(false, "t1"), (false, "t2"), (false, "t3"), (false, "t4"), (false, "t5")] false deltaCall none u ∧
    u.repo.catalog.tipId deltaCall.branch = deltaCall.expected := by
  have hquiet : Meets (step sha256Hex) Undisturbed publisherAndCheckout
      [(false, "t1"), (false, "t2"), (false, "t3"), (false, "t4"), (false, "t5")] := by
    refine meets_of_publishers fun e he => ⟨deltaCall, .called, ?_⟩
    simp only [List.mem_cons, List.not_mem_nil, or_false] at he
    rcases he with rfl | rfl | rfl | rfl | rfl <;> rfl
  obtain ⟨t, ht, hdone⟩ : ∃ t, run (step sha256Hex) publisherAndCheckout
      [(false, "t1"), (false, "t2"), (false, "t3"), (false, "t4"), (false, "t5")] = some t ∧
      t.procs false = .publish deltaCall (.returned none (.ok ["r", "d1"])) := ⟨_, rfl, rfl⟩
  exact publishNode_compareAndSwap fresh_publisherAndCheckout ht hquiet hdone

/-- The checkout moves `main` to `c1` between the tip read and the commit, and the commit
takes it away without noticing. -/
theorem publishNode_overwrites_checkout : ∃ t u : System Bool,
    Fresh publisherAndCheckout ∧
    run (step sha256Hex) publisherAndCheckout [(false, "t1"), (false, "t2"), (true, "t3"), (true, "t4"),
      (false, "t5"), (false, "t6"), (false, "t7")] = some t ∧
    t.procs false = .publish deltaCall (.returned none (.ok ["r", "d1"])) ∧
    CommitsFrom sha256Hex publisherAndCheckout [(false, "t1"), (false, "t2"), (true, "t3"),
      (true, "t4"), (false, "t5"), (false, "t6"), (false, "t7")] false deltaCall none u ∧
    u.repo.catalog.tipId deltaCall.branch ≠ deltaCall.expected := by
  refine ⟨_, _, fresh_publisherAndCheckout, rfl, rfl, ⟨[(false, "t1"), (false, "t2"), (true, "t3"),
    (true, "t4"), (false, "t5")], "t6", [(false, "t7")], _, rfl, rfl, rfl, rfl⟩, ?_⟩
  decide +kernel

end System
end EdgarSec.Dag
