import EdgarSec.FilingCatalog.PlanBundles
import EdgarSec.Foundation.Sha256
import EdgarSec.Lib.Transition

/-! Publishers of one plan id: each stages its bundle in the sibling directory that the id
names, and moves it to the plan's final directory. -/

namespace EdgarSec.FilingCatalog
open Foundation Lib Bundle

/-- How far a publisher is. A recursive removal works on the directory it has opened,
wherever that lies by now. -/
inductive PublisherPhase where
  | idle
  | clearing (opened : Nat)
  | making
  | body (rest : List BodyOp) (described : List TargetPart)
  | checking
  | moving
  | unwinding (opened : Option Nat)
  | returned
  | raised
  | dead
  deriving DecidableEq

def PublisherPhase.inFlight : PublisherPhase → Bool
  | .idle | .returned | .raised | .dead => false
  | _ => true

inductive BundleEntry where
  | planJson
  | selectionReport
  | locatorGroups
  | seedFilers
  | reserveTargets
  | part (directory : String)
  | targets
  deriving DecidableEq

def Bundle.remove (b : Bundle) : BundleEntry → Bundle
  | .planJson => { b with planJson := none }
  | .selectionReport => { b with selectionReport := false }
  | .locatorGroups => { b with locatorGroups := false }
  | .seedFilers => { b with seedFilers := false }
  | .reserveTargets => { b with reserveTargets := false }
  | .part directory => { b with targets := b.targets.map fun parts => parts.erase directory }
  | .targets => { b with targets := b.targets.filter fun parts => parts.keys ≠ [] }

/-- The directories of one plan id: what each directory holds, and which of them stand at the
staging path and at the final one. -/
structure PlanDirectories (ι : Type) where
  dirs : Nat → Bundle
  next : Nat
  staging : Option Nat
  final : Option Nat
  phase : ι → PublisherPhase

inductive PublishAction (ι : Type) where
  | advance (p : ι)
  | unlink (p : ι) (entry : BundleEntry)
  | raise (p : ι)
  | kill (p : ι)

namespace PlanDirectories
section
variable {ι : Type} (sha256 : Bytes → String) (scope : PlanScope) (bodies : ι → PlanBody)

def become [DecidableEq ι] (s : PlanDirectories ι) (p : ι) (phase : PublisherPhase) : PlanDirectories ι :=
  { s with phase := Function.update s.phase p phase }

def setDir (s : PlanDirectories ι) (d : Nat) (b : Bundle) : PlanDirectories ι :=
  { s with dirs := Function.update s.dirs d b }

/-- `staging_dir.mkdir(parents=True, exist_ok=True)`, and what a write does for its path. -/
def makeStaging (s : PlanDirectories ι) : PlanDirectories ι × Nat :=
  match s.staging with
  | some d => (s, d)
  | none => ({ s with dirs := Function.update s.dirs s.next fresh, next := s.next + 1, staging := some s.next }, s.next)

def removePath (s : PlanDirectories ι) : Option (PlanDirectories ι) :=
  match s.staging with
  | some d => if s.dirs d = fresh then some { s with staging := none } else none
  | none => none

def runBody [DecidableEq ι] (s : PlanDirectories ι) (p : ι) (op : BodyOp) (rest : List BodyOp) (described : List TargetPart) :
    PlanDirectories ι :=
  match s.staging, op.writes with
  | none, false => s.become p (.unwinding none)
  | _, _ =>
    let (s, d) := s.makeStaging
    match applyOp sha256 op (s.dirs d) described with
    | some (b, described) => (s.setDir d b).become p (.body rest described)
    | none => s.become p (.unwinding (some d))

/-- `os.replace`: an empty directory at the destination gives way. -/
def move [DecidableEq ι] (s : PlanDirectories ι) (p : ι) : PlanDirectories ι :=
  match s.staging with
  | none => s.become p .raised
  | some d =>
    if s.final.all fun f => decide (s.dirs f = fresh) then
      { s with staging := none, final := some d }.become p .returned
    else s.become p .raised

def advance [DecidableEq ι] (s : PlanDirectories ι) (p : ι) : Option (PlanDirectories ι) :=
  match s.phase p with
  | .idle =>
    match s.staging with
    | some d => some (s.become p (.clearing d))
    | none => some (s.become p .making)
  | .clearing d =>
    if s.dirs d ≠ fresh then none
    else
      match s.removePath with
      | some s => some (s.become p .making)
      | none => some (s.become p .raised)
  | .making => some (s.makeStaging.1.become p (.body ((bodies p).ops scope) []))
  | .body (op :: rest) described => some (s.runBody sha256 p op rest described)
  | .body [] _ => some (s.become p .checking)
  | .checking => some (s.become p (if s.final.isSome then .unwinding s.staging else .moving))
  | .moving => some (s.move p)
  | .unwinding opened =>
    if opened.any fun d => decide (s.dirs d ≠ fresh) then none
    else some ((s.removePath.getD s).become p .raised)
  | .returned | .raised | .dead => none

def step [DecidableEq ι] (s : PlanDirectories ι) : PublishAction ι → Option (PlanDirectories ι)
  | .advance p => s.advance sha256 scope bodies p
  | .unlink p entry =>
    match s.phase p with
    | .clearing d | .unwinding (some d) => some (s.setDir d ((s.dirs d).remove entry))
    | _ => none
  | .raise p =>
    match s.phase p with
    | .body _ _ => some (s.become p (.unwinding s.staging))
    | .clearing _ | .making | .moving | .unwinding _ => some (s.become p .raised)
    | _ => none
  | .kill p => if (s.phase p).inFlight then some (s.become p .dead) else none

def EntersAlone (s : PlanDirectories ι) : PublishAction ι → Prop
  | .advance p => s.phase p = .idle → ∀ q, (s.phase q).inFlight = false
  | _ => True

instance [Fintype ι] (s : PlanDirectories ι) (a : PublishAction ι) : Decidable (s.EntersAlone a) := by
  cases a <;> unfold EntersAlone <;> infer_instance

structure AtRest (s : PlanDirectories ι) : Prop where
  idle : ∀ p, s.phase p = .idle
  final : ∀ d, s.final = some d → planBundleComplete sha256 scope (s.dirs d) = true
  apart : ∀ d, s.staging = some d → s.final ≠ some d
  bound : ∀ d, s.staging = some d ∨ s.final = some d → d < s.next

def Local (s : PlanDirectories ι) (p : ι) : PublisherPhase → Prop
  | .clearing d => s.staging = some d
  | .making => s.staging = none
  | .body rest described => ∃ d done, s.staging = some d ∧ (bodies p).ops scope = done ++ rest ∧
      runOps sha256 done fresh [] = some (s.dirs d, described)
  | .checking => ∃ d, s.staging = some d ∧ planBundleComplete sha256 scope (s.dirs d) = true
  | .moving => s.final = none ∧
      ∃ d, s.staging = some d ∧ planBundleComplete sha256 scope (s.dirs d) = true
  | .unwinding opened => ∀ d, opened = some d → s.final ≠ some d
  | .returned => s.final.isSome = true
  | _ => True

structure Safe (s : PlanDirectories ι) : Prop where
  final : ∀ d, s.final = some d → planBundleComplete sha256 scope (s.dirs d) = true
  apart : ∀ d, s.staging = some d → s.final ≠ some d
  bound : ∀ d, s.staging = some d ∨ s.final = some d → d < s.next
  alone : ∀ p q, (s.phase p).inFlight = true → (s.phase q).inFlight = true → p = q
  here : ∀ p, s.Local sha256 scope bodies p (s.phase p)

variable {sha256} {scope} {bodies} {s t : PlanDirectories ι} {p : ι} {phase : PublisherPhase}

theorem safe_of_atRest (h : s.AtRest sha256 scope) : s.Safe sha256 scope bodies where
  final := h.final
  apart := h.apart
  bound := h.bound
  alone p q hp _ := by
    rw [h.idle p] at hp
    cases hp
  here p := by
    rw [h.idle p]
    trivial

theorem Safe.become [DecidableEq ι] (h : s.Safe sha256 scope bodies) (hothers : ∀ q, q ≠ p → (s.phase q).inFlight = false)
    (hphase : t.phase = Function.update s.phase p phase) (hkept : s.final.isSome = true → t.final.isSome = true)
    (hfinal : ∀ d, t.final = some d → planBundleComplete sha256 scope (t.dirs d) = true)
    (hapart : ∀ d, t.staging = some d → t.final ≠ some d)
    (hbound : ∀ d, t.staging = some d ∨ t.final = some d → d < t.next)
    (hhere : t.Local sha256 scope bodies p phase) : t.Safe sha256 scope bodies := by
  have hquiet : ∀ q, q ≠ p → t.phase q = s.phase q := by
    intro q hq
    rw [hphase]
    exact Function.update_of_ne hq _ _
  have halone : ∀ q, (t.phase q).inFlight = true → q = p := by
    intro q hq
    by_contra hne
    rw [hquiet q hne, hothers q hne] at hq
    cases hq
  refine ⟨hfinal, hapart, hbound, fun q r hq hr => (halone q hq).trans (halone r hr).symm, ?_⟩
  intro q
  by_cases hq : q = p
  · subst hq
    rw [hphase, Function.update_self]
    exact hhere
  · have hlocal := h.here q
    have hflight := hothers q hq
    rw [hquiet q hq]
    cases hphaseq : s.phase q with
    | returned =>
      rw [hphaseq] at hlocal
      exact hkept hlocal
    | idle => trivial
    | raised => trivial
    | dead => trivial
    | _ => simp [hphaseq, PublisherPhase.inFlight] at hflight

theorem Safe.turn [DecidableEq ι] (h : s.Safe sha256 scope bodies) (hothers : ∀ q, q ≠ p → (s.phase q).inFlight = false)
    (hhere : s.Local sha256 scope bodies p phase) : (s.become p phase).Safe sha256 scope bodies := by
  apply Safe.become (t := s.become p phase) h hothers rfl id h.final h.apart h.bound
  cases phase <;> exact hhere

theorem Safe.others (h : s.Safe sha256 scope bodies) (hp : (s.phase p).inFlight = true) :
    ∀ q, q ≠ p → (s.phase q).inFlight = false := by
  intro q hq
  cases hflight : (s.phase q).inFlight with
  | false => rfl
  | true => exact absurd (h.alone q p hflight hp) hq

theorem Safe.setDir [DecidableEq ι] (h : s.Safe sha256 scope bodies) (hothers : ∀ q, q ≠ p → (s.phase q).inFlight = false)
    {d : Nat} {b : Bundle} (hd : s.final ≠ some d)
    (hhere : (s.setDir d b).Local sha256 scope bodies p phase) :
    ((s.setDir d b).become p phase).Safe sha256 scope bodies := by
  apply Safe.become (t := (s.setDir d b).become p phase) h hothers rfl id _ h.apart h.bound
  · cases phase <;> exact hhere
  · intro f hf
    have hne : f ≠ d := fun heq => hd (heq ▸ hf)
    show planBundleComplete sha256 scope (Function.update s.dirs d b f) = true
    rw [Function.update_of_ne hne]
    exact h.final f hf

theorem Safe.vacate [DecidableEq ι] (h : s.Safe sha256 scope bodies) (hothers : ∀ q, q ≠ p → (s.phase q).inFlight = false)
    (hhere : PlanDirectories.Local sha256 scope bodies { s with staging := none } p phase) :
    (PlanDirectories.become { s with staging := none } p phase).Safe sha256 scope bodies := by
  apply Safe.become (t := PlanDirectories.become { s with staging := none } p phase) h hothers rfl id h.final _ _
  · cases phase <;> exact hhere
  · intro d hd
    cases hd
  · intro d hd
    exact h.bound d (.inr (hd.resolve_left (by simp [PlanDirectories.become])))

theorem removePath_eq_some (h : s.removePath = some t) :
    t = { s with staging := none } ∧ ∃ d, s.staging = some d ∧ s.dirs d = fresh := by
  unfold removePath at h
  cases hstaging : s.staging with
  | none => simp [hstaging] at h
  | some d =>
    simp only [hstaging, Option.ite_none_right_eq_some, Option.some.injEq] at h
    exact ⟨h.2.symm, d, rfl, h.1⟩

variable [DecidableEq ι]

theorem Safe.makeStaging (h : s.Safe sha256 scope bodies)
    (hothers : ∀ q, q ≠ p → (s.phase q).inFlight = false) (hfree : s.staging = none)
    (hhere : s.makeStaging.1.Local sha256 scope bodies p phase) :
    (s.makeStaging.1.become p phase).Safe sha256 scope bodies := by
  have hmade : s.makeStaging.1 =
      { s with dirs := Function.update s.dirs s.next fresh, next := s.next + 1, staging := some s.next } := by
    unfold PlanDirectories.makeStaging
    rw [hfree]
  rw [hmade] at hhere ⊢
  have hnew : ∀ f, s.final = some f → f ≠ s.next := fun f hf => (h.bound f (.inr hf)).ne
  refine Safe.become h hothers rfl id ?_ ?_ ?_ (by cases phase <;> exact hhere)
  · intro f hf
    show planBundleComplete sha256 scope (Function.update s.dirs s.next fresh f) = true
    rw [Function.update_of_ne (hnew f hf)]
    exact h.final f hf
  · intro d hd hf
    obtain rfl := Option.some.inj hd
    exact hnew _ hf rfl
  · intro d hd
    show d < s.next + 1
    rcases hd with hd | hd
    · obtain rfl := Option.some.inj hd
      exact Nat.lt_succ_self _
    · exact Nat.lt_succ_of_lt (h.bound d (.inr hd))

theorem Safe.runBody (h : s.Safe sha256 scope bodies) {op : BodyOp} {rest : List BodyOp}
    {described : List TargetPart} (hphase : s.phase p = .body (op :: rest) described) :
    (s.runBody sha256 p op rest described).Safe sha256 scope bodies := by
  have hothers := h.others (p := p) (by rw [hphase]; rfl)
  have hlocal := h.here p
  rw [hphase] at hlocal
  obtain ⟨d, done, hstaging, hops, hrun⟩ := hlocal
  have hapart := h.apart d hstaging
  have hrunBody : s.runBody sha256 p op rest described =
      match applyOp sha256 op (s.dirs d) described with
      | some (b, described) => (s.setDir d b).become p (.body rest described)
      | none => s.become p (.unwinding (some d)) := by
    unfold PlanDirectories.runBody PlanDirectories.makeStaging
    rw [hstaging]
  rw [hrunBody]
  cases happly : applyOp sha256 op (s.dirs d) described with
  | none =>
    apply h.turn hothers
    intro e he
    obtain rfl := Option.some.inj he
    exact hapart
  | some next =>
    obtain ⟨b, described'⟩ := next
    apply h.setDir hothers hapart
    refine ⟨d, done ++ [op], hstaging, by rw [hops, List.append_assoc]; rfl, ?_⟩
    rw [runOps_concat, hrun, Option.bind_some, happly]
    show some (b, described') = some (Function.update s.dirs d b d, described')
    rw [Function.update_self]

theorem Safe.move (h : s.Safe sha256 scope bodies) (hphase : s.phase p = .moving) :
    (s.move p).Safe sha256 scope bodies := by
  have hothers := h.others (p := p) (by rw [hphase]; rfl)
  have hlocal := h.here p
  rw [hphase] at hlocal
  obtain ⟨hfree, d, hstaging, hcomplete⟩ := hlocal
  have hmove : s.move p = PlanDirectories.become { s with staging := none, final := some d } p .returned := by
    unfold PlanDirectories.move
    rw [hstaging, hfree]
    rfl
  rw [hmove]
  refine Safe.become h hothers rfl (fun _ => rfl) ?_ ?_ ?_ rfl
  · intro f hf
    obtain rfl := Option.some.inj hf
    exact hcomplete
  · intro e he
    cases he
  · intro e he
    rcases he with he | he
    · cases he
    · obtain rfl := Option.some.inj he
      exact h.bound d (.inl hstaging)

theorem Safe.advance (hhex : ∀ bytes, isSha256HexDigest (sha256 bytes) = true) (h : s.Safe sha256 scope bodies)
    (hguard : s.phase p = .idle → ∀ q, (s.phase q).inFlight = false)
    (hstep : s.advance sha256 scope bodies p = some t) : t.Safe sha256 scope bodies := by
  have hlocal := h.here p
  have hflight : (s.phase p).inFlight = true → ∀ q, q ≠ p → (s.phase q).inFlight = false := h.others
  unfold PlanDirectories.advance at hstep
  cases hphase : s.phase p with
  | idle =>
    have hothers : ∀ q, q ≠ p → (s.phase q).inFlight = false := fun q _ => hguard hphase q
    rw [hphase] at hstep
    cases hstaging : s.staging with
    | none =>
      simp only [hstaging, Option.some.injEq] at hstep
      subst hstep
      exact h.turn hothers hstaging
    | some d =>
      simp only [hstaging, Option.some.injEq] at hstep
      subst hstep
      exact h.turn hothers hstaging
  | clearing d =>
    rw [hphase] at hstep hlocal hflight
    simp only [Option.ite_none_left_eq_some] at hstep
    obtain ⟨-, hstep⟩ := hstep
    cases hremove : s.removePath with
    | none =>
      simp only [hremove, Option.some.injEq] at hstep
      subst hstep
      exact h.turn (hflight rfl) trivial
    | some u =>
      simp only [hremove, Option.some.injEq] at hstep
      obtain ⟨rfl, -⟩ := removePath_eq_some hremove
      subst hstep
      exact h.vacate (hflight rfl) rfl
  | making =>
    rw [hphase] at hstep hlocal hflight
    simp only [Option.some.injEq] at hstep
    subst hstep
    apply h.makeStaging (hflight rfl) hlocal
    unfold PlanDirectories.makeStaging
    rw [show s.staging = none from hlocal]
    refine ⟨s.next, [], rfl, rfl, ?_⟩
    show some (fresh, []) = some (Function.update s.dirs s.next fresh s.next, [])
    rw [Function.update_self]
  | body rest described =>
    cases rest with
    | nil =>
      rw [hphase] at hstep hlocal hflight
      simp only [Option.some.injEq] at hstep
      subst hstep
      obtain ⟨d, done, hstaging, hops, hrun⟩ := hlocal
      rw [List.append_nil] at hops
      rw [← hops] at hrun
      exact h.turn (hflight rfl) ⟨d, hstaging, complete_of_runOps hhex hrun⟩
    | cons op rest =>
      rw [hphase] at hstep
      simp only [Option.some.injEq] at hstep
      subst hstep
      exact h.runBody hphase
  | checking =>
    rw [hphase] at hstep hlocal hflight
    simp only [Option.some.injEq] at hstep
    subst hstep
    obtain ⟨d, hstaging, hcomplete⟩ := hlocal
    apply h.turn (hflight rfl)
    cases hfinal : s.final with
    | none => exact ⟨hfinal, d, hstaging, hcomplete⟩
    | some f =>
      rw [hstaging]
      intro e he
      obtain rfl := Option.some.inj he
      exact h.apart d hstaging
  | moving =>
    rw [hphase] at hstep
    simp only [Option.some.injEq] at hstep
    subst hstep
    exact h.move hphase
  | unwinding opened =>
    rw [hphase] at hstep hlocal hflight
    simp only [Option.ite_none_left_eq_some, Option.some.injEq] at hstep
    obtain ⟨-, rfl⟩ := hstep
    cases hremove : s.removePath with
    | none => exact h.turn (hflight rfl) trivial
    | some u =>
      obtain ⟨rfl, -⟩ := removePath_eq_some hremove
      exact h.vacate (hflight rfl) trivial
  | returned =>
    rw [hphase] at hstep
    cases hstep
  | raised =>
    rw [hphase] at hstep
    cases hstep
  | dead =>
    rw [hphase] at hstep
    cases hstep

theorem Safe.unlink (h : s.Safe sha256 scope bodies) {entry : BundleEntry}
    (hstep : s.step sha256 scope bodies (.unlink p entry) = some t) : t.Safe sha256 scope bodies := by
  have hlocal := h.here p
  have hflight : (s.phase p).inFlight = true → ∀ q, q ≠ p → (s.phase q).inFlight = false := h.others
  have hsame : ∀ d b, s.setDir d b = (s.setDir d b).become p (s.phase p) := by
    intro d b
    unfold PlanDirectories.become PlanDirectories.setDir
    rw [Function.update_eq_self]
  unfold PlanDirectories.step at hstep
  cases hphase : s.phase p with
  | clearing d =>
    simp only [hphase, Option.some.injEq] at hstep
    rw [hphase] at hlocal hflight
    rw [← hstep, hsame, hphase]
    exact h.setDir (hflight rfl) (h.apart d hlocal) hlocal
  | unwinding opened =>
    cases opened with
    | none => simp [hphase] at hstep
    | some d =>
      simp only [hphase, Option.some.injEq] at hstep
      rw [hphase] at hlocal hflight
      rw [← hstep, hsame, hphase]
      exact h.setDir (hflight rfl) (hlocal d rfl) hlocal
  | _ => simp [hphase] at hstep

theorem Safe.step (hhex : ∀ bytes, isSha256HexDigest (sha256 bytes) = true) (h : s.Safe sha256 scope bodies)
    {a : PublishAction ι} (hguard : s.EntersAlone a) (hstep : s.step sha256 scope bodies a = some t) :
    t.Safe sha256 scope bodies := by
  cases a with
  | advance p => exact h.advance hhex hguard hstep
  | unlink p entry => exact h.unlink hstep
  | raise p =>
    have hflight : (s.phase p).inFlight = true → ∀ q, q ≠ p → (s.phase q).inFlight = false := h.others
    have hlocal := h.here p
    unfold PlanDirectories.step at hstep
    cases hphase : s.phase p with
    | body rest described =>
      simp only [hphase, Option.some.injEq] at hstep
      rw [hphase] at hlocal hflight
      obtain ⟨d, done, hstaging, -⟩ := hlocal
      subst hstep
      apply h.turn (hflight rfl)
      intro e he
      exact h.apart e he
    | idle => simp [hphase] at hstep
    | checking => simp [hphase] at hstep
    | returned => simp [hphase] at hstep
    | raised => simp [hphase] at hstep
    | dead => simp [hphase] at hstep
    | _ =>
      simp only [hphase, Option.some.injEq] at hstep
      rw [hphase] at hflight
      subst hstep
      exact h.turn (hflight rfl) trivial
  | kill p =>
    simp only [PlanDirectories.step, Option.ite_none_right_eq_some, Option.some.injEq] at hstep
    obtain ⟨hflight, rfl⟩ := hstep
    exact h.turn (h.others hflight) trivial

/-- Over every schedule in which each publisher begins only when no other one is under way, the
final directory is complete whenever it is there, and it is there for a publisher that has
returned. -/
theorem run_publishes_complete {s₀ : PlanDirectories ι} {actions : List (PublishAction ι)}
    (hhex : ∀ bytes, isSha256HexDigest (sha256 bytes) = true) (hstart : s₀.AtRest sha256 scope)
    (hmeets : Meets (PlanDirectories.step sha256 scope bodies) EntersAlone s₀ actions)
    (hrun : run (PlanDirectories.step sha256 scope bodies) s₀ actions = some s) :
    (∀ d, s.final = some d → planBundleComplete sha256 scope (s.dirs d) = true) ∧
      ∀ p, s.phase p = .returned → s.final.isSome = true := by
  have hsafe : s.Safe sha256 scope bodies :=
    run_invariant (fun _ _ _ h hguard hs => h.step hhex hguard hs) (safe_of_atRest hstart) hmeets hrun
  refine ⟨hsafe.final, fun p hp => ?_⟩
  have hlocal := hsafe.here p
  rw [hp] at hlocal
  exact hlocal

end
end PlanDirectories

theorem isSha256HexDigest_sha256Hex (data : Bytes) : isSha256HexDigest (sha256Hex data) = true := by
  have hdigit : ∀ n < 16, hexDigit n ∈ "0123456789abcdef".toList := by decide
  have hlength : ∀ s : HashState, (s.words.flatMap hexWord).length = 64 := fun _ => rfl
  have hall : ∀ s : HashState, ∀ c ∈ s.words.flatMap hexWord, c ∈ "0123456789abcdef".toList := by
    intro s c hc
    obtain ⟨w, -, hc⟩ := List.mem_flatMap.mp hc
    obtain ⟨i, -, rfl⟩ := List.mem_map.mp hc
    exact hdigit _ (Nat.mod_lt _ (by decide))
  unfold isSha256HexDigest sha256Hex
  rw [String.toList_ofList, hlength, Bool.and_eq_true, List.all_eq_true]
  exact ⟨rfl, fun c hc => decide_eq_true (hall _ c hc)⟩

/-! ### Two publishers of a plan with one form -/

def onePart : Fin 2 → PlanBody := fun _ => ⟨[("10-K", [1, 2], 1)], false, by decide⟩

def noDirectories : PlanDirectories (Fin 2) := ⟨fun _ => Bundle.fresh, 0, none, none, fun _ => .idle⟩

theorem atRest_noDirectories : noDirectories.AtRest sha256Hex .deterministic where
  idle _ := rfl
  final d hd := by cases hd
  apart d hd := by cases hd
  bound d hd := by rcases hd with hd | hd <;> cases hd

def advances (p : Fin 2) (n : Nat) : List (PublishAction (Fin 2)) := List.replicate n (.advance p)

def oneByOne : List (PublishAction (Fin 2)) :=
  advances 0 12 ++ (advances 1 11 ++ [.unlink 1 .planJson, .unlink 1 .selectionReport, .unlink 1 .locatorGroups,
    .unlink 1 (.part "form=10-K"), .unlink 1 .targets, .advance 1])

theorem oneByOne_meets : Meets (PlanDirectories.step sha256Hex .deterministic onePart)
    PlanDirectories.EntersAlone noDirectories oneByOne := by
  decide +kernel

theorem oneByOne_end : (run (PlanDirectories.step sha256Hex .deterministic onePart) noDirectories oneByOne).map
    (fun s => (s.phase 0, s.phase 1, s.staging, s.final)) = some (.returned, .raised, none, some 0) := by
  decide +kernel

theorem run_publishes_complete_oneByOne :
    ∃ s, run (PlanDirectories.step sha256Hex .deterministic onePart) noDirectories oneByOne = some s ∧
      s.final = some 0 ∧
      (∀ d, s.final = some d → Bundle.planBundleComplete sha256Hex .deterministic (s.dirs d) = true) ∧
      ∀ p, s.phase p = .returned → s.final.isSome = true := by
  obtain ⟨s, hrun, hend⟩ := Option.map_eq_some_iff.mp oneByOne_end
  have hfinal : s.final = some 0 := congrArg (fun e => e.2.2.2) hend
  exact ⟨s, hrun, hfinal, PlanDirectories.run_publishes_complete isSha256HexDigest_sha256Hex
    atRest_noDirectories oneByOne_meets hrun⟩

/-- The second publisher clears and remakes the staging directory after the first has written and
checked everything; the first then moves what the second has begun. -/
def clearedBetween : List (PublishAction (Fin 2)) :=
  advances 0 11 ++ (.advance 1 :: ([.unlink 1 .planJson, .unlink 1 .selectionReport, .unlink 1 .locatorGroups,
    .unlink 1 (.part "form=10-K"), .unlink 1 .targets] ++ advances 1 3 ++ [.advance 0]))

/-- The first publisher returns, and the plan's final directory holds an empty `targets`. -/
theorem run_publishes_partial :
    (run (PlanDirectories.step sha256Hex .deterministic onePart) noDirectories clearedBetween).map
      (fun s => (s.phase 0, s.final.map fun d =>
        (s.dirs d, Bundle.planBundleComplete sha256Hex .deterministic (s.dirs d)))) =
      some (.returned, some ({ Bundle.fresh with targets := some .empty }, false)) := by
  decide +kernel

end EdgarSec.FilingCatalog
