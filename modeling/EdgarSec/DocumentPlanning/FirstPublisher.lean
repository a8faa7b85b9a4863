import EdgarSec.DocumentPlanning.PlanPublication

/-! The bundle that is renamed into place first stays, and a call returns exactly when its
manifest is that bundle's. -/

namespace EdgarSec.DocumentPlanning.PlanPublication
open Foundation Lib

/-! ## Members -/

theorem equalMembers_lookup {as bs : List (String × Json)} (h : equalMembers as bs = true) {key : String}
    {a : Json} (ha : (key, a) ∈ as) : ∃ b, bs.lookup key = some b ∧ equalJson a b = true := by
  induction as with
  | nil => cases ha
  | cons first as ih =>
    obtain ⟨key', a'⟩ := first
    rw [equalMembers, Bool.and_eq_true] at h
    rcases List.mem_cons.mp ha with hfirst | ha
    · obtain ⟨rfl, rfl⟩ := Prod.mk.inj hfirst
      cases hb : bs.lookup key with
      | none => simp [hb] at h
      | some b => exact ⟨b, rfl, by simpa [hb] using h.1⟩
    · exact ih h.2 ha

theorem memberOf_of_equal {j : Json} {bs : List (String × Json)} (h : equalJson j (.obj bs) = true)
    {key : String} {b : Json} (hb : bs.lookup key = some b) :
    ∃ a, memberOf j key = some a ∧ equalJson a b = true := by
  cases j with
  | obj as =>
    rw [equalJson, Bool.and_eq_true] at h
    have hin := List.all_eq_true.mp h.1 (key, b) (Dict.mem_of_lookup_eq_some hb)
    obtain ⟨a, ha⟩ := Option.isSome_iff_exists.mp hin
    obtain ⟨b', hb', heq⟩ := equalMembers_lookup h.2 (Dict.mem_of_lookup_eq_some ha)
    rw [hb] at hb'
    rw [← Option.some.inj hb'] at heq
    exact ⟨a, ha, heq⟩
  | null => simp [equalJson, numberOf] at h
  | bool b => simp [equalJson, numberOf] at h
  | int n => simp [equalJson, numberOf] at h
  | float r => simp [equalJson, numberOf] at h
  | str s => simp [equalJson, numberOf] at h
  | arr items => simp [equalJson, numberOf] at h

section Publishing
variable {φ : Type} (sha256 : Bytes → String)
  (validatePlanRoot : String → Json → φ → Except PlanError Unit) (planId : String)

structure Proper (call : PublishCall φ) : Prop where
  valid : ∃ manifest, validateStagedPlan validatePlanRoot planId (call.staged sha256) = .ok manifest
  identity : call.manifest.get? "plan_identity" = some call.identity

variable {sha256} {validatePlanRoot} {planId} {call : PublishCall φ} {plans plans' : Option (Bundle φ)}

theorem readManifest_congr {unreadable unreadable' : String} {b : Bundle φ} {manifest : Json}
    (h : readManifest validatePlanRoot planId unreadable b = .ok manifest) :
    readManifest validatePlanRoot planId unreadable' b = .ok manifest := by
  unfold readManifest at h ⊢
  cases hloads : loads b.planText with
  | none =>
    rw [hloads] at h
    cases h
  | some j =>
    rw [hloads] at h
    exact h

theorem Proper.readPublishedPlan (h : Proper sha256 validatePlanRoot planId call) :
    ∃ manifest, readPublishedPlan validatePlanRoot planId (some (call.staged sha256)) = .ok manifest := by
  obtain ⟨manifest, hvalid⟩ := h.valid
  exact ⟨manifest, readManifest_congr hvalid⟩

theorem Proper.identity_of_equal (h : Proper sha256 validatePlanRoot planId call) {existing : Json}
    (heq : equalJson existing (call.payloadJson sha256) = true) :
    (memberOf existing "plan_identity").any (equalJson · call.identity) = true := by
  have hlookup : (call.payload sha256).items.lookup "plan_identity" = some call.identity := by
    have hset : (call.payload sha256).get? "plan_identity" = call.manifest.get? "plan_identity" := by
      rw [PublishCall.payload, Dict.get?_set, if_neg (by decide)]
    exact hset.trans h.identity
  obtain ⟨a, ha, hequal⟩ := memberOf_of_equal heq hlookup
  rw [ha]
  exact hequal

theorem reuse_ok_iff (h : Proper sha256 validatePlanRoot planId call) {manifest : Json}
    (hread : readPublishedPlan validatePlanRoot planId plans = .ok manifest) :
    (∃ b, call.reuse sha256 validatePlanRoot planId plans = .ok b) ↔
      equalJson manifest (call.payloadJson sha256) = true := by
  simp only [PublishCall.reuse, hread]
  constructor
  · rintro ⟨b, hb⟩
    by_contra hne
    rw [Bool.not_eq_true] at hne
    split_ifs at hb with _ hequal
    simp [hne] at hequal
  · intro heq
    rw [h.identity_of_equal heq, heq]
    exact ⟨_, rfl⟩

theorem confirm_ok_iff {manifest : Json}
    (hread : readPublishedPlan validatePlanRoot planId plans = .ok manifest) :
    (∃ b, call.confirm sha256 validatePlanRoot planId plans = .ok b) ↔
      equalJson manifest (call.payloadJson sha256) = true := by
  simp only [PublishCall.confirm, hread]
  constructor
  · rintro ⟨b, hb⟩
    by_contra hne
    rw [Bool.not_eq_true] at hne
    simp [hne] at hb
  · intro heq
    rw [heq]
    exact ⟨_, rfl⟩

/-! ## One step -/

variable (sha256) (validatePlanRoot) (planId) in
def Tells (plans : Option (Bundle φ)) (call : PublishCall φ) : Phase → Prop
  | .called => True
  | .validated => True
  | .absent => True
  | .found => plans.isSome = true
  | .refused => plans.isSome = true
  | .moved => plans = some (call.staged sha256)
  | .returned result => ∃ manifest, readPublishedPlan validatePlanRoot planId plans = .ok manifest ∧
      ((∃ b, result = .ok b) ↔ equalJson manifest (call.payloadJson sha256) = true)

def Stays (plans plans' : Option (Bundle φ)) : Prop := ∀ b, plans = some b → plans' = some b

variable (validatePlanRoot) (planId) in
/-- What is there passes the reader. -/
def Readable (plans : Option (Bundle φ)) : Prop :=
  plans.isSome = true → ∃ manifest, readPublishedPlan validatePlanRoot planId plans = .ok manifest

theorem Tells.stays {phase : Phase} (h : Tells sha256 validatePlanRoot planId plans call phase)
    (hstays : Stays plans plans') : Tells sha256 validatePlanRoot planId plans' call phase := by
  have hsome : plans.isSome = true → plans' = plans := by
    intro hp
    obtain ⟨b, hb⟩ := Option.isSome_iff_exists.mp hp
    rw [hstays b hb, hb]
  cases phase with
  | called => trivial
  | validated => trivial
  | absent => trivial
  | found => exact (hsome h).symm ▸ h
  | refused => exact (hsome h).symm ▸ h
  | moved => exact hstays _ h
  | returned result =>
    obtain ⟨manifest, hread, hiff⟩ := h
    have hp : plans.isSome = true := by
      cases hnone : plans with
      | none =>
        rw [hnone] at hread
        cases hread
      | some b => rfl
    exact ⟨manifest, (hsome hp).symm ▸ hread, hiff⟩

theorem phaseStep_spec (hproper : Proper sha256 validatePlanRoot planId call)
    (hreadable : Readable validatePlanRoot planId plans) {phase phase' : Phase}
    (htells : Tells sha256 validatePlanRoot planId plans call phase)
    (hstep : phaseStep sha256 validatePlanRoot planId plans call phase = some (plans', phase')) :
    Stays plans plans' ∧ Readable validatePlanRoot planId plans' ∧
      Tells sha256 validatePlanRoot planId plans' call phase' ∧ phase'.left < phase.left := by
  have hstay : Stays plans plans := fun b hb => hb
  cases phase with
  | called =>
    obtain ⟨manifest, hvalid⟩ := hproper.valid
    simp only [phaseStep, hvalid, Option.some.injEq, Prod.mk.injEq] at hstep
    obtain ⟨rfl, rfl⟩ := hstep
    exact ⟨hstay, hreadable, trivial, by decide⟩
  | validated =>
    simp only [phaseStep, Option.some.injEq, Prod.mk.injEq] at hstep
    obtain ⟨rfl, rfl⟩ := hstep
    split
    · rename_i hsome
      exact ⟨hstay, hreadable, hsome, by decide⟩
    · exact ⟨hstay, hreadable, trivial, by decide⟩
  | found =>
    simp only [phaseStep, Option.some.injEq, Prod.mk.injEq] at hstep
    obtain ⟨rfl, rfl⟩ := hstep
    obtain ⟨manifest, hread⟩ := hreadable htells
    exact ⟨hstay, hreadable, ⟨manifest, hread, reuse_ok_iff hproper hread⟩, Nat.zero_lt_one⟩
  | absent =>
    cases hplans : plans with
    | none =>
      -- the rename puts the call's own bundle, which was valid, where nothing was
      rw [hplans] at hstep
      simp only [phaseStep, Option.some.injEq, Prod.mk.injEq] at hstep
      obtain ⟨rfl, rfl⟩ := hstep
      refine ⟨?_, fun _ => hproper.readPublishedPlan, rfl, by decide⟩
      intro b hb
      cases hb
    | some other =>
      rw [hplans] at hstep hstay hreadable
      simp only [phaseStep, Option.some.injEq, Prod.mk.injEq] at hstep
      obtain ⟨rfl, rfl⟩ := hstep
      exact ⟨hstay, hreadable, rfl, by decide⟩
  | refused =>
    have hsome : plans.isSome = true := htells
    simp only [phaseStep, hsome, if_true, Option.some.injEq, Prod.mk.injEq] at hstep
    obtain ⟨rfl, rfl⟩ := hstep
    exact ⟨hstay, hreadable, hsome, by decide⟩
  | moved =>
    simp only [phaseStep, Option.some.injEq, Prod.mk.injEq] at hstep
    obtain ⟨rfl, rfl⟩ := hstep
    have hsome : plans.isSome = true := htells ▸ rfl
    obtain ⟨manifest, hread⟩ := hreadable hsome
    exact ⟨hstay, hreadable, ⟨manifest, hread, confirm_ok_iff hread⟩, Nat.zero_lt_one⟩
  | returned result => cases hstep

theorem isSome_phaseStep {phase : Phase} (h : phase.left ≠ 0) :
    (phaseStep sha256 validatePlanRoot planId plans call phase).isSome = true := by
  cases phase with
  | called =>
    unfold phaseStep
    cases validateStagedPlan validatePlanRoot planId (call.staged sha256) <;> rfl
  | absent => cases plans <;> rfl
  | returned result => exact absurd rfl h
  | _ => rfl

/-! ## Runs -/

variable (sha256) (validatePlanRoot) (planId) in
structure Settled (s : Shared (Option (Bundle φ)) (Publisher φ)) : Prop where
  readable : Readable validatePlanRoot planId s.memory
  calls : ∀ p ∈ s.machines, Proper sha256 validatePlanRoot planId p.call ∧
    Tells sha256 validatePlanRoot planId s.memory p.call p.phase

theorem settled_turn {s t : Shared (Option (Bundle φ)) (Publisher φ)} {move : Turn (PublishCall φ)}
    (h : Settled sha256 validatePlanRoot planId s)
    (hproper : ∀ call, move = .start call → Proper sha256 validatePlanRoot planId call)
    (hturn : turn sha256 validatePlanRoot planId s move = some t) :
    Stays s.memory t.memory ∧ Settled sha256 validatePlanRoot planId t := by
  cases move with
  | start call =>
    obtain rfl := Option.some.inj hturn
    refine ⟨fun b hb => hb, h.readable, ?_⟩
    intro p hp
    rcases List.mem_append.mp hp with hp | hp
    · exact h.calls p hp
    · rw [List.mem_singleton.mp hp]
      exact ⟨hproper call rfl, trivial⟩
  | advance place =>
    obtain ⟨p, memory, p', hp, hstep, rfl⟩ := Shared.turn_advance.mp hturn
    have hin := List.mem_of_getElem? hp
    obtain ⟨⟨plans', phase'⟩, hphase, heq⟩ := Option.map_eq_some_iff.mp hstep
    obtain ⟨rfl, rfl⟩ := Prod.mk.inj heq
    obtain ⟨hstays, hreadable, htells, _⟩ :=
      phaseStep_spec (h.calls p hin).1 h.readable (h.calls p hin).2 hphase
    refine ⟨hstays, hreadable, ?_⟩
    intro other hother
    -- the call that moved, or one that only sees a bundle stay
    rcases List.mem_or_eq_of_mem_set hother with hother | rfl
    · exact ⟨(h.calls other hother).1, (h.calls other hother).2.stays hstays⟩
    · exact ⟨(h.calls p hin).1, htells⟩

theorem settled_run {s t : Shared (Option (Bundle φ)) (Publisher φ)}
    {moves : List (Turn (PublishCall φ))} (h : Settled sha256 validatePlanRoot planId s)
    (hproper : ∀ call, Turn.start call ∈ moves → Proper sha256 validatePlanRoot planId call)
    (hrun : run (turn sha256 validatePlanRoot planId) s moves = some t) :
    Stays s.memory t.memory ∧ Settled sha256 validatePlanRoot planId t := by
  induction moves generalizing s with
  | nil =>
    obtain rfl := Option.some.inj hrun
    exact ⟨fun b hb => hb, h⟩
  | cons move moves ih =>
    obtain ⟨u, hu, hrun⟩ := Option.bind_eq_some_iff.mp hrun
    have hfirst := settled_turn h (fun call hcall => hproper call (hcall ▸ List.mem_cons_self)) hu
    have hrest := ih hfirst.2 (fun call hcall => hproper call (List.mem_cons_of_mem _ hcall)) hrun
    exact ⟨fun b hb => hrest.1 b (hfirst.1 b hb), hrest.2⟩

theorem settled_empty : Settled sha256 validatePlanRoot planId
    (⟨none, []⟩ : Shared (Option (Bundle φ)) (Publisher φ)) := by
  constructor
  · intro hsome
    cases hsome
  · intro p hp
    cases hp

end Publishing

/-- Whatever the order of the steps of the calls: a bundle that was seen at the plan directory is
the one there at the end and passes the reader, a call that is over returned exactly when the
manifest there is its own, and every other call can go on and is over after at most five steps. -/
theorem first_publisher_wins {φ : Type} (sha256 : Bytes → String)
    (validatePlanRoot : String → Json → φ → Except PlanError Unit) (planId : String)
    (moves : List (Turn (PublishCall φ))) (s : Shared (Option (Bundle φ)) (Publisher φ))
    (hproper : ∀ call, Turn.start call ∈ moves → Proper sha256 validatePlanRoot planId call)
    (hrun : run (turn sha256 validatePlanRoot planId) ⟨none, []⟩ moves = some s) :
    (∀ before after, moves = before ++ after → ∀ u,
      run (turn sha256 validatePlanRoot planId) ⟨none, []⟩ before = some u →
        ∀ b, u.memory = some b → s.memory = some b) ∧
    (∀ b, s.memory = some b →
      ∃ manifest, readPublishedPlan validatePlanRoot planId (some b) = .ok manifest) ∧
    (∀ p ∈ s.machines, ∀ result, p.phase = .returned result →
      ∃ manifest, readPublishedPlan validatePlanRoot planId s.memory = .ok manifest ∧
        ((∃ b, result = .ok b) ↔ equalJson manifest (p.call.payloadJson sha256) = true)) ∧
    ∀ p ∈ s.machines, p.phase.left ≠ 0 → ∃ plans p',
      publishStep sha256 validatePlanRoot planId s.memory p = some (plans, p') ∧
        p'.phase.left < p.phase.left := by
  have hsettled := (settled_run settled_empty hproper hrun).2
  refine ⟨?_, ?_, ?_, ?_⟩
  · rintro before after rfl u hu
    rw [run_append, hu] at hrun
    have hbefore := (settled_run settled_empty
      (fun call hcall => hproper call (List.mem_append_left _ hcall)) hu).2
    exact (settled_run hbefore
      (fun call hcall => hproper call (List.mem_append_right _ hcall)) hrun).1
  · intro b hb
    have hread := hsettled.readable (by rw [hb]; rfl)
    rwa [hb] at hread
  · intro p hp result hresult
    have htells := (hsettled.calls p hp).2
    rw [hresult] at htells
    exact htells
  · intro p hp hleft
    obtain ⟨⟨plans, phase⟩, hstep⟩ := Option.isSome_iff_exists.mp
      (@isSome_phaseStep φ sha256 validatePlanRoot planId p.call s.memory p.phase hleft)
    obtain ⟨hproper', htells⟩ := hsettled.calls p hp
    refine ⟨plans, ⟨p.call, phase⟩, ?_, (phaseStep_spec hproper' hsettled.readable htells hstep).2.2.2⟩
    rw [publishStep, hstep]
    rfl

/-! ## Two calls -/

def countingCall (n : Int) : PublishCall Unit :=
  ⟨.obj [], (Dict.empty.set "plan_identity" (.obj [])).set "target_row_count" (.int n), ()⟩

def racingMoves : List (Turn (PublishCall Unit)) :=
  [.start (countingCall 0), .start (countingCall 1), .advance 0, .advance 0, .advance 1, .advance 1,
    .advance 1, .advance 0, .advance 0, .advance 0, .advance 1]

theorem proper_countingCall (n : Int) (hn : n = 0 ∨ n = 1) :
    Proper (fun _ => "0") (fun _ _ _ => .ok ()) "p" (countingCall n) := by
  have hloads : (loads (canonicalJson ((countingCall n).payloadJson fun _ => "0"))).isSome = true := by
    rcases hn with rfl | rfl <;> decide +kernel
  obtain ⟨manifest, hmanifest⟩ := Option.isSome_iff_exists.mp hloads
  refine ⟨⟨manifest, ?_⟩, ?_⟩
  · rw [validateStagedPlan, readManifest, PublishCall.staged, hmanifest]
    rfl
  · rcases hn with rfl | rfl <;> rfl

theorem first_publisher_wins_racing : ∃ s manifest,
    run (turn (fun _ => "0") (fun _ _ _ => .ok ()) "p") ⟨none, []⟩ racingMoves = some s ∧
      readPublishedPlan (fun _ _ _ => .ok ()) "p" s.memory = .ok manifest := by
  have hsome : (run (turn (fun _ => "0") (fun _ _ _ => .ok ()) "p") ⟨none, []⟩ racingMoves).isSome ∧
      ((run (turn (fun _ => "0") (fun _ _ _ => .ok ()) "p") ⟨none, []⟩ racingMoves).bind
        Shared.memory).isSome = true := by decide +kernel
  obtain ⟨s, hrun⟩ := Option.isSome_iff_exists.mp hsome.1
  have hmemory := hsome.2
  rw [hrun, Option.bind_some] at hmemory
  obtain ⟨b, hb⟩ := Option.isSome_iff_exists.mp hmemory
  have hproper : ∀ call, Turn.start call ∈ racingMoves →
      Proper (fun _ => "0") (fun _ _ _ => .ok ()) "p" call := by
    intro call hcall
    simp only [racingMoves, List.mem_cons, Turn.start.injEq, reduceCtorEq, List.not_mem_nil, or_false]
      at hcall
    rcases hcall with rfl | rfl
    · exact proper_countingCall 0 (Or.inl rfl)
    · exact proper_countingCall 1 (Or.inr rfl)
  obtain ⟨manifest, hread⟩ := (first_publisher_wins (fun _ => "0") (fun _ _ _ => .ok ()) "p"
    racingMoves s hproper hrun).2.1 b hb
  exact ⟨s, manifest, hrun, hb ▸ hread⟩

end EdgarSec.DocumentPlanning.PlanPublication
