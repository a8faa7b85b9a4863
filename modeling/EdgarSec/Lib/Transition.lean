import Mathlib

/-! Runs of a partial step function, and invariants of the runs whose every step is taken
in a state that meets a guard. -/

namespace EdgarSec.Lib

section Transition
variable {σ α : Type} (step : σ → α → Option σ)

def run : σ → List α → Option σ
  | s, [] => some s
  | s, a :: as => (step s a).bind fun t => run t as

variable (guard : σ → α → Prop)

def Meets : σ → List α → Prop
  | _, [] => True
  | s, a :: as => guard s a ∧ ∀ t, step s a = some t → Meets t as

instance Meets.decide [∀ s a, Decidable (guard s a)] :
    ∀ s as, Decidable (Meets step guard s as)
  | _, [] => isTrue trivial
  | s, a :: as =>
    match h : step s a with
    | none => decidable_of_iff (guard s a) (by simp [Meets, h])
    | some t =>
      have := Meets.decide t as
      decidable_of_iff (guard s a ∧ Meets step guard t as) (by simp [Meets, h])

variable {step} {guard} {s t u : σ} {a : α} {as bs : List α}

theorem run_append : run step s (as ++ bs) = (run step s as).bind fun t => run step t bs := by
  induction as generalizing s with
  | nil => rfl
  | cons a as ih =>
    show (step s a).bind (fun t => run step t (as ++ bs)) = _
    cases h : step s a with
    | none => simp [run, h]
    | some t =>
      have hrest := ih (s := t)
      simpa [run, h] using hrest

theorem run_concat : run step s (as ++ [a]) = some u ↔
    ∃ t, run step s as = some t ∧ step t a = some u := by
  rw [run_append, Option.bind_eq_some_iff]
  refine exists_congr fun t => and_congr_right fun _ => ?_
  show (step t a).bind (fun t => some t) = some u ↔ _
  rw [Option.bind_fun_some]

theorem run_total {f : σ → α → σ} : run (fun s a => some (f s a)) s as = some (as.foldl f s) := by
  induction as generalizing s with
  | nil => rfl
  | cons a as ih => exact ih

theorem Meets.left (h : Meets step guard s (as ++ bs)) : Meets step guard s as := by
  induction as generalizing s with
  | nil => trivial
  | cons a as ih => exact ⟨h.1, fun t ht => ih (h.2 t ht)⟩

theorem Meets.last (h : Meets step guard s (as ++ [a])) (hrun : run step s as = some t) :
    guard t a := by
  induction as generalizing s with
  | nil =>
    obtain rfl := Option.some.inj hrun
    exact h.1
  | cons b as ih =>
    obtain ⟨u, hu, hrun⟩ := Option.bind_eq_some_iff.mp hrun
    exact ih (h.2 u hu) hrun

theorem meets_of_forall
    (h : ∀ before a after t, as = before ++ a :: after → run step s before = some t → guard t a) :
    Meets step guard s as := by
  induction as generalizing s with
  | nil => trivial
  | cons a as ih =>
    refine ⟨h [] a as s rfl rfl, fun t ht => ih fun before b after u has hrun => ?_⟩
    apply h (a :: before) b after u
    · rw [has, List.cons_append]
    · show (step s a).bind (fun t => run step t before) = some u
      rw [ht, Option.bind_some, hrun]

theorem run_invariant {inv : σ → Prop}
    (hstep : ∀ s a t, inv s → guard s a → step s a = some t → inv t) (hs : inv s)
    (hmeets : Meets step guard s as) (hrun : run step s as = some t) : inv t := by
  induction as generalizing s with
  | nil =>
    obtain rfl := Option.some.inj hrun
    exact hs
  | cons a as ih =>
    obtain ⟨u, hu, hrun⟩ := Option.bind_eq_some_iff.mp hrun
    exact ih (hstep s a u hs hmeets.1 hu) (hmeets.2 u hu) hrun

theorem run_preserves {inv : σ → Prop} (hstep : ∀ s a t, inv s → step s a = some t → inv t)
    (hs : inv s) (hrun : run step s as = some t) : inv t := by
  induction as generalizing s with
  | nil =>
    obtain rfl := Option.some.inj hrun
    exact hs
  | cons a as ih =>
    obtain ⟨u, hu, hrun⟩ := Option.bind_eq_some_iff.mp hrun
    exact ih (hstep s a u hs hu) hrun

theorem run_history {P : List α → σ → Prop} (hs : P [] s)
    (hstep : ∀ as t a u, P as t → step t a = some u → P (as ++ [a]) u)
    (hrun : run step s as = some t) : P as t := by
  induction as using List.reverseRecOn generalizing t with
  | nil =>
    obtain rfl := Option.some.inj hrun
    exact hs
  | append_singleton as a ih =>
    obtain ⟨u, hu, ha⟩ := run_concat.mp hrun
    exact hstep as u a t (ih hu) ha

theorem meets_of_invariant {inv : σ → Prop}
    (hstep : ∀ s a t, a ∈ as → inv s → step s a = some t → inv t)
    (hguard : ∀ s a, a ∈ as → inv s → guard s a) (hs : inv s) : Meets step guard s as := by
  induction as generalizing s with
  | nil => trivial
  | cons a as ih =>
    refine ⟨hguard s a List.mem_cons_self hs, fun t ht => ?_⟩
    have hnext : inv t := hstep s a t List.mem_cons_self hs ht
    exact ih (fun s b t hb => hstep s b t (List.mem_cons_of_mem a hb))
      (fun s b hb => hguard s b (List.mem_cons_of_mem a hb)) hnext

end Transition
end EdgarSec.Lib
