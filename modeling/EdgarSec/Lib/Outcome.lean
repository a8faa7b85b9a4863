import Mathlib

/-! When a computation in `Except` succeeds: peeling binds, maps and loops apart. -/

namespace EdgarSec.Lib

variable {α β ε : Type}

theorem bind_eq_ok {x : Except ε α} {f : α → Except ε β} {b : β} :
    (x >>= f) = .ok b ↔ ∃ a, x = .ok a ∧ f a = .ok b := by
  cases x <;> simp [bind, Except.bind]

theorem map_eq_ok {x : Except ε α} {f : α → β} {b : β} :
    x.map f = .ok b ↔ ∃ a, x = .ok a ∧ f a = b := by
  cases x <;> simp [Except.map]

theorem mapError_eq_ok {ε' : Type} {x : Except ε α} {f : ε → ε'} {a : α} :
    x.mapError f = .ok a ↔ x = .ok a := by
  cases x <;> simp [Except.mapError]

/-- `if not p: raise e` -/
def ensure (p : Prop) [Decidable p] (e : ε) : Except ε Unit := if p then .ok () else .error e

@[simp] theorem ensure_eq_ok {p : Prop} [Decidable p] {e : ε} {u : Unit} :
    ensure p e = .ok u ↔ p := by
  unfold ensure
  split_ifs with h <;> simp [h]

theorem forM_eq_ok {f : α → Except ε Unit} {l : List α} :
    l.forM f = .ok () ↔ ∀ a ∈ l, f a = .ok () := by
  induction l with
  | nil => simp [pure, Except.pure]
  | cons a l ih =>
    rw [List.forM_eq_forM] at ih
    simp only [List.forM_eq_forM, List.forM_cons, bind_eq_ok, List.mem_cons, forall_eq_or_imp, ← ih]
    constructor
    · rintro ⟨⟨⟩, ha, hl⟩
      exact ⟨ha, hl⟩
    · rintro ⟨ha, hl⟩
      exact ⟨(), ha, hl⟩

theorem exists_of_forM_eq_error {f : α → Except ε Unit} {l : List α} {e : ε}
    (h : l.forM f = .error e) : ∃ a ∈ l, f a = .error e := by
  induction l with
  | nil => cases h
  | cons a l ih =>
    rw [List.forM_eq_forM, List.forM_cons] at h
    cases ha : f a with
    | error e' =>
      rw [ha] at h
      cases h
      exact ⟨a, List.mem_cons_self, ha⟩
    | ok u =>
      rw [ha] at h
      obtain ⟨b, hb, he⟩ := ih (by rwa [List.forM_eq_forM])
      exact ⟨b, List.mem_cons_of_mem a hb, he⟩

theorem mem_mapM {f : α → Except ε β} {l : List α} {bs : List β} (h : l.mapM f = .ok bs) {b : β} :
    b ∈ bs ↔ ∃ a ∈ l, f a = .ok b := by
  induction l generalizing bs with
  | nil =>
    cases h
    simp
  | cons a l ih =>
    rw [List.mapM_cons] at h
    obtain ⟨b', hb', h⟩ := Iff.mp bind_eq_ok h
    obtain ⟨bs', hbs', h⟩ := Iff.mp bind_eq_ok h
    cases h
    rw [List.mem_cons, ih hbs']
    constructor
    · rintro (rfl | ⟨a', ha', hb⟩)
      · exact ⟨a, List.mem_cons_self, hb'⟩
      · exact ⟨a', List.mem_cons_of_mem a ha', hb⟩
    · rintro ⟨a', ha', hb⟩
      rcases List.mem_cons.mp ha' with rfl | ha'
      · rw [hb'] at hb
        exact Or.inl (Except.ok.inj hb).symm
      · exact Or.inr ⟨a', ha', hb⟩

theorem exists_of_mapM {f : α → Except ε β} {l : List α} {bs : List β} (h : l.mapM f = .ok bs)
    {a : α} (ha : a ∈ l) : ∃ b, f a = .ok b := by
  induction l generalizing bs with
  | nil => cases ha
  | cons a' l ih =>
    rw [List.mapM_cons] at h
    obtain ⟨b', hb', h⟩ := Iff.mp bind_eq_ok h
    obtain ⟨bs', hbs', _⟩ := Iff.mp bind_eq_ok h
    rcases List.mem_cons.mp ha with rfl | ha
    · exact ⟨b', hb'⟩
    · exact ih hbs' ha

theorem exists_mapM_eq_ok {f : α → Except ε β} {l : List α} (h : ∀ a ∈ l, ∃ b, f a = .ok b) :
    ∃ bs, l.mapM f = .ok bs := by
  induction l with
  | nil => exact ⟨[], rfl⟩
  | cons a l ih =>
    obtain ⟨b, hb⟩ := h a List.mem_cons_self
    obtain ⟨bs, hbs⟩ := ih fun c hc => h c (List.mem_cons_of_mem a hc)
    refine ⟨b :: bs, ?_⟩
    rw [List.mapM_cons, hb, hbs]
    rfl

theorem forall₂_mapM {f : α → Except ε β} {R : α → β → Prop} {l : List α} {bs : List β} (h : l.mapM f = .ok bs)
    (hf : ∀ a ∈ l, ∀ b, f a = .ok b → R a b) : List.Forall₂ R l bs := by
  induction l generalizing bs with
  | nil =>
    cases h
    exact List.Forall₂.nil
  | cons a l ih =>
    rw [List.mapM_cons] at h
    obtain ⟨b, hb, h⟩ := Iff.mp bind_eq_ok h
    obtain ⟨bs', hbs', h⟩ := Iff.mp bind_eq_ok h
    cases h
    exact List.Forall₂.cons (hf a List.mem_cons_self b hb) (ih hbs' fun c hc => hf c (List.mem_cons_of_mem a hc))

theorem map_mapM {γ : Type} {f : α → Except ε β} {p : β → γ} {q : α → γ} {l : List α} {bs : List β}
    (h : l.mapM f = .ok bs) (hf : ∀ a ∈ l, ∀ b, f a = .ok b → p b = q a) : bs.map p = l.map q := by
  induction l generalizing bs with
  | nil =>
    cases h
    rfl
  | cons a l ih =>
    rw [List.mapM_cons] at h
    obtain ⟨b, hb, h⟩ := Iff.mp bind_eq_ok h
    obtain ⟨bs', hbs', h⟩ := Iff.mp bind_eq_ok h
    cases h
    rw [List.map_cons, List.map_cons, hf a List.mem_cons_self b hb,
      ih hbs' fun c hc => hf c (List.mem_cons_of_mem a hc)]

theorem map_fst_mapM {f : α → Except ε β} {l : List α} {bs : List (α × β)}
    (h : (l.mapM fun a => do .ok (a, ← f a)) = .ok bs) : bs.map Prod.fst = l := by
  refine (map_mapM h fun a _ b hb => ?_).trans (List.map_id l)
  obtain ⟨c, _, hb⟩ := Iff.mp bind_eq_ok hb
  cases hb
  rfl

theorem mapM_eq_ok_map {f : α → Except ε β} {g : α → β} {l : List α}
    (h : ∀ a ∈ l, f a = .ok (g a)) : l.mapM f = .ok (l.map g) := by
  induction l with
  | nil => rfl
  | cons a l ih =>
    rw [List.mapM_cons, h a List.mem_cons_self, ih fun b hb => h b (List.mem_cons_of_mem a hb)]
    rfl

theorem eq_map_of_mapM {f : α → Except ε β} {g : α → β} {l : List α} {bs : List β}
    (h : l.mapM f = .ok bs) (hg : ∀ a ∈ l, ∀ b, f a = .ok b → g a = b) : bs = l.map g := by
  have hf : ∀ a ∈ l, f a = .ok (g a) := by
    intro a ha
    obtain ⟨b, hb⟩ := exists_of_mapM h ha
    rw [hg a ha b hb, hb]
  rw [mapM_eq_ok_map hf] at h
  exact (Except.ok.inj h).symm

theorem mapM_append_eq_ok {f : α → Except ε β} {l l' : List α} {bs bs' : List β}
    (h : l.mapM f = .ok bs) (h' : l'.mapM f = .ok bs') : (l ++ l').mapM f = .ok (bs ++ bs') := by
  rw [List.mapM_append, h, h']
  rfl

end EdgarSec.Lib
