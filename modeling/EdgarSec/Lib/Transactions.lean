import Mathlib

/-! Programs of statements on a store inside one transaction. A statement may fail for
reasons of its own or because the storage does; what a failed program had written so
far is what the rollback takes back. -/

namespace EdgarSec.Lib

/-- The working copy of the open transaction, and which of the coming statements the
storage will fail. -/
structure Session (σ : Type) where
  store : σ
  faults : List Bool

abbrev Tx (ε σ : Type) := ExceptT ε (StateM (Session σ))

namespace Tx
variable {ε σ α β : Type}

/-- One statement; `storage` is the error of a failing storage. -/
def statement (storage : ε) (body : σ → Except ε (α × σ)) : Tx ε σ α := fun session =>
  if session.faults.headD false then
    (.error storage, { session with faults := session.faults.tail })
  else
    match body session.store with
    | .error e => (.error e, { session with faults := session.faults.tail })
    | .ok (a, store) => (.ok a, { store, faults := session.faults.tail })

def require (condition : Bool) (e : ε) : Tx ε σ Unit :=
  if condition then pure () else throw e

/-- `BEGIN` and `COMMIT` write nothing to the working copy. -/
def boundary (storage : ε) : Tx ε σ Unit := statement storage fun store => .ok ((), store)

/-- The program between `BEGIN` and `COMMIT`; on an error `ROLLBACK`, and the error goes
on. -/
def transaction (storage : ε) (body : Tx ε σ α) (faults : List Bool) (durable : σ) :
    Except ε α × σ :=
  match (boundary storage >>= fun _ => body >>= fun a => boundary storage >>= fun _ => pure a :
      Tx ε σ α) ⟨durable, faults⟩ with
  | (.ok a, session) => (.ok a, session.store)
  | (.error e, _) => (.error e, durable)

/-- The program returns `a` and leaves the working copy `t`, for some faults. -/
def Succeeds (x : Tx ε σ α) (s : σ) (a : α) (t : σ) : Prop :=
  ∃ faults faults', x ⟨s, faults⟩ = (.ok a, ⟨t, faults'⟩)

variable {x : Tx ε σ α} {f : α → Tx ε σ β} {s t : σ} {a : α} {b : β} {storage e : ε}

theorem run_bind_eq_ok {session session' : Session σ} : (x >>= f) session = (.ok b, session') ↔
    ∃ a middle, x session = (.ok a, middle) ∧ f a middle = (.ok b, session') := by
  have hbind : (x >>= f) session = match x session with
      | (.ok a, middle) => f a middle
      | (.error e, middle) => (.error e, middle) := by
    simp only [bind, ExceptT.bind, ExceptT.mk, StateT.bind]
    rcases x session with ⟨_ | a, middle⟩ <;> rfl
  rw [hbind]
  rcases x session with ⟨_ | a, middle⟩
  · constructor
    · intro h
      nomatch h
    · rintro ⟨a, middle', h, -⟩
      nomatch h
  · constructor
    · intro h
      exact ⟨a, middle, rfl, h⟩
    · rintro ⟨a', middle', h, hf⟩
      cases h
      exact hf

theorem Succeeds.bind (h : Succeeds (x >>= f) s b t) :
    ∃ a m, Succeeds x s a m ∧ Succeeds (f a) m b t := by
  obtain ⟨faults, faults', hrun⟩ := h
  obtain ⟨a, middle, hx, hf⟩ := run_bind_eq_ok.mp hrun
  exact ⟨a, middle.store, ⟨faults, middle.faults, hx⟩, ⟨middle.faults, faults', hf⟩⟩

theorem Succeeds.pure {a' : α} (h : Succeeds (pure a : Tx ε σ α) s a' t) : a = a' ∧ s = t := by
  obtain ⟨faults, faults', hrun⟩ := h
  cases hrun
  exact ⟨rfl, rfl⟩

theorem not_succeeds_throw : ¬ Succeeds (throw e : Tx ε σ α) s a t := by
  rintro ⟨faults, faults', hrun⟩
  cases hrun

theorem Succeeds.require {condition : Bool} {u : Unit}
    (h : Succeeds (require condition e : Tx ε σ Unit) s u t) : condition = true ∧ s = t := by
  unfold Tx.require at h
  split_ifs at h with hcondition
  · exact ⟨hcondition, h.pure.2⟩
  · exact absurd h not_succeeds_throw

theorem Succeeds.statement {body : σ → Except ε (α × σ)}
    (h : Succeeds (statement storage body) s a t) : body s = .ok (a, t) := by
  obtain ⟨faults, faults', hrun⟩ := h
  unfold Tx.statement at hrun
  split_ifs at hrun with hfault
  · nomatch hrun
  · split at hrun
    · nomatch hrun
    · rename_i hbody
      cases hrun
      exact hbody

theorem Succeeds.boundary {u : Unit} (h : Succeeds (boundary storage : Tx ε σ Unit) s u t) :
    s = t := by
  have hdone := Succeeds.statement h
  exact congrArg Prod.snd (Except.ok.inj hdone)

section Loops
variable {γ : Type} {body : γ → Tx ε σ Unit} {l : List γ} {u : Unit}

theorem Succeeds.forM {step : σ → γ → σ}
    (hbody : ∀ c s u t, Succeeds (body c) s u t → t = step s c)
    (h : Succeeds (l.forM body) s u t) : t = l.foldl step s := by
  induction l generalizing s with
  | nil => exact h.pure.2.symm
  | cons c l ih =>
    obtain ⟨_, m, hc, hl⟩ := Succeeds.bind h
    rw [List.foldl_cons, ← hbody c s _ m hc]
    exact ih hl

theorem Succeeds.forM_preserves {inv : σ → Prop}
    (hbody : ∀ c s u t, inv s → Succeeds (body c) s u t → inv t) (hs : inv s)
    (h : Succeeds (l.forM body) s u t) : inv t := by
  induction l generalizing s with
  | nil => exact h.pure.2 ▸ hs
  | cons c l ih =>
    obtain ⟨_, m, hc, hl⟩ := Succeeds.bind h
    exact ih (hbody c s _ m hs hc) hl

end Loops

theorem transaction_ok {faults : List Bool} (h : transaction storage x faults s = (.ok a, t)) :
    Succeeds x s a t := by
  unfold transaction at h
  split at h
  · rename_i a' session hrun
    simp only [Prod.mk.injEq, Except.ok.injEq] at h
    obtain ⟨rfl, rfl⟩ := h
    obtain ⟨_, m, hbegin, hrest⟩ := Succeeds.bind ⟨faults, session.faults, hrun⟩
    obtain ⟨a'', m', hx, hrest⟩ := hrest.bind
    obtain ⟨_, m'', hcommit, hpure⟩ := hrest.bind
    rw [hbegin.boundary, ← hpure.pure.1, ← hpure.pure.2, ← hcommit.boundary]
    exact hx
  · nomatch h

theorem transaction_error {faults : List Bool}
    (h : (transaction storage x faults s).1 = .error e) :
    (transaction storage x faults s).2 = s := by
  unfold transaction at h ⊢
  split at h
  · nomatch h
  · rfl

theorem transaction_cases (storage : ε) (x : Tx ε σ α) (faults : List Bool) (s : σ) :
    (∃ e, transaction storage x faults s = (.error e, s)) ∨
    ∃ a t, transaction storage x faults s = (.ok a, t) ∧ Succeeds x s a t := by
  cases hresult : (transaction storage x faults s).1 with
  | error e => exact Or.inl ⟨e, Prod.ext hresult (transaction_error hresult)⟩
  | ok a =>
    have hpair : transaction storage x faults s =
        (.ok a, (transaction storage x faults s).2) := Prod.ext hresult rfl
    exact Or.inr ⟨a, _, hpair, transaction_ok hpair⟩

end Tx
end EdgarSec.Lib
