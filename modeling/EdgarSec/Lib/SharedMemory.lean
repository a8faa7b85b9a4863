import EdgarSec.Lib.Transition

/-! Any number of machines that take turns on one memory, and memories whose cells are
written at most once. A fact about one machine that a growing memory does not undo is an
invariant of every interleaving. -/

namespace EdgarSec.Lib

/-! ## Cells that are written once -/

section Cells
variable {κ β : Type}

def Extends (a b : κ → Option β) : Prop := ∀ k v, a k = some v → b k = some v

theorem Extends.refl (a : κ → Option β) : Extends a a := fun _ _ h => h

theorem Extends.trans {a b c : κ → Option β} (hab : Extends a b) (hbc : Extends b c) : Extends a c :=
  fun k v h => hbc k v (hab k v h)

def putAbsent [DecidableEq κ] (a : κ → Option β) (k : κ) (v : β) : κ → Option β :=
  if (a k).isSome then a else Function.update a k (some v)

variable [DecidableEq κ] {a : κ → Option β} {k : κ} {v : β}

theorem extends_putAbsent : Extends a (putAbsent a k v) := by
  intro l w hl
  unfold putAbsent
  split_ifs with hk
  · exact hl
  · have hne : l ≠ k := by
      rintro rfl
      rw [hl] at hk
      exact hk rfl
    rw [Function.update_of_ne hne, hl]

theorem isSome_putAbsent : (putAbsent a k v k).isSome := by
  unfold putAbsent
  split_ifs with hk
  · exact hk
  · rw [Function.update_self]
    rfl

end Cells

/-! ## Machines on one memory -/

structure Shared (σ μ : Type) where
  memory : σ
  machines : List μ

inductive Turn (ι : Type) where
  | start (input : ι)
  | advance (place : Nat)

section Machines
variable {σ μ ι : Type} (next : σ → μ → Option (σ × μ)) (fresh : ι → μ)

def Shared.turn (s : Shared σ μ) : Turn ι → Option (Shared σ μ)
  | .start input => some { s with machines := s.machines ++ [fresh input] }
  | .advance place => s.machines[place]?.bind fun m =>
      (next s.memory m).map fun (memory, m') => ⟨memory, s.machines.set place m'⟩

variable {next} {fresh} {s t : Shared σ μ}

theorem Shared.turn_advance {place : Nat} :
    s.turn next fresh (.advance place) = some t ↔ ∃ m memory m', s.machines[place]? = some m ∧
      next s.memory m = some (memory, m') ∧ t = ⟨memory, s.machines.set place m'⟩ := by
  rw [Shared.turn, Option.bind_eq_some_iff]
  refine exists_congr fun m => ?_
  rw [Option.map_eq_some_iff]
  constructor
  · rintro ⟨hm, ⟨memory, m'⟩, hnext, rfl⟩
    exact ⟨memory, m', hm, hnext, rfl⟩
  · rintro ⟨memory, m', hm, hnext, rfl⟩
    exact ⟨hm, (memory, m'), hnext, rfl⟩

variable {grows : σ → σ → Prop} {inv : σ → μ → Prop} {turns : List (Turn ι)}

theorem Shared.run_grows (hrefl : ∀ a, grows a a) (htrans : ∀ a b c, grows a b → grows b c → grows a c)
    (hgrows : ∀ a m b m', next a m = some (b, m') → grows a b)
    (hrun : run (Shared.turn next fresh) s turns = some t) : grows s.memory t.memory := by
  have hstep : ∀ (u : Shared σ μ) turn w, grows s.memory u.memory →
      Shared.turn next fresh u turn = some w → grows s.memory w.memory := by
    intro u turn w hu hturn
    cases turn with
    | start input =>
      obtain rfl := Option.some.inj hturn
      exact hu
    | advance place =>
      obtain ⟨m, memory, m', _, hnext, rfl⟩ := turn_advance.mp hturn
      exact htrans _ _ _ hu (hgrows _ _ _ _ hnext)
  exact @run_preserves _ _ _ _ _ _ (fun u : Shared σ μ => grows s.memory u.memory) hstep (hrefl _) hrun

theorem Shared.run_local (hgrows : ∀ a m b m', next a m = some (b, m') → grows a b)
    (hkeep : ∀ a b m, grows a b → inv a m → inv b m) (hfresh : ∀ a input, inv a (fresh input))
    (hnext : ∀ a m b m', inv a m → next a m = some (b, m') → inv b m')
    (hs : ∀ m ∈ s.machines, inv s.memory m)
    (hrun : run (Shared.turn next fresh) s turns = some t) : ∀ m ∈ t.machines, inv t.memory m := by
  have hstep : ∀ (u : Shared σ μ) turn w, (∀ m ∈ u.machines, inv u.memory m) →
      Shared.turn next fresh u turn = some w → ∀ m ∈ w.machines, inv w.memory m := by
    intro u turn w hu hturn
    cases turn with
    | start input =>
      obtain rfl := Option.some.inj hturn
      intro m hm
      rcases List.mem_append.mp hm with hm | hm
      · exact hu m hm
      · obtain rfl := List.mem_singleton.mp hm
        exact hfresh _ _
    | advance place =>
      obtain ⟨m, memory, m', hm, hmoved, rfl⟩ := turn_advance.mp hturn
      intro other hother
      -- the machine that moved, or one that only sees the memory grow
      rcases List.mem_or_eq_of_mem_set hother with hother | rfl
      · exact hkeep _ _ _ (hgrows _ _ _ _ hmoved) (hu other hother)
      · exact hnext _ _ _ _ (hu m (List.mem_of_getElem? hm)) hmoved
  exact @run_preserves _ _ _ _ _ _ (fun u : Shared σ μ => ∀ m ∈ u.machines, inv u.memory m) hstep hs hrun

end Machines
end EdgarSec.Lib
