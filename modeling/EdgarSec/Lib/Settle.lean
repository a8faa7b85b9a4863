import Mathlib

/-! Discarding elements until no element left is objected to. When an objection stands
for every smaller list too, what is left is the greatest list without objections. -/

namespace EdgarSec.Lib

section Settle
variable {α : Type} (bad : List α → α → Bool)

def settle : Nat → List α → List α
  | 0, kept => kept
  | n + 1, kept =>
    if kept.any (bad kept) then settle n (kept.filter fun a => !bad kept a) else kept

/-- No element of the list is objected to by the list itself. -/
def Settled (kept : List α) : Prop := ∀ a ∈ kept, bad kept a = false

variable {bad}

attribute [local simp] settle

theorem settle_sublist (n : Nat) (kept : List α) : (settle bad n kept).Sublist kept := by
  induction n generalizing kept with
  | zero => exact List.Sublist.refl kept
  | succ n ih =>
    rw [settle]
    split
    · exact (ih _).trans List.filter_sublist
    · exact List.Sublist.refl kept

theorem settled_settle {n : Nat} {kept : List α} (h : kept.length ≤ n) :
    Settled bad (settle bad n kept) := by
  induction n generalizing kept with
  | zero =>
    obtain rfl : kept = [] := List.length_eq_zero_iff.mp (Nat.le_zero.mp h)
    exact fun a ha => by cases ha
  | succ n ih =>
    rw [settle]
    split
    · rename_i hany
      obtain ⟨a, ha, hbad⟩ := List.any_eq_true.mp hany
      refine ih (Nat.le_of_lt_succ (Nat.lt_of_lt_of_le ?_ h))
      exact List.length_filter_lt_length_iff_exists.mpr ⟨a, ha, by simp [hbad]⟩
    · rename_i hany
      exact fun a ha => Bool.eq_false_iff.mpr fun hbad => hany (List.any_eq_true.mpr ⟨a, ha, hbad⟩)

theorem settle_eq_of_le {n m : Nat} {kept : List α} (hn : kept.length ≤ n) (hm : kept.length ≤ m) :
    settle bad n kept = settle bad m kept := by
  induction n generalizing kept m with
  | zero =>
    obtain rfl : kept = [] := List.length_eq_zero_iff.mp (Nat.le_zero.mp hn)
    cases m <;> rfl
  | succ n ih =>
    cases m with
    | zero =>
      obtain rfl : kept = [] := List.length_eq_zero_iff.mp (Nat.le_zero.mp hm)
      rfl
    | succ m =>
      rw [settle, settle]
      split
      · rename_i hany
        obtain ⟨a, ha, hbad⟩ := List.any_eq_true.mp hany
        have hlt : (kept.filter fun a => !bad kept a).length < kept.length :=
          List.length_filter_lt_length_iff_exists.mpr ⟨a, ha, by simp [hbad]⟩
        exact ih (by omega) (by omega)
      · rfl

theorem subset_settle (hanti : ∀ s u : List α, s ⊆ u → ∀ a, bad u a = true → bad s a = true)
    {n : Nat} {s kept : List α} (hs : Settled bad s) (hsub : s ⊆ kept) : s ⊆ settle bad n kept := by
  induction n generalizing kept with
  | zero => exact hsub
  | succ n ih =>
    rw [settle]
    split
    · refine ih fun a ha => List.mem_filter.mpr ⟨hsub ha, ?_⟩
      have hgood : bad kept a ≠ true := fun hbad => by simpa [hs a ha] using hanti s kept hsub a hbad
      simpa using hgood
    · exact hsub

theorem mem_settle_iff (hanti : ∀ s u : List α, s ⊆ u → ∀ a, bad u a = true → bad s a = true)
    {kept : List α} {a : α} :
    a ∈ settle bad kept.length kept ↔ ∃ s ⊆ kept, Settled bad s ∧ a ∈ s := by
  constructor
  · intro h
    exact ⟨_, (settle_sublist _ _).subset, settled_settle (Nat.le_refl _), h⟩
  · rintro ⟨s, hsub, hs, ha⟩
    exact subset_settle hanti hs hsub ha

end Settle
end EdgarSec.Lib
