import Mathlib

/-! Bisection for the greatest level that a downward closed test accepts. -/

namespace EdgarSec.Lib

section Bisection
variable (p : Nat → Bool)

def bisect (low high : Nat) : Nat :=
  if low < high then
    let middle := (low + high + 1) / 2
    if p middle then bisect middle high else bisect low (middle - 1)
  else low
termination_by high - low

variable {p} {low high : Nat}

theorem bisect_spec (hle : low ≤ high) (hlow : p low = true) :
    low ≤ bisect p low high ∧ bisect p low high ≤ high ∧ p (bisect p low high) = true := by
  induction hn : high - low using Nat.strong_induction_on generalizing low high with
  | _ n ih =>
    rw [bisect]
    by_cases hlt : low < high
    · rw [if_pos hlt]
      -- the middle lies above `low` and not above `high`
      have hmid : low < (low + high + 1) / 2 ∧ (low + high + 1) / 2 ≤ high := by omega
      by_cases hp : p ((low + high + 1) / 2) = true
      · simp only [hp, if_true]
        have hup := ih (high - (low + high + 1) / 2) (by omega) hmid.2 hp rfl
        exact ⟨by omega, hup.2.1, hup.2.2⟩
      · simp only [hp, Bool.false_eq_true, if_false]
        have hdown := ih ((low + high + 1) / 2 - 1 - low) (by omega) (by omega : low ≤ _) hlow rfl
        exact ⟨hdown.1, by omega, hdown.2.2⟩
    · rw [if_neg hlt]
      exact ⟨le_refl low, hle, hlow⟩

theorem bisect_succ (hdown : ∀ m n, m ≤ n → p n = true → p m = true) (h : bisect p low high < high) :
    p (bisect p low high + 1) = false := by
  induction hn : high - low using Nat.strong_induction_on generalizing low high with
  | _ n ih =>
    rw [bisect] at h ⊢
    by_cases hlt : low < high
    · rw [if_pos hlt] at h ⊢
      have hmid : low < (low + high + 1) / 2 ∧ (low + high + 1) / 2 ≤ high := by omega
      by_cases hp : p ((low + high + 1) / 2) = true
      · simp only [hp, if_true] at h ⊢
        exact ih (high - (low + high + 1) / 2) (by omega) h rfl
      · simp only [hp, Bool.false_eq_true, if_false] at h ⊢
        by_cases hend : bisect p low ((low + high + 1) / 2 - 1) < (low + high + 1) / 2 - 1
        · exact ih ((low + high + 1) / 2 - 1 - low) (by omega) hend rfl
        · -- the search went up to the level below the refused one
          rw [← Bool.not_eq_true]
          intro hsucc
          exact hp (hdown _ _ (by omega) hsucc)
    · rw [if_neg hlt] at h
      exact absurd h hlt

end Bisection
end EdgarSec.Lib
