import Mathlib

/-! Histories numbered from one without gaps. -/

namespace EdgarSec.Lib

def Numbered (numbers : List Int) : Prop :=
  numbers = (List.range numbers.length).map fun (i : Nat) => (i : Int) + 1

namespace Numbered
variable {numbers : List Int} {n : Int}

theorem nil : Numbered [] := rfl

theorem concat (h : Numbered numbers) : Numbered (numbers ++ [(numbers.length : Int) + 1]) := by
  unfold Numbered at h ⊢
  rw [List.length_append, List.length_singleton, List.range_succ, List.map_append, ← h]
  rfl

theorem mem_iff (h : Numbered numbers) : n ∈ numbers ↔ 1 ≤ n ∧ n ≤ numbers.length := by
  have hmem : n ∈ numbers ↔ ∃ i < numbers.length, (i : Int) + 1 = n := by
    conv_lhs => rw [h]
    simp only [List.mem_map, List.mem_range]
  rw [hmem]
  constructor
  · rintro ⟨i, hi, rfl⟩
    omega
  · rintro ⟨hone, hle⟩
    exact ⟨(n - 1).toNat, by omega, by omega⟩

theorem min_eq_one (h : Numbered numbers) (hn : numbers.min? = some n) : n = 1 := by
  rw [List.min?_eq_some_iff] at hn
  obtain ⟨hmem, hle⟩ := hn
  have hbounds := h.mem_iff.mp hmem
  have hone := hle 1 (h.mem_iff.mpr ⟨le_rfl, by omega⟩)
  omega

theorem max_eq_length (h : Numbered numbers) (hn : numbers.max? = some n) :
    n = numbers.length := by
  rw [List.max?_eq_some_iff] at hn
  obtain ⟨hmem, hle⟩ := hn
  have hbounds := h.mem_iff.mp hmem
  have hlast := hle numbers.length (h.mem_iff.mpr ⟨by omega, le_rfl⟩)
  omega

end Numbered
end EdgarSec.Lib
