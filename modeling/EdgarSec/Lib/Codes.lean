import Mathlib.InformationTheory.Coding.UniquelyDecodable

/-! Codes whose words can be cut off the front of a text. -/

namespace EdgarSec.Lib
open InformationTheory

variable {α : Type} {S : Set (List α)}

theorem uniquelyDecodable_of_cut {cut : List α → List α} (hne : [] ∉ S)
    (hcut : ∀ w ∈ S, ∀ rest, cut (w ++ rest) = rest) : UniquelyDecodable S := by
  intro L₁
  induction L₁ with
  | nil =>
    intro L₂ _ hL₂ hflat
    cases L₂ with
    | nil => rfl
    | cons w L₂ =>
      have hempty : w = [] := (List.append_eq_nil_iff.mp hflat.symm).1
      exact absurd (hempty ▸ hL₂ w List.mem_cons_self) hne
  | cons w L₁ ih =>
    intro L₂ hL₁ hL₂ hflat
    have hw := hL₁ w List.mem_cons_self
    cases L₂ with
    | nil =>
      have hempty : w = [] := (List.append_eq_nil_iff.mp hflat).1
      exact absurd (hempty ▸ hw) hne
    | cons w' L₂ =>
      rw [List.flatten_cons, List.flatten_cons] at hflat
      have hrest : L₁.flatten = L₂.flatten := by
        have hread := congrArg cut hflat
        rwa [hcut w hw, hcut w' (hL₂ w' List.mem_cons_self)] at hread
      rw [hrest] at hflat
      have hfirst : w = w' := List.append_cancel_right hflat
      have hothers : L₁ = L₂ := ih L₂ (fun v hv => hL₁ v (List.mem_cons_of_mem w hv))
        (fun v hv => hL₂ v (List.mem_cons_of_mem w' hv)) hrest
      rw [hfirst, hothers]

end EdgarSec.Lib
