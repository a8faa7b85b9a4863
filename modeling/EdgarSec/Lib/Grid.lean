import Mathlib

/-! Rows of slots, not all of one length: what stands in a slot, filling a rectangle, and
padding to one width. -/

namespace EdgarSec.Lib

variable {α : Type}

abbrev Grid (α : Type) := List (List (Option α))

def slot (g : Grid α) (r c : Nat) : Option α := (g[r]?.bind fun row => row[c]?.join)

/-- `while len(l) < n: l.append(a)` -/
def padTo {β : Type} (n : Nat) (a : β) (l : List β) : List β := l ++ List.replicate (n - l.length) a

/-- The first place from `start` on that does not satisfy `p`; the end of the list does not. -/
def skipWhile {β : Type} (p : β → Bool) (l : List β) (start : Nat) : Nat :=
  start + ((l.drop start).takeWhile p).length

/-- `a` in every slot of a row from `first` to before `last`. -/
def fillRow (first last : Nat) (a : α) (row : List (Option α)) : List (Option α) :=
  (padTo last none row).mapIdx fun c s => if first ≤ c ∧ c < last then some a else s

/-- `a` in every slot of the rectangle. -/
def fill (top bottom first last : Nat) (a : α) (g : Grid α) : Grid α :=
  (padTo bottom [] g).mapIdx fun r row => if top ≤ r ∧ r < bottom then fillRow first last a row else row

/-! ## Padding -/

theorem length_padTo {β : Type} {a : β} {l : List β} (n : Nat) :
    (padTo n a l).length = max l.length n := by
  rw [padTo, List.length_append, List.length_replicate]
  omega

theorem getElem?_padTo {β : Type} {a : β} {l : List β} (n i : Nat) :
    (padTo n a l)[i]? = if i < l.length then l[i]? else if i < n then some a else none := by
  rw [padTo, List.getElem?_append]
  split
  · rfl
  · rename_i hi
    rw [List.getElem?_replicate]
    split
    · rw [if_pos (by omega)]
    · rw [if_neg (by omega)]

theorem join_getElem?_padTo (row : List (Option α)) (n c : Nat) :
    (padTo n none row)[c]?.join = row[c]?.join := by
  rw [getElem?_padTo]
  split
  · rfl
  · rename_i hc
    rw [List.getElem?_eq_none (not_lt.mp hc)]
    split <;> rfl

theorem slot_map_padTo (n : Nat) (g : Grid α) (r c : Nat) :
    slot (g.map (padTo n none)) r c = slot g r c := by
  rw [slot, slot, List.getElem?_map]
  cases g[r]? with
  | none => rfl
  | some row => exact join_getElem?_padTo row n c

/-! ## Filling -/

theorem join_getElem?_fillRow (first last : Nat) (a : α) (row : List (Option α)) (c : Nat) :
    (fillRow first last a row)[c]?.join =
      if first ≤ c ∧ c < last then some a else row[c]?.join := by
  rw [← join_getElem?_padTo row last c, fillRow, List.getElem?_mapIdx]
  by_cases hc : c < (padTo last none row).length
  · rw [List.getElem?_eq_getElem hc]
    simp only [Option.map_some, Option.join_some]
  · -- a slot past the padded row is past the rectangle too
    have hout : ¬ (first ≤ c ∧ c < last) := by
      rw [length_padTo] at hc
      omega
    rw [List.getElem?_eq_none (not_lt.mp hc), if_neg hout]
    rfl

theorem slot_padTo (n : Nat) (g : Grid α) (r c : Nat) : slot (padTo n [] g) r c = slot g r c := by
  rw [slot, slot, getElem?_padTo]
  split
  · rfl
  · rename_i hr
    rw [List.getElem?_eq_none (not_lt.mp hr)]
    split <;> rfl

theorem slot_fill (top bottom first last : Nat) (a : α) (g : Grid α) (r c : Nat) :
    slot (fill top bottom first last a g) r c =
      if (top ≤ r ∧ r < bottom) ∧ first ≤ c ∧ c < last then some a else slot g r c := by
  rw [← slot_padTo bottom g, slot, slot, fill, List.getElem?_mapIdx]
  by_cases hr : r < (padTo bottom [] g).length
  · rw [List.getElem?_eq_getElem hr]
    simp only [Option.map_some, Option.bind_some]
    by_cases hin : top ≤ r ∧ r < bottom
    · rw [if_pos hin, join_getElem?_fillRow]
      simp only [hin, true_and, and_self]
    · rw [if_neg hin, if_neg fun h => hin h.1]
  · have hout : ¬ (top ≤ r ∧ r < bottom) := by
      rw [length_padTo] at hr
      omega
    rw [List.getElem?_eq_none (not_lt.mp hr), if_neg fun h => hout h.1]
    rfl

/-! ## The first place -/

section Skipping
variable {β : Type} {p : β → Bool}

theorem not_of_getElem?_takeWhile {m : List β} {b : β}
    (h : m[(m.takeWhile p).length]? = some b) : p b = false := by
  induction m with
  | nil => cases h
  | cons a m ih =>
    cases hp : p a with
    | true =>
      rw [List.takeWhile_cons_of_pos hp, List.length_cons, List.getElem?_cons_succ] at h
      exact ih h
    | false =>
      rw [List.takeWhile_cons_of_neg (by simp [hp])] at h
      exact Option.some.inj h ▸ hp

theorem exists_of_lt_takeWhile {m : List β} {i : Nat} (h : i < (m.takeWhile p).length) :
    ∃ b, m[i]? = some b ∧ p b = true := by
  have hsame : m[i]? = some (m.takeWhile p)[i] :=
    List.prefix_iff_getElem?.mp (List.takeWhile_prefix p) i h
  exact ⟨_, hsame, List.mem_takeWhile_imp (List.getElem_mem h)⟩

variable {l : List β} {start : Nat}

theorem le_skipWhile : start ≤ skipWhile p l start := Nat.le_add_right _ _

theorem skipWhile_stop {b : β} (h : l[skipWhile p l start]? = some b) : p b = false := by
  rw [skipWhile, ← List.getElem?_drop] at h
  exact not_of_getElem?_takeWhile h

theorem skipWhile_pass {i : Nat} (hstart : start ≤ i) (hi : i < skipWhile p l start) :
    ∃ b, l[i]? = some b ∧ p b = true := by
  obtain ⟨d, rfl⟩ := Nat.exists_eq_add_of_le hstart
  rw [skipWhile] at hi
  rw [← List.getElem?_drop]
  exact exists_of_lt_takeWhile (by omega)

theorem skipWhile_le {γ : Type} {q : γ → Bool} {m : List γ}
    (h : ∀ i : Nat, (∃ b, l[i]? = some b ∧ p b = true) → ∃ b, m[i]? = some b ∧ q b = true) :
    skipWhile p l start ≤ skipWhile q m start := by
  by_contra hlt
  obtain ⟨b, hb, hq⟩ := h _ (skipWhile_pass le_skipWhile (not_le.mp hlt))
  rw [skipWhile_stop hb] at hq
  cases hq

theorem skipWhile_congr {γ : Type} {q : γ → Bool} {m : List γ}
    (h : ∀ i : Nat, (∃ b, l[i]? = some b ∧ p b = true) ↔ ∃ b, m[i]? = some b ∧ q b = true) :
    skipWhile p l start = skipWhile q m start :=
  le_antisymm (skipWhile_le fun i => (h i).mp) (skipWhile_le fun i => (h i).mpr)

end Skipping

end EdgarSec.Lib
