import Mathlib

/-! Sweeps over a list with a rule that adds elements to a set. A rule that a larger set never
stops adds at least one level in a sweep, and in an order from the highest level down it adds
exactly one. -/

namespace EdgarSec.Lib

theorem foldl_repeated {α σ : Type} {f : σ → α → σ} {order : List α} {s : σ} (n : ℕ) :
    (List.replicate n order).flatten.foldl f s = (fun s => order.foldl f s)^[n] s := by
  induction n generalizing s with
  | zero => rfl
  | succ n ih =>
    rw [List.replicate_succ, List.flatten_cons, List.foldl_append, ih]
    rfl

section Sweeps
variable {α : Type} (fires : Set α → α → Prop)

def tryOn (s : Set α) (a : α) : Set α := s ∪ {b | b = a ∧ fires s a}

def sweep (order : List α) (s : Set α) : Set α := order.foldl (tryOn fires) s

/-- What the rule adds when it is tried on all of `univ` at once, `n` times. -/
def level (univ s : Set α) : ℕ → Set α
  | 0 => s
  | n + 1 => level univ s n ∪ {a | a ∈ univ ∧ fires (level univ s n) a}

variable {fires} {univ s t : Set α} {order : List α} {a : α} {n m : ℕ}

theorem subset_tryOn : s ⊆ tryOn fires s a := Set.subset_union_left

theorem subset_sweep : s ⊆ sweep fires order s := by
  induction order generalizing s with
  | nil => exact subset_rfl
  | cons a order ih => exact subset_tryOn.trans ih

theorem level_mono (h : n ≤ m) : level fires univ s n ⊆ level fires univ s m := by
  induction m, h using Nat.le_induction with
  | base => exact subset_rfl
  | succ m _ ih => exact ih.trans Set.subset_union_left

section Monotone
variable (hmono : ∀ s t a, s ⊆ t → fires s a → fires t a)
include hmono

theorem mem_sweep_of_fires (ha : a ∈ order) (h : fires s a) : a ∈ sweep fires order s := by
  induction order generalizing s with
  | nil => exact absurd ha List.not_mem_nil
  | cons b order ih =>
    rcases List.mem_cons.mp ha with rfl | ha
    · show a ∈ sweep fires order (tryOn fires s a)
      exact subset_sweep (Or.inr ⟨rfl, h⟩)
    · exact ih ha (hmono _ _ _ subset_tryOn h)

theorem level_subset_sweeps (horder : ∀ a ∈ univ, a ∈ order) :
    level fires univ s n ⊆ (sweep fires order)^[n] s := by
  induction n with
  | zero => exact subset_rfl
  | succ n ih =>
    rw [Function.iterate_succ_apply']
    rintro a (ha | ⟨ha, hfires⟩)
    · exact subset_sweep (ih ha)
    · exact mem_sweep_of_fires hmono (horder a ha) (hmono _ _ _ ih hfires)

theorem sweep_subset_of_closed (horder : ∀ a ∈ order, a ∈ univ)
    (hclosed : ∀ a ∈ univ, fires t a → a ∈ t) (h : s ⊆ t) : sweep fires order s ⊆ t := by
  induction order generalizing s with
  | nil => exact h
  | cons b order ih =>
    refine ih (fun a ha => horder a (List.mem_cons_of_mem b ha)) ?_
    rintro a (ha | ⟨rfl, hfires⟩)
    · exact h ha
    · exact hclosed a (horder a List.mem_cons_self) (hmono _ _ _ h hfires)

theorem sweeps_subset_level (horder : ∀ a ∈ order, a ∈ univ)
    (hfull : level fires univ s (n + 1) ⊆ level fires univ s n) :
    (sweep fires order)^[m] s ⊆ level fires univ s n := by
  induction m with
  | zero => exact level_mono (Nat.zero_le n)
  | succ m ih =>
    rw [Function.iterate_succ_apply']
    exact sweep_subset_of_closed hmono horder (fun a ha hfires => hfull (Or.inr ⟨ha, hfires⟩)) ih

theorem sweep_level (hmem : ∀ a ∈ order, a ∈ univ) (hall : ∀ a ∈ univ, a ∈ order)
    (hlate : order.Pairwise fun a b => a ∈ level fires univ s (n + 1) →
      b ∉ level fires univ s (n + 1) → a ∈ level fires univ s n) :
    sweep fires order (level fires univ s n) = level fires univ s (n + 1) := by
  apply Set.Subset.antisymm
  · -- nothing is added while elements outside are still to come
    have hsub : ∀ order' : List α, (∀ a ∈ order', a ∈ univ) →
        (order'.Pairwise fun a b => a ∈ level fires univ s (n + 1) →
          b ∉ level fires univ s (n + 1) → a ∈ level fires univ s n) →
        ∀ t, t ⊆ level fires univ s (n + 1) →
        ((∃ b ∈ order', b ∉ level fires univ s (n + 1)) → t = level fires univ s n) →
        sweep fires order' t ⊆ level fires univ s (n + 1) := by
      intro order' hmem hlate
      induction order' with
      | nil => exact fun t ht _ => ht
      | cons a order' ih =>
        intro t ht hnone
        obtain ⟨hfirst, hlate⟩ := List.pairwise_cons.mp hlate
        apply ih (fun b hb => hmem b (List.mem_cons_of_mem a hb)) hlate
        · by_cases ha : a ∈ level fires univ s (n + 1)
          · rintro b (hb | ⟨rfl, _⟩)
            · exact ht hb
            · exact ha
          · have hsame := hnone ⟨a, List.mem_cons_self, ha⟩
            rintro b (hb | ⟨rfl, hfires⟩)
            · exact ht hb
            · rw [hsame] at hfires
              exact Or.inr ⟨hmem b List.mem_cons_self, hfires⟩
        · rintro ⟨b, hb, hout⟩
          have hsame := hnone ⟨b, List.mem_cons_of_mem a hb, hout⟩
          rw [hsame]
          refine Set.Subset.antisymm ?_ subset_tryOn
          rintro c (hc | ⟨rfl, hfires⟩)
          · exact hc
          · exact hfirst b hb (Or.inr ⟨hmem c List.mem_cons_self, hfires⟩) hout
    exact hsub order hmem hlate _ Set.subset_union_left fun _ => rfl
  · rintro a (ha | ⟨ha, hfires⟩)
    · exact subset_sweep ha
    · exact mem_sweep_of_fires hmono (hall a ha) hfires

theorem exists_slow_order (l : List α) (s : Set α) (n : ℕ) :
    ∃ order, order.Perm l ∧ ∀ k ≤ n, (sweep fires order)^[k] s = level fires {a | a ∈ l} s k := by
  classical
  -- the number of levels an element is not in, among those that count
  let rank : α → ℕ := fun a => ((Finset.range (n + 1)).filter fun k => a ∉ level fires {a | a ∈ l} s k).card
  have hrank : ∀ k ≤ n, ∀ a, a ∈ level fires {a | a ∈ l} s k ↔ rank a ≤ k := by
    intro k hk a
    constructor
    · intro ha
      have hsub : ((Finset.range (n + 1)).filter fun j => a ∉ level fires {a | a ∈ l} s j) ⊆
          Finset.range k := by
        intro j hj
        obtain ⟨_, hout⟩ := Finset.mem_filter.mp hj
        by_contra hle
        rw [Finset.mem_range, not_lt] at hle
        exact hout (level_mono hle ha)
      exact (Finset.card_le_card hsub).trans_eq (Finset.card_range k)
    · intro hle
      by_contra hout
      have hsub : Finset.range (k + 1) ⊆
          (Finset.range (n + 1)).filter fun j => a ∉ level fires {a | a ∈ l} s j := by
        intro j hj
        rw [Finset.mem_range] at hj
        rw [Finset.mem_filter, Finset.mem_range]
        exact ⟨hj.trans_le (Nat.succ_le_succ hk), fun hin => hout (level_mono (Nat.lt_succ_iff.mp hj) hin)⟩
      have hcard := Finset.card_le_card hsub
      rw [Finset.card_range] at hcard
      exact absurd (hcard.trans hle) (Nat.not_succ_le_self k)
  let order := l.insertionSort fun a b => rank b ≤ rank a
  have hperm : order.Perm l := List.perm_insertionSort _ l
  have hsorted : order.Pairwise fun a b => rank b ≤ rank a := by
    have htotal : Std.Total fun a b : α => rank b ≤ rank a := ⟨fun a b => le_total (rank b) (rank a)⟩
    have htrans : IsTrans α fun a b => rank b ≤ rank a := ⟨fun a b c hab hbc => hbc.trans hab⟩
    exact List.pairwise_insertionSort _ l
  refine ⟨order, hperm, fun k => ?_⟩
  induction k with
  | zero => exact fun _ => rfl
  | succ k ih =>
    intro hk
    rw [Function.iterate_succ_apply', ih (Nat.le_of_succ_le hk)]
    apply sweep_level hmono
    · exact fun a ha => hperm.mem_iff.mp ha
    · exact fun a ha => hperm.mem_iff.mpr ha
    · refine hsorted.imp fun {a b} hle ha hb => ?_
      rw [hrank _ hk] at ha hb
      exact absurd (hle.trans ha) hb

end Monotone
end Sweeps
end EdgarSec.Lib
