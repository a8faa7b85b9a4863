import Mathlib

/-! Searches of a finite graph with a stack: what they have seen when the stack is empty is
what the starting points reach, and a step is spent on every element or edge once. -/

namespace EdgarSec.Lib

section Reach
variable {α : Type} [DecidableEq α] (next : α → List α)

def search : Nat → List α → List α → List α
  | 0, _, seen => seen
  | _ + 1, [], seen => seen
  | n + 1, a :: stack, seen =>
    if a ∈ seen then search n stack seen else search n (next a ++ stack) (a :: seen)

def searchFor (goal : α) : Nat → List α → List α → Bool
  | 0, _, _ => false
  | _ + 1, [], _ => false
  | n + 1, a :: stack, seen =>
    if a ∈ seen then searchFor goal n stack seen
    else if goal ∈ next a then true
    else searchFor goal n (next a ++ stack) (a :: seen)

def flood : Nat → List α → List α → List α
  | 0, _, seen => seen
  | _ + 1, [], seen => seen
  | n + 1, a :: stack, seen =>
    let fresh := (next a).dedup.filter (· ∉ seen)
    flood n (fresh ++ stack) (fresh ++ seen)

def Edge (a b : α) : Prop := b ∈ next a

def ReachedFrom (starts : List α) (b : α) : Prop := ∃ a ∈ starts, Relation.ReflTransGen (Edge next) a b

def Frontier (stack seen : List α) : Prop := ∀ a ∈ seen, ∀ b ∈ next a, b ∈ seen ∨ b ∈ stack

variable {next} {stack seen : List α} {a b : α} {n : Nat}

omit [DecidableEq α] in
theorem mem_of_reached_closed (h : Frontier next [] seen) (ha : a ∈ seen)
    (hab : Relation.ReflTransGen (Edge next) a b) : b ∈ seen := by
  induction hab with
  | refl => exact ha
  | tail _ hedge ih =>
    rcases h _ ih _ hedge with hmem | hmem
    · exact hmem
    · cases hmem

omit [DecidableEq α] in
theorem Frontier.pop_seen (h : Frontier next (a :: stack) seen) (ha : a ∈ seen) :
    Frontier next stack seen := by
  intro x hx b hb
  rcases h x hx b hb with hmem | hmem
  · exact Or.inl hmem
  · rcases List.mem_cons.mp hmem with rfl | hmem
    · exact Or.inl ha
    · exact Or.inr hmem

omit [DecidableEq α] in
theorem Frontier.visit (h : Frontier next (a :: stack) seen) :
    Frontier next (next a ++ stack) (a :: seen) := by
  intro x hx b hb
  rcases List.mem_cons.mp hx with rfl | hx
  · exact Or.inr (List.mem_append_left _ hb)
  · rcases h x hx b hb with hmem | hmem
    · exact Or.inl (List.mem_cons_of_mem _ hmem)
    · rcases List.mem_cons.mp hmem with rfl | hmem
      · exact Or.inl List.mem_cons_self
      · exact Or.inr (List.mem_append_right _ hmem)

/-! ## Steps -/

section Steps
variable {univ : List α}

def edgesLeft (next : α → List α) (univ seen : List α) : Nat :=
  ((univ.filter (· ∉ seen)).map fun a => (next a).length).sum

theorem edgesLeft_visit (hnodup : univ.Nodup) (ha : a ∈ univ) (hseen : a ∉ seen) :
    edgesLeft next univ seen = (next a).length + edgesLeft next univ (a :: seen) := by
  unfold edgesLeft
  have hfilter : (univ.filter (· ∉ seen)).Perm (a :: univ.filter (· ∉ a :: seen)) := by
    rw [List.perm_ext_iff_of_nodup (hnodup.filter _)]
    · intro x
      by_cases hx : x = a
      · simp [hx, ha, hseen]
      · simp [hx]
    · rw [List.nodup_cons]
      exact ⟨by simp, hnodup.filter _⟩
  have hsum := (hfilter.map fun a => (next a).length).sum_eq
  rwa [List.map_cons, List.sum_cons] at hsum

end Steps

/-! ## What is found -/

section Found
variable {univ : List α} (hnodup : univ.Nodup) (hclosed : ∀ a ∈ univ, ∀ b ∈ next a, b ∈ univ)
include hnodup hclosed

theorem mem_search_iff (hstack : ∀ a ∈ stack, a ∈ univ) (h : Frontier next stack seen)
    (hn : stack.length + edgesLeft next univ seen ≤ n) :
    b ∈ search next n stack seen ↔ ReachedFrom next (seen ++ stack) b := by
  induction n generalizing stack seen with
  | zero =>
    obtain rfl : stack = [] := List.length_eq_zero_iff.mp (by omega)
    rw [search, List.append_nil]
    constructor
    · exact fun hb => ⟨b, hb, .refl⟩
    · intro ⟨a, ha, hab⟩
      exact mem_of_reached_closed h ha hab
  | succ n ih =>
    cases stack with
    | nil =>
      rw [search, List.append_nil]
      constructor
      · exact fun hb => ⟨b, hb, .refl⟩
      · intro ⟨a, ha, hab⟩
        exact mem_of_reached_closed h ha hab
    | cons a stack =>
      rw [search]
      have hrest : ∀ x ∈ stack, x ∈ univ := fun x hx => hstack x (List.mem_cons_of_mem _ hx)
      rw [List.length_cons] at hn
      split
      · rename_i ha
        rw [ih hrest (h.pop_seen ha) (by omega)]
        apply exists_congr
        intro x
        have hsame : x ∈ seen ++ stack ↔ x ∈ seen ++ a :: stack := by
          simp only [List.mem_append, List.mem_cons]
          constructor
          · rintro (hx | hx)
            · exact Or.inl hx
            · exact Or.inr (Or.inr hx)
          · rintro (hx | rfl | hx)
            · exact Or.inl hx
            · exact Or.inl ha
            · exact Or.inr hx
        rw [hsame]
      · rename_i ha
        have hauniv := hstack a List.mem_cons_self
        have hleft := @edgesLeft_visit _ _ next seen a univ hnodup hauniv ha
        rw [ih ?_ h.visit ?_]
        · constructor
          · intro ⟨x, hx, hxb⟩
            rcases List.mem_append.mp hx with hx | hx
            · rcases List.mem_cons.mp hx with rfl | hx
              · exact ⟨x, List.mem_append_right _ List.mem_cons_self, hxb⟩
              · exact ⟨x, List.mem_append_left _ hx, hxb⟩
            · rcases List.mem_append.mp hx with hx | hx
              · refine ⟨a, List.mem_append_right _ List.mem_cons_self, ?_⟩
                exact Relation.ReflTransGen.head hx hxb
              · exact ⟨x, List.mem_append_right _ (List.mem_cons_of_mem _ hx), hxb⟩
          · intro ⟨x, hx, hxb⟩
            rcases List.mem_append.mp hx with hx | hx
            · exact ⟨x, List.mem_append_left _ (List.mem_cons_of_mem _ hx), hxb⟩
            · rcases List.mem_cons.mp hx with rfl | hx
              · exact ⟨x, List.mem_append_left _ List.mem_cons_self, hxb⟩
              · exact ⟨x, List.mem_append_right _ (List.mem_append_right _ hx), hxb⟩
        · intro x hx
          rcases List.mem_append.mp hx with hx | hx
          · exact hclosed a hauniv x hx
          · exact hrest x hx
        · rw [List.length_append]
          omega

end Found

theorem searchFor_eq_any {goal : α} (h : ∀ a ∈ seen, goal ∉ next a) :
    searchFor next goal n stack seen = (search next n stack seen).any fun a => goal ∈ next a := by
  have hnone : seen.any (fun a => decide (goal ∈ next a)) = false := by
    rw [List.any_eq_false]
    intro a ha
    simpa using h a ha
  have hkeep : ∀ {n : Nat} {stack seen : List α} {a : α}, a ∈ seen → a ∈ search next n stack seen := by
    intro n
    induction n with
    | zero => exact fun ha => ha
    | succ n ih =>
      intro stack seen a ha
      cases stack with
      | nil => exact ha
      | cons x stack =>
        rw [search]
        split
        · exact ih ha
        · exact ih (List.mem_cons_of_mem _ ha)
  induction n generalizing stack seen with
  | zero => rw [searchFor, search, hnone]
  | succ n ih =>
    cases stack with
    | nil => rw [searchFor, search, hnone]
    | cons a stack =>
      rw [searchFor, search]
      split
      · exact ih h hnone
      · split
        · rename_i hgoal
          symm
          rw [List.any_eq_true]
          exact ⟨a, hkeep List.mem_cons_self, decide_eq_true hgoal⟩
        · rename_i hgoal
          have hseen : ∀ x ∈ a :: seen, goal ∉ next x := by
            intro x hx
            rcases List.mem_cons.mp hx with rfl | hx
            · exact hgoal
            · exact h x hx
          refine ih hseen ?_
          rw [List.any_eq_false]
          intro x hx
          simpa using hseen x hx

/-! ## Flooding -/

section Flooding
variable {univ : List α} (hnodup : univ.Nodup) (hclosed : ∀ a ∈ univ, ∀ b ∈ next a, b ∈ univ)

theorem filter_append_length (hnodup : univ.Nodup) {fresh : List α} (hfresh : fresh.Nodup)
    (huniv : ∀ a ∈ fresh, a ∈ univ) (hseen : ∀ a ∈ fresh, a ∉ seen) :
    (univ.filter (· ∉ seen)).length = fresh.length + (univ.filter (· ∉ fresh ++ seen)).length := by
  have hperm : (univ.filter (· ∉ seen)).Perm (fresh ++ univ.filter (· ∉ fresh ++ seen)) := by
    rw [List.perm_ext_iff_of_nodup (hnodup.filter _)]
    · intro x
      by_cases hx : x ∈ fresh
      · simp [hx, huniv x hx, hseen x hx]
      · simp [hx]
    · rw [List.nodup_append]
      refine ⟨hfresh, hnodup.filter _, ?_⟩
      rintro x hx y hy rfl
      have hout := of_decide_eq_true (List.mem_filter.mp hy).2
      exact hout (List.mem_append_left _ hx)
  rw [hperm.length_eq, List.length_append]

include hnodup hclosed

theorem mem_flood_iff (hseen : ∀ a ∈ seen, a ∈ univ) (hstack : ∀ a ∈ stack, a ∈ seen)
    (h : ∀ a ∈ seen, a ∉ stack → ∀ b ∈ next a, b ∈ seen)
    (hn : stack.length + (univ.filter (· ∉ seen)).length ≤ n) :
    b ∈ flood next n stack seen ↔ ReachedFrom next seen b := by
  have hdone : ∀ {seen : List α}, (∀ a ∈ seen, ∀ b ∈ next a, b ∈ seen) →
      (b ∈ seen ↔ ReachedFrom next seen b) := by
    intro seen hall
    constructor
    · exact fun hb => ⟨b, hb, .refl⟩
    · intro ⟨a, ha, hab⟩
      exact mem_of_reached_closed (fun x hx y hy => Or.inl (hall x hx y hy)) ha hab
  induction n generalizing stack seen with
  | zero =>
    obtain rfl : stack = [] := List.length_eq_zero_iff.mp (by omega)
    exact hdone fun a ha => h a ha List.not_mem_nil
  | succ n ih =>
    cases stack with
    | nil => exact hdone fun a ha => h a ha List.not_mem_nil
    | cons a stack =>
      have ha := hstack a List.mem_cons_self
      have hfresh : ∀ x, x ∈ (next a).dedup.filter (· ∉ seen) ↔ x ∈ next a ∧ x ∉ seen := by
        simp
      rw [flood]
      refine (ih ?_ ?_ ?_ ?_).trans ?_
      · intro x hx
        rcases List.mem_append.mp hx with hx | hx
        · exact hclosed a (hseen a ha) x ((hfresh x).mp hx).1
        · exact hseen x hx
      · intro x hx
        rcases List.mem_append.mp hx with hx | hx
        · exact List.mem_append_left _ hx
        · exact List.mem_append_right _ (hstack x (List.mem_cons_of_mem _ hx))
      · intro x hx hout y hy
        rcases List.mem_append.mp hx with hx | hx
        · exact absurd (List.mem_append_left _ hx) hout
        · by_cases hxa : x = a
          · rw [hxa] at hy
            by_cases hys : y ∈ seen
            · exact List.mem_append_right _ hys
            · exact List.mem_append_left _ ((hfresh y).mpr ⟨hy, hys⟩)
          · refine List.mem_append_right _ (h x hx (fun hin => ?_) y hy)
            rcases List.mem_cons.mp hin with hin | hin
            · exact hxa hin
            · exact hout (List.mem_append_right _ hin)
      · have hlen := @filter_append_length _ _ seen univ hnodup ((next a).dedup.filter (· ∉ seen))
          ((List.nodup_dedup _).filter _)
          (fun x hx => hclosed a (hseen a ha) x ((hfresh x).mp hx).1) (fun x hx => ((hfresh x).mp hx).2)
        rw [List.length_cons] at hn
        rw [List.length_append]
        omega
      · constructor
        · intro ⟨x, hx, hxb⟩
          rcases List.mem_append.mp hx with hx | hx
          · exact ⟨a, ha, Relation.ReflTransGen.head ((hfresh x).mp hx).1 hxb⟩
          · exact ⟨x, hx, hxb⟩
        · intro ⟨x, hx, hxb⟩
          exact ⟨x, List.mem_append_right _ hx, hxb⟩

end Flooding
end Reach

/-! ## Maximal elements of a list -/

section Topmost
variable {α : Type} [DecidableEq α] {r : α → α → Prop} [DecidableRel r] {l : List α}

def Topmost (r : α → α → Prop) (l : List α) (a : α) : Prop := ∀ b ∈ l, b ≠ a → ¬ r a b

/-- Two elements above each other have a third one strictly above. -/
def CyclesCovered (r : α → α → Prop) (l : List α) : Prop :=
  ∀ a ∈ l, ∀ b ∈ l, a ≠ b → r a b → r b a → ∃ c ∈ l, r a c ∧ ¬ r c a

theorem exists_topmost_above (htrans : ∀ a b c, r a b → r b c → r a c) (h : CyclesCovered r l)
    {a b : α} (hb : b ∈ l) (hne : b ≠ a) (hab : r a b) :
    ∃ k ∈ l, Topmost r l k ∧ r a k := by
  -- as long as something is strictly above, climb
  induction hn : l.countP (fun c => r b c ∧ ¬ r c b) using Nat.strong_induction_on generalizing b with
  | _ n ih =>
    have hclimb : ∀ c ∈ l, r b c → ¬ r c b → ∃ k ∈ l, Topmost r l k ∧ r a k := by
      intro c hc hbc hcb
      by_cases hca : c = a
      · exact absurd (hca ▸ hab) hcb
      · refine ih _ ?_ hc hca (htrans _ _ _ hab hbc) rfl
        rw [← hn, List.countP_eq_length_filter, List.countP_eq_length_filter]
        have hup : ∀ d, r c d ∧ ¬ r d c → r b d ∧ ¬ r d b := by
          intro d ⟨hcd, hdc⟩
          exact ⟨htrans _ _ _ hbc hcd, fun hdb => hdc (htrans _ _ _ hdb hbc)⟩
        have hsub : l.filter (fun d => r c d ∧ ¬ r d c) =
            (l.filter fun d => r b d ∧ ¬ r d b).filter fun d => r c d ∧ ¬ r d c := by
          rw [List.filter_filter]
          apply List.filter_congr
          intro d _
          by_cases hcd : r c d ∧ ¬ r d c
          · simp [hcd, hup d hcd]
          · simp [hcd]
        rw [hsub]
        refine List.length_filter_lt_length_iff_exists.mpr ⟨c, ?_, ?_⟩
        · exact List.mem_filter.mpr ⟨hc, decide_eq_true ⟨hbc, hcb⟩⟩
        · simp
    by_cases hmax : Topmost r l b
    · exact ⟨b, hb, hmax, hab⟩
    · unfold Topmost at hmax
      push Not at hmax
      obtain ⟨c, hc, hcb, hbc⟩ := hmax
      by_cases hback : r c b
      · obtain ⟨d, hd, hbd, hdb⟩ := h b hb c hc hcb.symm hbc hback
        exact hclimb d hd hbd hdb
      · exact hclimb c hc hbc hback

theorem topmost_cover_iff (htrans : ∀ a b c, r a b → r b c → r a c) :
    (∀ a ∈ l, ¬ Topmost r l a → ∃ k ∈ l, Topmost r l k ∧ r a k) ↔ CyclesCovered r l := by
  constructor
  · intro hcover a ha b hb hne hab hba
    have hnot : ¬ Topmost r l a := fun hmax => hmax b hb hne.symm hab
    obtain ⟨k, hk, hmax, hak⟩ := hcover a ha hnot
    refine ⟨k, hk, hak, fun hka => ?_⟩
    have hka' : a ≠ k := fun heq => hnot (heq ▸ hmax)
    exact hmax a ha hka' hka
  · intro h a ha hnot
    unfold Topmost at hnot
    push Not at hnot
    obtain ⟨b, hb, hne, hab⟩ := hnot
    exact exists_topmost_above htrans h hb hne hab

end Topmost
end EdgarSec.Lib
