import Mathlib

/-! Level-by-level unfolding of a finitely branching step, the way a recursive query
fills its queue. The unfolding ends exactly when no cycle is reachable, and then within
as many rounds as there are elements to reach. -/

namespace EdgarSec.Lib

section Levels
variable {α : Type} (step : α → List α)

/-- The nonempty levels from a frontier, when at most `n` of them are nonempty. -/
def levels : Nat → List α → Option (List (List α))
  | _, [] => some []
  | 0, _ :: _ => none
  | n + 1, a :: rest => (levels n ((a :: rest).flatMap step)).map ((a :: rest) :: ·)

/-- What is reached in exactly `k` steps. -/
def levelAt : Nat → List α → List α
  | 0, l => l
  | k + 1, l => levelAt k (l.flatMap step)

variable {step}

attribute [local simp] levels levelAt

theorem levelAt_nil (k : Nat) : levelAt step k [] = [] := by
  induction k with
  | zero => rfl
  | succ k ih => exact ih

theorem levels_isSome_iff (n : Nat) (l : List α) :
    (levels step n l).isSome ↔ levelAt step n l = [] := by
  induction n generalizing l with
  | zero => cases l <;> simp [levels, levelAt]
  | succ n ih =>
    cases l with
    | nil => simp [levels, levelAt_nil]
    | cons a rest => simpa [levels, levelAt] using ih ((a :: rest).flatMap step)

theorem levels_mono {n m : Nat} {l : List α} {ls : List (List α)} (h : levels step n l = some ls)
    (hnm : n ≤ m) : levels step m l = some ls := by
  induction n generalizing m l ls with
  | zero =>
    cases l with
    | nil => cases m <;> simpa [levels] using h
    | cons a rest => simp [levels] at h
  | succ n ih =>
    obtain ⟨m, rfl⟩ : ∃ k, m = k + 1 := ⟨m - 1, by omega⟩
    cases l with
    | nil => simpa [levels] using h
    | cons a rest =>
      simp only [levels, Option.map_eq_some_iff] at h ⊢
      obtain ⟨ls, hls, rfl⟩ := h
      exact ⟨ls, ih hls (by omega), rfl⟩

theorem levels_cases {n : Nat} {l : List α} {ls : List (List α)} (h : levels step n l = some ls) :
    (l = [] ∧ ls = []) ∨
      ∃ m ls', n = m + 1 ∧ levels step m (l.flatMap step) = some ls' ∧ ls = l :: ls' := by
  cases l with
  | nil =>
    rw [levels] at h
    exact Or.inl ⟨rfl, (Option.some.inj h).symm⟩
  | cons a rest =>
    cases n with
    | zero => cases h
    | succ m =>
      obtain ⟨ls', hls', rfl⟩ := Option.map_eq_some_iff.mp h
      exact Or.inr ⟨m, ls', rfl, hls', rfl⟩

theorem mem_flatten_of_levels {n : Nat} {l : List α} {ls : List (List α)}
    (h : levels step n l = some ls) {a : α} (ha : a ∈ l) : a ∈ ls.flatten := by
  rcases levels_cases h with ⟨rfl, _⟩ | ⟨_, ls', _, _, rfl⟩
  · simp at ha
  · exact List.mem_flatten.mpr ⟨l, List.mem_cons_self, ha⟩

theorem step_mem_flatten_of_levels {n : Nat} {l : List α} {ls : List (List α)}
    (h : levels step n l = some ls) {a b : α} (ha : a ∈ ls.flatten) (hb : b ∈ step a) :
    b ∈ ls.flatten := by
  induction ls generalizing n l with
  | nil => simp at ha
  | cons l' ls' ih =>
    rcases levels_cases h with ⟨_, hnil⟩ | ⟨m, ls'', rfl, h', heq⟩
    · cases hnil
    · obtain ⟨rfl, rfl⟩ := List.cons.inj heq
      rw [List.flatten_cons, List.mem_append] at ha ⊢
      rcases ha with ha | ha
      · exact Or.inr (mem_flatten_of_levels h' (List.mem_flatMap.mpr ⟨a, ha, hb⟩))
      · exact Or.inr (ih h' ha)

theorem levels_induction {P : α → Prop} {n : Nat} {l : List α} {ls : List (List α)}
    (h : levels step n l = some ls) (hl : ∀ a ∈ l, P a) (hstep : ∀ a, P a → ∀ b ∈ step a, P b) :
    ∀ a ∈ ls.flatten, P a := by
  induction ls generalizing n l with
  | nil => simp
  | cons l' ls' ih =>
    rcases levels_cases h with ⟨_, hnil⟩ | ⟨m, ls'', rfl, h', heq⟩
    · cases hnil
    · obtain ⟨rfl, rfl⟩ := List.cons.inj heq
      intro a ha
      rcases List.mem_append.mp (List.flatten_cons ▸ ha) with ha | ha
      · exact hl a ha
      · refine ih h' (fun b hb => ?_) a ha
        obtain ⟨c, hc, hb⟩ := List.mem_flatMap.mp hb
        exact hstep c (hl c hc) b hb

theorem levels_congr {step' : α → List α} {n : Nat} {l : List α} {ls : List (List α)}
    (h : levels step n l = some ls) (hstep : ∀ a ∈ ls.flatten, step' a = step a) :
    levels step' n l = some ls := by
  induction ls generalizing n l with
  | nil =>
    rcases levels_cases h with ⟨rfl, _⟩ | ⟨_, _, _, _, heq⟩
    · cases n <;> rfl
    · cases heq
  | cons l' ls' ih =>
    rcases levels_cases h with ⟨_, hnil⟩ | ⟨m, ls'', rfl, h', heq⟩
    · cases hnil
    · obtain ⟨rfl, rfl⟩ := List.cons.inj heq
      have hl : l'.flatMap step' = l'.flatMap step :=
        List.flatMap_congr fun a ha => hstep a (by simp [ha])
      have hnext := ih h' fun a ha => hstep a (by
        rw [List.flatten_cons]
        exact List.mem_append_right _ ha)
      cases l' with
      | nil => simp [levels] at h
      | cons a rest => simp only [levels, hl, hnext, Option.map_some]

/-! ## Enough rounds -/

/-- Some cycle is reachable from `a`. -/
def ReachesCycle (step : α → List α) (a : α) : Prop :=
  ∃ x, Relation.ReflTransGen (fun a b => b ∈ step a) a x ∧
    Relation.TransGen (fun a b => b ∈ step a) x x

theorem ReachesCycle.exists_step {a : α} (h : ReachesCycle step a) :
    ∃ b ∈ step a, ReachesCycle step b := by
  obtain ⟨x, hax, hx⟩ := h
  rcases hax.cases_head with rfl | ⟨b, hab, hbx⟩
  · obtain ⟨b, hab, hba⟩ := Relation.TransGen.head'_iff.mp hx
    exact ⟨b, hab, a, hba, hx⟩
  · exact ⟨b, hab, x, hbx, hx⟩

theorem levelAt_ne_nil_of_reachesCycle {l : List α} {a : α} (ha : a ∈ l) (h : ReachesCycle step a)
    (k : Nat) : levelAt step k l ≠ [] := by
  induction k generalizing l a with
  | zero => exact List.ne_nil_of_mem ha
  | succ k ih =>
    obtain ⟨b, hb, hcycle⟩ := h.exists_step
    exact ih (List.mem_flatMap.mpr ⟨a, ha, hb⟩) hcycle

theorem exists_path_of_levelAt {l : List α} {k : Nat} (h : levelAt step k l ≠ []) :
    ∃ a path, a ∈ l ∧ path.length = k ∧ List.IsChain (fun a b => b ∈ step a) (a :: path) := by
  induction k generalizing l with
  | zero =>
    obtain ⟨a, ha⟩ := List.exists_mem_of_ne_nil l h
    exact ⟨a, [], ha, rfl, List.isChain_singleton a⟩
  | succ k ih =>
    obtain ⟨b, path, hb, hlen, hchain⟩ := ih h
    obtain ⟨a, ha, hab⟩ := List.mem_flatMap.mp hb
    exact ⟨a, b :: path, ha, by simp [hlen], List.isChain_cons_cons.mpr ⟨hab, hchain⟩⟩

theorem reflTransGen_of_isChain {a b : α} {path : List α}
    (h : List.IsChain (fun a b => b ∈ step a) (a :: path)) (hb : b ∈ a :: path) :
    Relation.ReflTransGen (fun a b => b ∈ step a) a b := by
  induction path generalizing a with
  | nil =>
    obtain rfl := List.mem_singleton.mp hb
    exact .refl
  | cons c path ih =>
    obtain ⟨hac, hchain⟩ := List.isChain_cons_cons.mp h
    rcases List.mem_cons.mp hb with rfl | hb
    · exact .refl
    · exact .head hac (ih hchain hb)

theorem nodup_of_isChain {a : α} {path : List α}
    (h : List.IsChain (fun a b => b ∈ step a) (a :: path)) (ha : ¬ ReachesCycle step a) :
    (a :: path).Nodup := by
  have hpair : (a :: path).Pairwise (Relation.TransGen fun a b => b ∈ step a) :=
    (h.imp fun _ _ hab => Relation.TransGen.single hab).pairwise
  refine hpair.imp_of_mem fun {x y} hx _ hxy hne => ?_
  exact ha ⟨x, reflTransGen_of_isChain h hx, by simpa only [← hne] using hxy⟩

theorem levels_length {n : Nat} {l xs : List α} {ls : List (List α)}
    (h : levels step n l = some ls) (hxs : ∀ a ∈ ls.flatten, a ∈ xs) :
    levels step xs.length l = some ls := by
  have hempty : levelAt step n l = [] := (levels_isSome_iff n l).mp (by simp [h])
  have hnil : levelAt step xs.length l = [] := by
    by_contra hne
    obtain ⟨a, path, ha, hlen, hchain⟩ := exists_path_of_levelAt hne
    have hacyclic : ¬ ReachesCycle step a := fun hc => levelAt_ne_nil_of_reachesCycle ha hc n hempty
    have hreach : ∀ b ∈ a :: path, b ∈ ls.flatten := by
      intro b hb
      have hab := reflTransGen_of_isChain hchain hb
      clear hb
      induction hab with
      | refl => exact mem_flatten_of_levels h ha
      | tail _ hbc ih => exact step_mem_flatten_of_levels h ih hbc
    have hle := (nodup_of_isChain hchain hacyclic).length_le_of_subset fun b hb => hxs b (hreach b hb)
    simp only [List.length_cons, hlen] at hle
    omega
  obtain ⟨ls', hls'⟩ := Option.isSome_iff_exists.mp ((levels_isSome_iff xs.length l).mpr hnil)
  rcases le_total n xs.length with hle | hle
  · exact levels_mono h hle
  · rw [hls', ← levels_mono hls' hle, h]

theorem levels_isSome_iff_acyclic {l xs : List α}
    (hxs : ∀ a ∈ l, ∀ b, Relation.ReflTransGen (fun a b => b ∈ step a) a b → b ∈ xs) :
    (levels step xs.length l).isSome ↔ ∀ a ∈ l, ¬ ReachesCycle step a := by
  rw [levels_isSome_iff]
  constructor
  · intro hempty a ha hcycle
    exact levelAt_ne_nil_of_reachesCycle ha hcycle xs.length hempty
  · intro hacyclic
    by_contra hne
    obtain ⟨a, path, ha, hlen, hchain⟩ := exists_path_of_levelAt hne
    have hnodup := nodup_of_isChain hchain (hacyclic a ha)
    have hle := hnodup.length_le_of_subset fun b hb => hxs a ha b (reflTransGen_of_isChain hchain hb)
    simp only [List.length_cons, hlen] at hle
    omega

/-! ## Where an element stands -/

theorem getElem?_zero_of_levels {n : Nat} {l l' : List α} {ls : List (List α)}
    (h : levels step n l = some ls) (hk : ls[0]? = some l') : l' = l := by
  rcases levels_cases h with ⟨_, rfl⟩ | ⟨_, _, _, _, rfl⟩
  · simp at hk
  · simpa using hk.symm

theorem mem_next_of_levels {n k : Nat} {l l' : List α} {ls : List (List α)}
    (h : levels step n l = some ls) (hk : ls[k]? = some l') {a b : α} (ha : a ∈ l')
    (hb : b ∈ step a) : ∃ l'', ls[k + 1]? = some l'' ∧ b ∈ l'' := by
  induction ls generalizing n l k with
  | nil => simp at hk
  | cons l₀ ls' ih =>
    rcases levels_cases h with ⟨_, hnil⟩ | ⟨m, ls'', rfl, h', heq⟩
    · cases hnil
    · obtain ⟨rfl, rfl⟩ := List.cons.inj heq
      cases k with
      | succ k => exact ih h' hk
      | zero =>
        obtain rfl : l₀ = l' := by simpa using hk
        have hnext : b ∈ l₀.flatMap step := List.mem_flatMap.mpr ⟨a, ha, hb⟩
        rcases levels_cases h' with ⟨hnil, _⟩ | ⟨_, _, _, _, rfl⟩
        · simp [hnil] at hnext
        · exact ⟨_, rfl, hnext⟩

theorem reached_of_levels {n k : Nat} {l l' : List α} {ls : List (List α)}
    (h : levels step n l = some ls) (hk : ls[k]? = some l') {b : α} (hb : b ∈ l') :
    (k = 0 ∧ b ∈ l) ∨ ∃ a ∈ l, Relation.TransGen (fun a b => b ∈ step a) a b := by
  induction ls generalizing n l k with
  | nil => simp at hk
  | cons l₀ ls' ih =>
    rcases levels_cases h with ⟨_, hnil⟩ | ⟨m, ls'', rfl, h', heq⟩
    · cases hnil
    · obtain ⟨rfl, rfl⟩ := List.cons.inj heq
      cases k with
      | zero =>
        obtain rfl : l₀ = l' := by simpa using hk
        exact Or.inl ⟨rfl, hb⟩
      | succ k =>
        refine Or.inr ?_
        rcases ih h' hk with ⟨_, hnext⟩ | ⟨c, hc, hcb⟩
        · obtain ⟨a, ha, hab⟩ := List.mem_flatMap.mp hnext
          exact ⟨a, ha, .single hab⟩
        · obtain ⟨a, ha, hac⟩ := List.mem_flatMap.mp hc
          exact ⟨a, ha, .head hac hcb⟩

theorem mem_flatten_of_levels_iff {n : Nat} {l : List α} {ls : List (List α)}
    (h : levels step n l = some ls) {b : α} :
    b ∈ ls.flatten ↔ ∃ a ∈ l, Relation.ReflTransGen (fun a b => b ∈ step a) a b := by
  constructor
  · intro hb
    obtain ⟨l', hl', hb⟩ := List.mem_flatten.mp hb
    obtain ⟨k, hk⟩ := List.mem_iff_getElem?.mp hl'
    rcases reached_of_levels h hk hb with ⟨_, hb⟩ | ⟨a, ha, hab⟩
    · exact ⟨b, hb, .refl⟩
    · exact ⟨a, ha, hab.to_reflTransGen⟩
  · rintro ⟨a, ha, hab⟩
    induction hab with
    | refl => exact mem_flatten_of_levels h ha
    | tail _ hbc ih => exact step_mem_flatten_of_levels h ih hbc

end Levels
end EdgarSec.Lib
