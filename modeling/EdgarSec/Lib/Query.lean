import Mathlib

/-! Relational operators over lists of rows: the window function `ROW_NUMBER` with a
partition and an order, the left join and the inner join on keys that may be null. -/

namespace EdgarSec.Lib

variable {α β κ : Type}

/-! ## Sort orders -/

/-- `before a b` says that `a` sorts no later than `b`. -/
structure SortOrder (before : α → α → Bool) : Prop where
  total : ∀ a b, before a b = true ∨ before b a = true
  trans : ∀ {a b c}, before a b = true → before b c = true → before a c = true

namespace SortOrder

theorem refl {before : α → α → Bool} (h : SortOrder before) (a : α) : before a a = true :=
  (h.total a a).elim id id

end SortOrder

structure Choice where
  pick : {α : Type} → List α → Option α
  mem_of_pick : ∀ {α : Type} {l : List α} {a : α}, pick l = some a → a ∈ l
  exists_pick : ∀ {α : Type} {l : List α}, l ≠ [] → ∃ a, pick l = some a
  sort : {α : Type} → (α → α → Bool) → List α → List α
  sort_perm : ∀ {α : Type} (before : α → α → Bool) (l : List α), (sort before l).Perm l
  pairwise_sort : ∀ {α : Type} {before : α → α → Bool}, SortOrder before →
    ∀ l : List α, (sort before l).Pairwise fun a b => before a b = true

def Choice.first : Choice where
  pick := List.head?
  mem_of_pick := List.mem_of_mem_head?
  exists_pick := fun {_ l} h => ⟨l.head h, List.head?_eq_some_head h⟩
  sort before l := l.insertionSort fun a b => before a b = true
  sort_perm before l := List.perm_insertionSort (fun a b => before a b = true) l
  pairwise_sort {_ before} h l := by
    have : Std.Total fun a b => before a b = true := ⟨h.total⟩
    have : IsTrans _ fun a b => before a b = true := ⟨fun _ _ _ => h.trans⟩
    exact List.pairwise_insertionSort (fun a b => before a b = true) l

@[simp] theorem Choice.pick_nil (C : Choice) {α : Type} : C.pick ([] : List α) = none := by
  refine Option.eq_none_iff_forall_not_mem.mpr fun a ha => ?_
  have hmem := C.mem_of_pick ha
  simp at hmem

@[simp] theorem Choice.pick_singleton (C : Choice) {α : Type} (a : α) : C.pick [a] = some a := by
  obtain ⟨b, hb⟩ := C.exists_pick (List.cons_ne_nil a [])
  have hmem : b ∈ [a] := C.mem_of_pick hb
  rwa [List.mem_singleton.mp hmem] at hb

/-- Sorts by `first`, and ties of `first` by `second`. -/
def thenBy (first second : α → α → Bool) (a b : α) : Bool :=
  first a b && (!first b a || second a b)

theorem SortOrder.thenBy {first second : α → α → Bool} (h1 : SortOrder first)
    (h2 : SortOrder second) : SortOrder (thenBy first second) where
  total a b := by
    have t1 := h1.total a b
    have t2 := h2.total a b
    unfold Lib.thenBy
    grind
  trans {a b c} hab hbc := by
    have t1 := @h1.trans a b c
    have t1' := @h1.trans c a b
    have t1'' := @h1.trans b c a
    have t2 := @h2.trans a b c
    unfold Lib.thenBy at *
    grind

theorem SortOrder.comap {before : β → β → Bool} (h : SortOrder before) (f : α → β) :
    SortOrder fun a b => before (f a) (f b) where
  total a b := h.total (f a) (f b)
  trans hab hbc := h.trans hab hbc

theorem SortOrder.of_le [LinearOrder α] : SortOrder fun a b : α => decide (a ≤ b) where
  total a b := by simpa using le_total a b
  trans {a b c} hab hbc := by
    rw [decide_eq_true_eq] at hab hbc ⊢
    exact hab.trans hbc

/-! ## `ROW_NUMBER() OVER (PARTITION BY key ORDER BY before) = 1` -/

def leading (before : α → α → Bool) (l : List α) : List α := l.filter fun a => l.all (before a)

section Window
variable [DecidableEq κ]

/-- The first row of the partition `k`. -/
def firstOf (C : Choice) (key : α → κ) (before : α → α → Bool) (l : List α) (k : κ) : Option α :=
  C.pick (leading before (l.filter fun a => key a = k))

def rowNumberOne (C : Choice) (key : α → κ) (before : α → α → Bool) (l : List α) : List α :=
  (l.map key).dedup.filterMap (firstOf C key before l)

end Window

variable {before : α → α → Bool}

theorem mem_leading {l : List α} {a : α} :
    a ∈ leading before l ↔ a ∈ l ∧ ∀ b ∈ l, before a b = true := by
  simp [leading]

@[simp] theorem leading_nil : leading before [] = [] := rfl

theorem leading_singleton (h : SortOrder before) (a : α) : leading before [a] = [a] := by
  simp [leading, h.refl a]

theorem exists_mem_leading (h : SortOrder before) {l : List α} (hne : l ≠ []) :
    ∃ a, a ∈ leading before l := by
  induction l with
  | nil => exact absurd rfl hne
  | cons a l ih =>
    by_cases hl : l = []
    · exact ⟨a, by simp [hl, leading_singleton h]⟩
    · obtain ⟨b, hb⟩ := ih hl
      obtain ⟨hbl, hall⟩ := Iff.mp mem_leading hb
      rcases h.total a b with hab | hba
      · refine ⟨a, Iff.mpr mem_leading ⟨List.mem_cons_self, ?_⟩⟩
        intro c hc
        rcases List.mem_cons.mp hc with rfl | hc
        · exact h.refl c
        · exact h.trans hab (hall c hc)
      · refine ⟨b, Iff.mpr mem_leading ⟨List.mem_cons_of_mem a hbl, ?_⟩⟩
        intro c hc
        rcases List.mem_cons.mp hc with rfl | hc
        · exact hba
        · exact hall c hc

theorem leading_append_of_behind (h : SortOrder before) {l m : List α} {a : α}
    (ha : a ∈ leading before l) (hm : ∀ b ∈ m, before a b = true ∧ before b a = false) :
    leading before (l ++ m) = leading before l := by
  have hal := Iff.mp mem_leading ha
  have hbehind : ∀ b ∈ m, (l ++ m).all (before b) = false := by
    intro b hb
    refine Bool.eq_false_iff.mpr fun hall => ?_
    have hba := List.all_eq_true.mp hall a (List.mem_append_left m hal.1)
    simp [(hm b hb).2] at hba
  have hsame : ∀ b ∈ l, (l ++ m).all (before b) = l.all (before b) := by
    intro b hb
    rw [List.all_append, Bool.and_eq_left_iff_imp]
    intro hall
    have hba : before b a = true := List.all_eq_true.mp hall a hal.1
    exact List.all_eq_true.mpr fun c hc => h.trans hba (hm c hc).1
  unfold leading
  rw [List.filter_append, List.filter_congr hsame, List.filter_congr hbehind]
  simp

theorem leading_append_of_ahead (h : SortOrder before) {l : List α} {b : α}
    (hb : ∀ a ∈ l, before b a = true ∧ before a b = false) :
    leading before (l ++ [b]) = [b] := by
  have hlast : [b].filter (fun a => (l ++ [b]).all (before a)) = [b] := by
    refine List.filter_eq_self.mpr fun c hc => ?_
    obtain rfl := List.mem_singleton.mp hc
    rw [List.all_append, List.all_eq_true.mpr fun a ha => (hb a ha).1]
    simp [h.refl c]
  have hrest : ∀ a ∈ l, (l ++ [b]).all (before a) = false := by
    intro a ha
    simp [(hb a ha).2]
  unfold leading
  rw [List.filter_append, List.filter_congr hrest, hlast]
  simp

section Window
variable [DecidableEq κ] {C : Choice} {key : α → κ}

theorem mem_of_firstOf {l : List α} {k : κ} {a : α} (h : firstOf C key before l k = some a) :
    a ∈ l ∧ key a = k ∧ ∀ b ∈ l, key b = k → before a b = true := by
  obtain ⟨hmem, hall⟩ := Iff.mp mem_leading (C.mem_of_pick h)
  obtain ⟨hal, hk⟩ := List.mem_filter.mp hmem
  refine ⟨hal, of_decide_eq_true hk, fun b hb hbk => ?_⟩
  exact hall b (List.mem_filter.mpr ⟨hb, decide_eq_true hbk⟩)

theorem exists_firstOf (h : SortOrder before) {l : List α} {b : α} (hb : b ∈ l) :
    ∃ a, firstOf C key before l (key b) = some a := by
  have hne : (l.filter fun a => key a = key b) ≠ [] :=
    List.ne_nil_of_mem (List.mem_filter.mpr ⟨hb, decide_eq_true rfl⟩)
  obtain ⟨c, hc⟩ := exists_mem_leading h hne
  exact C.exists_pick (List.ne_nil_of_mem hc)

theorem firstOf_eq_none_of_forall_ne {l : List α} {k : κ} (h : ∀ a ∈ l, key a ≠ k) :
    firstOf C key before l k = none := by
  have hnil : (l.filter fun a => key a = k) = [] :=
    List.filter_eq_nil_iff.mpr fun a ha => by simpa using h a ha
  rw [firstOf, hnil, leading_nil, C.pick_nil]

theorem firstOf_append_of_forall_ne {l m : List α} {k : κ} (h : ∀ b ∈ m, key b ≠ k) :
    firstOf C key before (l ++ m) k = firstOf C key before l k := by
  have hnil : (m.filter fun a => key a = k) = [] :=
    List.filter_eq_nil_iff.mpr fun a ha => by simpa using h a ha
  rw [firstOf, List.filter_append, hnil, List.append_nil, firstOf]

theorem firstOf_append_of_filter_eq (h : SortOrder before) {l m : List α} {k : κ} {b : α}
    (hm : (m.filter fun a => key a = k) = [b]) :
    ((∀ a, firstOf C key before l k = some a → before b a = true ∧ before a b = false) →
      firstOf C key before (l ++ m) k = some b) ∧
    ((∃ a, firstOf C key before l k = some a ∧ before a b = true ∧ before b a = false) →
      firstOf C key before (l ++ m) k = firstOf C key before l k) := by
  have hlm : ((l ++ m).filter fun a => key a = k) = (l.filter fun a => key a = k) ++ [b] := by
    rw [List.filter_append, hm]
  constructor
  · intro hahead
    have hall : ∀ c ∈ l.filter (fun a => key a = k), before b c = true ∧ before c b = false := by
      intro c hc
      obtain ⟨hcl, hck⟩ := List.mem_filter.mp hc
      obtain ⟨a, ha⟩ := @exists_firstOf _ _ _ _ C key h l c hcl
      rw [of_decide_eq_true hck] at ha
      obtain ⟨hba, hab⟩ := hahead a ha
      have hac : before a c = true := (mem_of_firstOf ha).2.2 c hcl (of_decide_eq_true hck)
      refine ⟨h.trans hba hac, Bool.eq_false_iff.mpr fun hcb => ?_⟩
      simp [h.trans hac hcb] at hab
    rw [firstOf, hlm, leading_append_of_ahead h hall, C.pick_singleton]
  · rintro ⟨a, ha, hab, hba⟩
    have hlead := C.mem_of_pick ha
    have hone : ∀ c ∈ [b], before a c = true ∧ before c a = false := by simp [hab, hba]
    rw [firstOf, hlm, leading_append_of_behind h hlead hone, firstOf]

theorem mem_rowNumberOne {l : List α} {a : α} :
    a ∈ rowNumberOne C key before l ↔ firstOf C key before l (key a) = some a := by
  unfold rowNumberOne
  rw [List.mem_filterMap]
  constructor
  · rintro ⟨k, _, h⟩
    rwa [(mem_of_firstOf h).2.1]
  · intro h
    exact ⟨key a, List.mem_dedup.mpr (List.mem_map_of_mem (mem_of_firstOf h).1), h⟩

theorem nodup_map_key_rowNumberOne {l : List α} :
    ((rowNumberOne C key before l).map key).Nodup := by
  have hsub : ∀ ks : List κ, ((ks.filterMap (firstOf C key before l)).map key).Sublist ks := by
    intro ks
    induction ks with
    | nil => exact List.Sublist.refl _
    | cons k ks ih =>
      cases h : firstOf C key before l k with
      | none => simpa [h] using ih.cons k
      | some a =>
        have hk : key a = k := (mem_of_firstOf h).2.1
        simpa [h, hk] using ih
  exact (List.nodup_dedup _).sublist (hsub _)

theorem map_rowNumberOne_perm_iff {f : α → β} {g : β → κ} (hg : ∀ a, key a = g (f a))
    {l l' : List α} :
    ((rowNumberOne C key before l).map f).Perm ((rowNumberOne C key before l').map f) ↔
      ∀ k, (firstOf C key before l k).map f = (firstOf C key before l' k).map f := by
  have hnodup : ∀ l : List α, ((rowNumberOne C key before l).map f).Nodup := by
    intro l
    refine List.Nodup.of_map g ?_
    have hcomp : ((rowNumberOne C key before l).map f).map g =
        (rowNumberOne C key before l).map key := by
      simp [hg]
    exact hcomp ▸ nodup_map_key_rowNumberOne
  have hmem : ∀ (l : List α) (b : β), b ∈ (rowNumberOne C key before l).map f ↔
      (firstOf C key before l (g b)).map f = some b := by
    intro l b
    simp only [List.mem_map, mem_rowNumberOne, Option.map_eq_some_iff]
    constructor
    · rintro ⟨a, ha, rfl⟩
      exact ⟨a, hg a ▸ ha, rfl⟩
    · rintro ⟨a, ha, rfl⟩
      refine ⟨a, ?_, rfl⟩
      rwa [hg a]
  rw [List.perm_ext_iff_of_nodup (hnodup l) (hnodup l')]
  constructor
  · intro h k
    refine Option.ext fun b => ?_
    constructor
    · intro hb
      obtain ⟨a, ha, rfl⟩ := Option.map_eq_some_iff.mp hb
      have hk : g (f a) = k := hg a ▸ (mem_of_firstOf ha).2.1
      have hin := (h (f a)).mp ((hmem l (f a)).mpr (by rw [hk]; exact hb))
      rw [hmem, hk] at hin
      exact hin
    · intro hb
      obtain ⟨a, ha, rfl⟩ := Option.map_eq_some_iff.mp hb
      have hk : g (f a) = k := hg a ▸ (mem_of_firstOf ha).2.1
      have hin := (h (f a)).mpr ((hmem l' (f a)).mpr (by rw [hk]; exact hb))
      rw [hmem, hk] at hin
      exact hin
  · intro h b
    rw [hmem, hmem, h]

theorem filter_rowNumberOne {l : List α} {k : κ} :
    (rowNumberOne C key before l).filter (fun a => key a = k) = (firstOf C key before l k).toList := by
  have hsame : ∀ ks : List κ, ks.Nodup →
      (ks.filterMap (firstOf C key before l)).filter (fun a => key a = k) =
        if k ∈ ks then (firstOf C key before l k).toList else [] := by
    intro ks
    induction ks with
    | nil => simp
    | cons k' ks ih =>
      intro hnodup
      obtain ⟨hnew, hrest⟩ := List.nodup_cons.mp hnodup
      have hih := ih hrest
      by_cases hk : k = k'
      · subst hk
        rw [if_neg hnew] at hih
        cases hf : firstOf C key before l k with
        | none => simpa [hf] using hih
        | some a =>
          have hka : key a = k := (mem_of_firstOf hf).2.1
          rw [List.filterMap_cons_some hf, List.filter_cons_of_pos (by simp [hka]), hih]
          simp
      · have hmem : k ∈ k' :: ks ↔ k ∈ ks := by simp [hk]
        simp only [hmem]
        cases hf : firstOf C key before l k' with
        | none => simpa [hf] using hih
        | some a =>
          have hka : key a = k' := (mem_of_firstOf hf).2.1
          have hne : ¬ key a = k := fun h => hk (h.symm.trans hka)
          rw [List.filterMap_cons_some hf, List.filter_cons_of_neg (by simpa using hne), hih]
  unfold rowNumberOne
  rw [hsame _ (List.nodup_dedup _)]
  split
  · rfl
  · rename_i hk
    have hnone : firstOf C key before l k = none := by
      refine firstOf_eq_none_of_forall_ne fun a ha he => hk ?_
      exact List.mem_dedup.mpr (he ▸ List.mem_map_of_mem ha)
    rw [hnone]
    rfl

theorem firstOf_congr {l m : List α} {k : κ}
    (h : (l.filter fun a => key a = k) = m.filter fun a => key a = k) :
    firstOf C key before l k = firstOf C key before m k := by
  rw [firstOf, h, firstOf]

end Window

/-! ## Joins

A null key matches nothing. -/

section Join
variable [DecidableEq κ] (kl : α → Option κ) (kr : β → Option κ)

def matchRows (right : List β) (a : α) : List β :=
  right.filter fun b => (kl a).isSome ∧ kl a = kr b

/-- `LEFT JOIN`: a row without a match stands once, beside nulls. -/
def leftJoin (left : List α) (right : List β) : List (α × Option β) :=
  left.flatMap fun a =>
    if matchRows kl kr right a = [] then [(a, none)]
    else (matchRows kl kr right a).map fun b => (a, some b)

def innerJoin (left : List α) (right : List β) : List (α × β) :=
  left.flatMap fun a => (matchRows kl kr right a).map fun b => (a, b)

variable {kl kr}

theorem mem_matchRows {right : List β} {a : α} {b : β} :
    b ∈ matchRows kl kr right a ↔ b ∈ right ∧ ∃ k, kl a = some k ∧ kr b = some k := by
  simp only [matchRows, List.mem_filter, decide_eq_true_eq, Option.isSome_iff_exists]
  constructor
  · rintro ⟨hb, ⟨k, hk⟩, he⟩
    exact ⟨hb, k, hk, he ▸ hk⟩
  · rintro ⟨hb, k, hk, hk'⟩
    exact ⟨hb, ⟨k, hk⟩, hk.trans hk'.symm⟩

theorem matchRows_of_key {a : α} {k : κ} (h : kl a = some k) (right : List β) :
    matchRows kl kr right a = right.filter fun b => kr b = some k := by
  unfold matchRows
  refine List.filter_congr fun b _ => decide_eq_decide.mpr ?_
  rw [h]
  simp [eq_comm]

theorem matchRows_eq_nil_or_singleton {right : List β} (h : (right.filterMap kr).Nodup) (a : α) :
    matchRows kl kr right a = [] ∨ ∃ b, matchRows kl kr right a = [b] := by
  have hsub : ((matchRows kl kr right a).filterMap kr).Nodup :=
    h.sublist (List.filter_sublist.filterMap kr)
  have hconst : ∀ b ∈ matchRows kl kr right a, ∃ k, kl a = some k ∧ kr b = some k :=
    fun b hb => (Iff.mp mem_matchRows hb).2
  match hm : matchRows kl kr right a with
  | [] => exact Or.inl rfl
  | [b] => exact Or.inr ⟨b, rfl⟩
  | b :: c :: rest =>
    rw [hm] at hsub hconst
    obtain ⟨k, hk, hbk⟩ := hconst b (by simp)
    obtain ⟨k', hk', hck⟩ := hconst c (by simp)
    obtain rfl : k = k' := Option.some.inj (hk.symm.trans hk')
    simp [hbk, hck] at hsub

theorem map_fst_innerJoin {right : List β} (h : (right.filterMap kr).Nodup) (left : List α) :
    (innerJoin kl kr left right).map Prod.fst =
      left.filter fun a => matchRows kl kr right a ≠ [] := by
  induction left with
  | nil => rfl
  | cons a left ih =>
    have hcons : innerJoin kl kr (a :: left) right =
        (matchRows kl kr right a).map (fun b => (a, b)) ++ innerJoin kl kr left right := rfl
    rw [hcons, List.map_append, ih, List.filter_cons]
    rcases @matchRows_eq_nil_or_singleton _ _ _ _ kl kr right h a with hm | ⟨b, hm⟩ <;> simp [hm]

theorem mem_innerJoin {left : List α} {right : List β} {j : α × β} :
    j ∈ innerJoin kl kr left right ↔
      j.1 ∈ left ∧ j.2 ∈ right ∧ ∃ k, kl j.1 = some k ∧ kr j.2 = some k := by
  simp only [innerJoin, List.mem_flatMap, List.mem_map, mem_matchRows]
  constructor
  · intro ⟨a, ha, b, ⟨hb, hk⟩, heq⟩
    subst heq
    exact ⟨ha, hb, hk⟩
  · intro ⟨ha, hb, hk⟩
    exact ⟨j.1, ha, j.2, ⟨hb, hk⟩, rfl⟩

theorem filter_innerJoin (p : α → Bool) (left : List α) (right : List β) :
    (innerJoin kl kr left right).filter (fun j => p j.1) = innerJoin kl kr (left.filter p) right := by
  induction left with
  | nil => rfl
  | cons a left ih =>
    have hcons : innerJoin kl kr (a :: left) right =
        (matchRows kl kr right a).map (fun b => (a, b)) ++ innerJoin kl kr left right := rfl
    rw [hcons, List.filter_append, ih, List.filter_map, List.filter_cons]
    cases hp : p a with
    | true => simp [Function.comp_def, hp, innerJoin]
    | false => simp [Function.comp_def, hp]

theorem leftJoin_append (left left' : List α) (right : List β) :
    leftJoin kl kr (left ++ left') right = leftJoin kl kr left right ++ leftJoin kl kr left' right :=
  List.flatMap_append

theorem leftJoin_congr {left : List α} {right right' : List β}
    (h : ∀ a ∈ left, matchRows kl kr right a = matchRows kl kr right' a) :
    leftJoin kl kr left right = leftJoin kl kr left right' := by
  unfold leftJoin
  refine List.flatMap_congr fun a ha => ?_
  rw [h a ha]

theorem fst_mem_of_mem_leftJoin {left : List α} {right : List β} {j : α × Option β}
    (h : j ∈ leftJoin kl kr left right) : j.1 ∈ left := by
  obtain ⟨a, ha, hj⟩ := List.mem_flatMap.mp h
  split at hj
  · rwa [List.mem_singleton.mp hj]
  · obtain ⟨b, -, rfl⟩ := List.mem_map.mp hj
    exact ha

theorem filter_leftJoin (p : α → Bool) (left : List α) (right : List β) :
    (leftJoin kl kr left right).filter (fun j => p j.1) = leftJoin kl kr (left.filter p) right := by
  induction left with
  | nil => rfl
  | cons a left ih =>
    have hcons : leftJoin kl kr (a :: left) right =
        (if matchRows kl kr right a = [] then [(a, none)]
          else (matchRows kl kr right a).map fun b => (a, some b)) ++ leftJoin kl kr left right := rfl
    rw [hcons, List.filter_append, ih, List.filter_cons]
    by_cases hm : matchRows kl kr right a = []
    · cases hp : p a with
      | true => simp [hm, hp, leftJoin]
      | false => simp [hm, hp]
    · cases hp : p a with
      | true => simp [hm, List.filter_map, Function.comp_def, hp, leftJoin]
      | false => simp [hm, List.filter_map, Function.comp_def, hp]

theorem map_fst_filter_leftJoin {right : List β} {keep : α × Option β → Bool} {p : α → Bool}
    {left : List α}
    (hnone : ∀ a ∈ left, matchRows kl kr right a = [] → keep (a, none) = p a)
    (hsome : ∀ a ∈ left, ∀ b ∈ matchRows kl kr right a, keep (a, some b) = p a)
    (hone : ∀ a ∈ left, p a = true → (matchRows kl kr right a).length ≤ 1) :
    ((leftJoin kl kr left right).filter keep).map Prod.fst = left.filter p := by
  induction left with
  | nil => rfl
  | cons a left ih =>
    have hcons : leftJoin kl kr (a :: left) right =
        (if matchRows kl kr right a = [] then [(a, none)]
          else (matchRows kl kr right a).map fun b => (a, some b)) ++ leftJoin kl kr left right := rfl
    have hrest := ih (fun a ha => hnone a (List.mem_cons_of_mem _ ha))
      (fun a ha => hsome a (List.mem_cons_of_mem _ ha))
      (fun a ha => hone a (List.mem_cons_of_mem _ ha))
    rw [hcons, List.filter_append, List.map_append, hrest, List.filter_cons]
    have hn := hnone a List.mem_cons_self
    have hs := hsome a List.mem_cons_self
    have ho := hone a List.mem_cons_self
    match hm : matchRows kl kr right a with
    | [] =>
      simp only [hm, true_implies] at hn
      cases hp : p a <;> simp [hn, hp]
    | b :: rest =>
      simp only [hm, List.length_cons] at hs ho
      cases hp : p a with
      | false =>
        have hdrop : ∀ b' ∈ b :: rest, keep (a, some b') = false := fun b' hb' => (hs b' hb').trans hp
        have hnil : ((b :: rest).map fun b => (a, some b)).filter keep = [] := by
          refine List.filter_eq_nil_iff.mpr fun j hj => ?_
          obtain ⟨b', hb', rfl⟩ := List.mem_map.mp hj
          simp [hdrop b' hb']
        simp only [List.cons_ne_nil, if_false, hnil]
        simp
      | true =>
        obtain rfl : rest = [] := by
          have hlen := ho hp
          exact List.length_eq_zero_iff.mp (by omega)
        simp [hs b List.mem_cons_self, hp]

end Join

theorem filter_key_eq_singleton [DecidableEq κ] {key : α → κ} {l : List α} (hnodup : (l.map key).Nodup)
    {a : α} (ha : a ∈ l) : l.filter (fun b => key b = key a) = [a] := by
  induction l with
  | nil => simp at ha
  | cons b l ih =>
    simp only [List.map_cons, List.nodup_cons] at hnodup
    rcases List.mem_cons.mp ha with heq | hmem
    · subst heq
      have hrest : l.filter (fun b => key b = key a) = [] := by
        rw [List.filter_eq_nil_iff]
        intro b hb hsame
        exact hnodup.1 (of_decide_eq_true hsame ▸ List.mem_map_of_mem hb)
      simp [hrest]
    · have hne : key b ≠ key a := fun heq => hnodup.1 (heq ▸ List.mem_map_of_mem hmem)
      simp [hne, ih hnodup.2 hmem]

theorem perm_iff_filter_perm [DecidableEq α] [DecidableEq κ] (key : α → κ) {l l' : List α} :
    l.Perm l' ↔ ∀ k, (l.filter fun a => key a = k).Perm (l'.filter fun a => key a = k) := by
  constructor
  · intro h k
    exact h.filter _
  · intro h
    refine List.perm_iff_count.mpr fun a => ?_
    have hcount := (h (key a)).count_eq a
    have hself : ∀ l : List α, (l.filter fun b => key b = key a).count a = l.count a :=
      fun l => List.count_filter (by simp)
    rwa [hself, hself] at hcount

theorem filter_perm_iff {l : List α} {p : α → Bool} :
    (l.filter p).Perm l ↔ ∀ a ∈ l, p a = true := by
  constructor
  · intro h a ha
    exact (List.mem_filter.mp (h.mem_iff.mpr ha)).2
  · intro h
    rw [List.filter_eq_self.mpr h]

end EdgarSec.Lib
