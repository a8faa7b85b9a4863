import Mathlib

/-! Ranges cut out of a list: ranges that touch are merged as they come, and what is left is a
sublist whose elements are those in no range. -/

namespace EdgarSec.Lib

structure Cut (μ : Type) where
  start : Nat
  stop : Nat
  members : List μ
  deriving DecidableEq

section Merging
variable {μ : Type}

def addCut (cuts : List (Cut μ)) (c : Cut μ) : List (Cut μ) :=
  match cuts with
  | [] => [c]
  | last :: before =>
    if c.start ≤ last.stop then
      { last with stop := max last.stop c.stop, members := last.members ++ c.members } :: before
    else c :: last :: before

def mergeCuts (cs : List (Cut μ)) : List (Cut μ) := cs.foldl addCut []

def Cut.Has (c : Cut μ) (p : Nat) : Prop := c.start ≤ p ∧ p < c.stop

def Cut.Covered (cuts : List (Cut μ)) (p : Nat) : Prop := ∃ c ∈ cuts, c.Has p

structure Descending (cuts : List (Cut μ)) : Prop where
  proper : ∀ c ∈ cuts, c.start ≤ c.stop
  apart : cuts.Pairwise fun later earlier => earlier.stop < later.start

def Cut.span (c : Cut μ) : Nat × Nat := (c.start, c.stop)

/-- Some range has the position, and no range before that one starts behind it. -/
def Reached (ranges : List (Nat × Nat)) (p : Nat) : Prop :=
  ∃ before r after, ranges = before ++ r :: after ∧ (r.1 ≤ p ∧ p < r.2) ∧ ∀ d ∈ before, d.1 ≤ p

variable {cuts cs : List (Cut μ)} {c : Cut μ} {p : Nat}

theorem addCut_cons {last : Cut μ} {before : List (Cut μ)} : addCut (last :: before) c =
    if c.start ≤ last.stop then
      { last with stop := max last.stop c.stop, members := last.members ++ c.members } :: before
    else c :: last :: before := rfl

theorem Descending.addCut (h : Descending cuts) (hc : c.start ≤ c.stop) : Descending (addCut cuts c) := by
  cases cuts with
  | nil => exact ⟨by simpa [Lib.addCut] using hc, List.pairwise_singleton _ _⟩
  | cons last before =>
    have hlast := h.proper last List.mem_cons_self
    have hapart := List.pairwise_cons.mp h.apart
    rw [addCut_cons]
    split_ifs with htouch
    · refine ⟨?_, List.pairwise_cons.mpr ⟨fun d hd => hapart.1 d hd, hapart.2⟩⟩
      intro d hd
      rcases List.mem_cons.mp hd with rfl | hd
      · exact hlast.trans (le_max_left _ _)
      · exact h.proper d (List.mem_cons_of_mem _ hd)
    · refine ⟨List.forall_mem_cons.mpr ⟨hc, h.proper⟩, List.pairwise_cons.mpr ⟨?_, h.apart⟩⟩
      intro d hd
      rcases List.mem_cons.mp hd with rfl | hd
      · exact not_le.mp htouch
      · have hbehind := hapart.1 d hd
        omega

theorem mergeCuts_concat : mergeCuts (cs ++ [c]) = addCut (mergeCuts cs) c := by
  rw [mergeCuts, List.foldl_append]
  rfl

theorem descending_mergeCuts (h : ∀ c ∈ cs, c.start ≤ c.stop) : Descending (mergeCuts cs) := by
  induction cs using List.reverseRecOn with
  | nil => exact ⟨fun _ hc => absurd hc List.not_mem_nil, List.Pairwise.nil⟩
  | append_singleton cs c ih =>
    rw [mergeCuts_concat]
    have hbefore := ih fun d hd => h d (List.mem_append_left _ hd)
    exact hbefore.addCut (h c (List.mem_append_right _ (List.mem_singleton_self c)))

theorem covered_addCut (h : Descending cuts) :
    Cut.Covered (addCut cuts c) p ↔
      Cut.Covered cuts p ∨ (c.Has p ∧ ∀ last ∈ cuts.head?, last.start ≤ p) := by
  cases cuts with
  | nil => simp [Lib.addCut, Cut.Covered]
  | cons last before =>
    have hlast := h.proper last List.mem_cons_self
    rw [addCut_cons]
    unfold Cut.Covered Cut.Has
    split_ifs with htouch
    · simp only [List.exists_mem_cons_iff, List.head?_cons, Option.mem_some_iff, forall_eq']
      constructor
      · rintro (⟨hstart, hstop⟩ | hbefore)
        · rcases lt_or_ge p last.stop with hin | hout
          · exact Or.inl (Or.inl ⟨hstart, hin⟩)
          · have hnew : p < c.stop := by
              omega
            exact Or.inr ⟨⟨htouch.trans hout, hnew⟩, hstart⟩
        · exact Or.inl (Or.inr hbefore)
      · rintro ((⟨hstart, hstop⟩ | hbefore) | ⟨⟨_, hstop⟩, hstart⟩)
        · exact Or.inl ⟨hstart, lt_max_of_lt_left hstop⟩
        · exact Or.inr hbefore
        · exact Or.inl ⟨hstart, lt_max_of_lt_right hstop⟩
    · simp only [List.exists_mem_cons_iff, List.head?_cons, Option.mem_some_iff, forall_eq']
      constructor
      · rintro (⟨hstart, hstop⟩ | hold)
        · exact Or.inr ⟨⟨hstart, hstop⟩, by omega⟩
        · exact Or.inl hold
      · rintro (hold | ⟨hnew, _⟩)
        · exact Or.inr hold
        · exact Or.inl hnew

theorem covered_or_lt_newest (hproper : ∀ c ∈ cs, c.start ≤ c.stop) (hc : c ∈ cs) (hp : p < c.start) :
    Cut.Covered (mergeCuts cs) p ∨ ∃ last ∈ (mergeCuts cs).head?, p < last.start := by
  induction cs using List.reverseRecOn with
  | nil => cases hc
  | append_singleton cs d ih =>
    have hbefore : ∀ c ∈ cs, c.start ≤ c.stop := fun c hc => hproper c (List.mem_append_left _ hc)
    have hdesc := descending_mergeCuts hbefore
    rw [mergeCuts_concat]
    rcases List.mem_append.mp hc with hc | hc
    · rcases ih hbefore hc with hcov | ⟨last, hlast, hlt⟩
      · exact Or.inl ((covered_addCut hdesc).mpr (Or.inl hcov))
      · -- the newest only moves behind
        right
        cases hcuts : mergeCuts cs with
        | nil => simp [hcuts] at hlast
        | cons newest before =>
          obtain rfl : newest = last := by simpa [hcuts] using hlast
          rw [addCut_cons]
          have hnewest := hdesc.proper newest (hcuts ▸ List.mem_cons_self)
          split_ifs with htouch
          · exact ⟨_, rfl, hlt⟩
          · exact ⟨_, rfl, by omega⟩
    · obtain rfl := List.mem_singleton.mp hc
      cases hcuts : mergeCuts cs with
      | nil => exact Or.inr ⟨c, rfl, hp⟩
      | cons newest before =>
        have hnewest := hdesc.proper newest (hcuts ▸ List.mem_cons_self)
        rw [addCut_cons]
        split_ifs with htouch
        · rcases lt_or_ge p newest.start with hlt | hge
          · exact Or.inr ⟨_, rfl, hlt⟩
          · refine Or.inl ⟨_, List.mem_cons_self, hge, ?_⟩
            exact lt_max_of_lt_left (hp.trans_le htouch)
        · exact Or.inr ⟨c, rfl, hp⟩

theorem newest_start {last : Cut μ} (h : last ∈ (mergeCuts cs).head?) : ∃ c ∈ cs, c.start = last.start := by
  induction cs using List.reverseRecOn generalizing last with
  | nil => cases h
  | append_singleton cs d ih =>
    rw [mergeCuts_concat] at h
    cases hcuts : mergeCuts cs with
    | nil =>
      rw [hcuts] at h
      obtain rfl := Option.some.inj h
      exact ⟨d, List.mem_append_right _ (List.mem_singleton_self d), rfl⟩
    | cons newest before =>
      rw [hcuts, addCut_cons] at h
      split_ifs at h
      · obtain rfl := Option.some.inj h
        obtain ⟨c, hc, hstart⟩ := @ih newest (by rw [hcuts]; rfl)
        exact ⟨c, List.mem_append_left _ hc, hstart⟩
      · obtain rfl := Option.some.inj h
        exact ⟨d, List.mem_append_right _ (List.mem_singleton_self d), rfl⟩

theorem covered_mergeCuts_iff_split (hproper : ∀ c ∈ cs, c.start ≤ c.stop) :
    Cut.Covered (mergeCuts cs) p ↔
      ∃ before c after, cs = before ++ c :: after ∧ c.Has p ∧ ∀ d ∈ before, d.start ≤ p := by
  induction cs using List.reverseRecOn with
  | nil =>
    constructor
    · rintro ⟨c, hc, _⟩
      cases hc
    · rintro ⟨before, c, after, hsplit, _⟩
      simp at hsplit
  | append_singleton cs d ih =>
    have hbefore : ∀ c ∈ cs, c.start ≤ c.stop := fun c hc => hproper c (List.mem_append_left _ hc)
    rw [mergeCuts_concat, covered_addCut (descending_mergeCuts hbefore), ih hbefore]
    constructor
    · rintro (⟨before, c, after, rfl, hhas, hstarts⟩ | ⟨hhas, hnewest⟩)
      · exact ⟨before, c, after ++ [d], by simp, hhas, hstarts⟩
      · by_cases hstarts : ∀ c ∈ cs, c.start ≤ p
        · exact ⟨cs, d, [], rfl, hhas, hstarts⟩
        · -- some range starts behind the position, so this is covered already
          obtain ⟨c, hc, hlt⟩ := not_forall₂.mp hstarts
          rcases covered_or_lt_newest hbefore hc (not_le.mp hlt) with hcov | ⟨last, hlast, hp⟩
          · obtain ⟨front, e, back, rfl, he, hfront⟩ := (ih hbefore).mp hcov
            exact ⟨front, e, back ++ [d], by simp, he, hfront⟩
          · exact absurd (hnewest last hlast) (not_le.mpr hp)
    · rintro ⟨before, c, after, hsplit, hhas, hstarts⟩
      rcases List.eq_nil_or_concat after with rfl | ⟨after, e, rfl⟩
      · obtain ⟨rfl, heq⟩ := List.append_inj' hsplit rfl
        obtain rfl := List.singleton_inj.mp heq
        refine Or.inr ⟨hhas, fun last hlast => ?_⟩
        obtain ⟨c, hc, hstart⟩ := newest_start hlast
        exact hstart ▸ hstarts c hc
      · rw [List.concat_eq_append, ← List.cons_append, ← List.append_assoc] at hsplit
        obtain ⟨rfl, -⟩ := List.append_inj' hsplit rfl
        exact Or.inl ⟨before, c, after, rfl, hhas, hstarts⟩

theorem covered_mergeCuts_iff (hproper : ∀ c ∈ cs, c.start ≤ c.stop) :
    Cut.Covered (mergeCuts cs) p ↔ Reached (cs.map Cut.span) p := by
  rw [covered_mergeCuts_iff_split hproper]
  constructor
  · rintro ⟨before, c, after, rfl, hhas, hstarts⟩
    refine ⟨before.map Cut.span, c.span, after.map Cut.span, by simp, hhas, ?_⟩
    intro d hd
    obtain ⟨e, he, rfl⟩ := List.mem_map.mp hd
    exact hstarts e he
  · rintro ⟨before, r, after, hsplit, hhas, hstarts⟩
    obtain ⟨front, back, rfl, rfl, hback⟩ := List.map_eq_append_iff.mp hsplit
    obtain ⟨c, rest, rfl, rfl, rfl⟩ := List.map_eq_cons_iff.mp hback
    exact ⟨front, c, rest, rfl, hhas, fun d hd => hstarts d.span (List.mem_map_of_mem hd)⟩

theorem members_mergeCuts : (mergeCuts cs).reverse.flatMap Cut.members = cs.flatMap Cut.members := by
  induction cs using List.reverseRecOn with
  | nil => rfl
  | append_singleton cs c ih =>
    rw [mergeCuts_concat, List.flatMap_append, ← ih]
    cases mergeCuts cs with
    | nil => rfl
    | cons last before =>
      rw [addCut_cons]
      split_ifs <;> simp

end Merging

section Removing
variable {α μ : Type}

def slice (xs : List α) (a b : Nat) : List α := (xs.take b).drop a

def uncut (xs : List α) (n : Nat) : List (Cut μ) → List α
  | [] => xs.drop n
  | c :: cuts => slice xs n c.start ++ uncut xs c.stop cuts

def pieces (xs : List α) (n : Nat) : List (Cut μ) → List α
  | [] => []
  | c :: cuts => slice xs n c.start ++ pieces xs c.stop cuts

def lastStop (n : Nat) (cuts : List (Cut μ)) : Nat := cuts.getLast?.elim n Cut.stop

def Fits (n : Nat) : List (Cut μ) → Prop
  | [] => True
  | c :: cuts => n ≤ c.start ∧ c.start ≤ c.stop ∧ Fits c.stop cuts

variable {xs : List α} {x : α} {cuts : List (Cut μ)} {n i a b : Nat}

theorem lastStop_cons {c : Cut μ} : lastStop n (c :: cuts) = lastStop c.stop cuts := by
  rw [lastStop, List.getLast?_cons, lastStop]
  cases cuts.getLast? <;> rfl

theorem pieces_concat {c : Cut μ} :
    pieces xs n (cuts ++ [c]) = pieces xs n cuts ++ slice xs (lastStop n cuts) c.start := by
  induction cuts generalizing n with
  | nil => exact List.append_nil _
  | cons d cuts ih => rw [List.cons_append, pieces, ih, pieces, lastStop_cons, List.append_assoc]

theorem uncut_eq_pieces : uncut xs n cuts = pieces xs n cuts ++ xs.drop (lastStop n cuts) := by
  induction cuts generalizing n with
  | nil => rfl
  | cons c cuts ih => rw [uncut, ih, pieces, lastStop_cons, List.append_assoc]

theorem Descending.fits (h : Descending cuts) : Fits 0 cuts.reverse := by
  have hfits : ∀ (cs : List (Cut μ)) n, (∀ c ∈ cs, c.start ≤ c.stop ∧ n ≤ c.start) →
      cs.Pairwise (fun earlier later => earlier.stop < later.start) → Fits n cs := by
    intro cs
    induction cs with
    | nil => exact fun _ _ _ => trivial
    | cons c cs ih =>
      intro n hcs hapart
      obtain ⟨hproper, hstart⟩ := hcs c List.mem_cons_self
      have hapart := List.pairwise_cons.mp hapart
      refine ⟨hstart, hproper, ih c.stop (fun d hd => ⟨?_, (hapart.1 d hd).le⟩) hapart.2⟩
      exact (hcs d (List.mem_cons_of_mem _ hd)).1
  apply hfits
  · exact fun c hc => ⟨h.proper c (List.mem_reverse.mp hc), Nat.zero_le _⟩
  · exact List.pairwise_reverse.mpr h.apart

theorem slice_append_drop (h : a ≤ b) : slice xs a b ++ xs.drop b = xs.drop a := by
  have hdrop : (xs.drop a).drop (b - a) = xs.drop b := by
    rw [List.drop_drop, Nat.add_sub_of_le h]
  rw [slice, List.drop_take, ← hdrop]
  exact List.take_append_drop _ _

theorem uncut_sublist (h : Fits n cuts) : (uncut xs n cuts).Sublist (xs.drop n) := by
  induction cuts generalizing n with
  | nil => exact List.Sublist.refl _
  | cons c cuts ih =>
    obtain ⟨hstart, hproper, hrest⟩ := h
    have hlater : (uncut xs c.stop cuts).Sublist (xs.drop c.start) :=
      (ih hrest).trans (List.drop_sublist_drop_left xs hproper)
    rw [← slice_append_drop hstart]
    exact (List.Sublist.refl _).append hlater

theorem mem_slice_zipIdx : (x, i) ∈ slice xs.zipIdx a b ↔ xs[i]? = some x ∧ a ≤ i ∧ i < b := by
  have hget : ∀ k, (slice xs.zipIdx a b)[k]? = if a + k < b then xs[a + k]?.map fun y => (y, a + k) else none := by
    intro k
    rw [slice, List.getElem?_drop, List.getElem?_take]
    split_ifs with hk
    · rw [List.getElem?_zipIdx, Nat.zero_add]
    · rfl
  rw [List.mem_iff_getElem?]
  constructor
  · rintro ⟨k, hk⟩
    rw [hget] at hk
    split_ifs at hk with hlt
    obtain ⟨y, hy, heq⟩ := Option.map_eq_some_iff.mp hk
    obtain ⟨rfl, rfl⟩ := Prod.mk.inj heq
    exact ⟨hy, Nat.le_add_right a k, hlt⟩
  · rintro ⟨hx, hle, hlt⟩
    refine ⟨i - a, ?_⟩
    rw [hget, Nat.add_sub_of_le hle, if_pos hlt, hx]
    rfl

theorem Fits.le_of_covered (h : Fits n cuts) (hi : Cut.Covered cuts i) : n ≤ i := by
  induction cuts generalizing n with
  | nil =>
    obtain ⟨c, hc, _⟩ := hi
    cases hc
  | cons c cuts ih =>
    obtain ⟨hstart, hproper, hrest⟩ := h
    obtain ⟨d, hd, hhas⟩ := hi
    rcases List.mem_cons.mp hd with rfl | hd
    · exact hstart.trans hhas.1
    · exact (hstart.trans hproper).trans (ih hrest ⟨d, hd, hhas⟩)

theorem mem_uncut_zipIdx (h : Fits n cuts) :
    (x, i) ∈ uncut xs.zipIdx n cuts ↔ xs[i]? = some x ∧ n ≤ i ∧ ¬ Cut.Covered cuts i := by
  induction cuts generalizing n with
  | nil =>
    have hnone : ¬ Cut.Covered ([] : List (Cut μ)) i := by
      rintro ⟨c, hc, _⟩
      cases hc
    have hall := @mem_slice_zipIdx _ xs x i n xs.length
    rw [slice, List.take_of_length_le (by simp)] at hall
    rw [uncut, hall]
    constructor
    · rintro ⟨hx, hle, _⟩
      exact ⟨hx, hle, hnone⟩
    · rintro ⟨hx, hle, _⟩
      exact ⟨hx, hle, (List.getElem?_eq_some_iff.mp hx).1⟩
  | cons c cuts ih =>
    obtain ⟨hstart, hproper, hrest⟩ := h
    have hcons : Cut.Covered (c :: cuts) i ↔ c.Has i ∨ Cut.Covered cuts i := List.exists_mem_cons_iff ..
    rw [uncut, List.mem_append, mem_slice_zipIdx, ih hrest, hcons]
    constructor
    · rintro (⟨hx, hle, hlt⟩ | ⟨hx, hle, hnot⟩)
      · refine ⟨hx, hle, ?_⟩
        rintro (hhas | hcov)
        · exact absurd hhas.1 (not_le.mpr hlt)
        · exact absurd (hproper.trans (hrest.le_of_covered hcov)) (not_le.mpr hlt)
      · refine ⟨hx, hstart.trans (hproper.trans hle), ?_⟩
        rintro (hhas | hcov)
        · exact absurd hhas.2 (not_lt.mpr hle)
        · exact hnot hcov
    · rintro ⟨hx, hle, hnot⟩
      rw [not_or] at hnot
      rcases lt_or_ge i c.start with hlt | hge
      · exact Or.inl ⟨hx, hle, hlt⟩
      · exact Or.inr ⟨hx, not_lt.mp fun hlt => hnot.1 ⟨hge, hlt⟩, hnot.2⟩

end Removing

end EdgarSec.Lib
