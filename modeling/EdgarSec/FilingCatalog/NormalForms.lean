import EdgarSec.FilingCatalog.DateSelection
import EdgarSec.Lib.Outcome

/-! What normalization does to the points that the clauses cover: merged intervals and labelled
year segments are normal lists, and show what the clauses show. -/

namespace EdgarSec.FilingCatalog
open EdgarSec.Lib

/-! ## The order of the intervals -/

section Merging
variable {α : Type} [LinearOrder α]

theorem boundLe_trans {a b c : Option α} (h : boundLe a b = true) (h' : boundLe b c = true) :
    boundLe a c = true := by
  cases a with
  | none => rfl
  | some a =>
    cases b with
    | none => cases h
    | some b =>
      cases c with
      | none => cases h'
      | some c =>
        simp only [boundLe, decide_eq_true_eq] at *
        exact h.trans h'

theorem boundLe_total (a b : Option α) : (boundLe a b || boundLe b a) = true := by
  cases a <;> cases b <;> simp [boundLe, le_total]

theorem boundLe_antisymm {a b : Option α} (h : boundLe a b = true) (h' : boundLe b a = true) : a = b := by
  cases a with
  | none =>
    cases b with
    | none => rfl
    | some b => cases h'
  | some a =>
    cases b with
    | none => cases h
    | some b =>
      simp only [boundLe, decide_eq_true_eq] at *
      rw [le_antisymm h h']

theorem boundLe_start {i j : Span α} (h : intervalLe i j = true) : boundLe i.1 j.1 = true := by
  unfold intervalLe at h
  split_ifs at h with heq
  · rw [heq]
    have htotal := boundLe_total j.1 j.1
    simpa using htotal
  · exact h

theorem intervalLe_total (i j : Span α) : (intervalLe i j || intervalLe j i) = true := by
  unfold intervalLe
  by_cases h : i.1 = j.1
  · simpa [h] using boundLe_total i.2 j.2
  · have h' : ¬ j.1 = i.1 := fun heq => h heq.symm
    simpa [h, h'] using boundLe_total i.1 j.1

theorem intervalLe_trans (i j k : Span α) (h : intervalLe i j = true) (h' : intervalLe j k = true) :
    intervalLe i k = true := by
  have hstart := boundLe_trans (boundLe_start h) (boundLe_start h')
  by_cases hik : i.1 = k.1
  · -- all three start together
    have hij : i.1 = j.1 := boundLe_antisymm (boundLe_start h) (hik ▸ boundLe_start h')
    have hjk : j.1 = k.1 := hij.symm.trans hik
    rw [intervalLe, if_pos hij] at h
    rw [intervalLe, if_pos hjk] at h'
    rw [intervalLe, if_pos hik]
    exact boundLe_trans h h'
  · rw [intervalLe, if_neg hik]
    exact hstart

/-! ## Merged intervals -/

theorem laterEnd_none_iff {a b : Option α} : laterEnd a b = none ↔ a = none ∨ b = none := by
  cases a <;> cases b <;> simp [laterEnd]
  split_ifs <;> simp

theorem le_laterEnd_iff {a b : Option α} {x : α} :
    (∀ e ∈ laterEnd a b, x ≤ e) ↔ (∀ e ∈ a, x ≤ e) ∨ ∀ e ∈ b, x ≤ e := by
  cases a with
  | none => simp [laterEnd]
  | some e =>
    cases b with
    | none => simp [laterEnd]
    | some e' =>
      by_cases hlt : e < e'
      · simp only [laterEnd, hlt, if_true, Option.mem_some_iff, forall_eq']
        exact ⟨Or.inr, fun h => h.elim (fun hx => hx.trans hlt.le) id⟩
      · simp only [laterEnd, hlt, if_false, Option.mem_some_iff, forall_eq']
        exact ⟨Or.inl, fun h => h.elim id fun hx => hx.trans (not_lt.mp hlt)⟩

theorem covers_union [SuccOrder α] {i j : Span α} (hle : boundLe i.1 j.1 = true)
    (htouch : overlapsOrTouches Order.succ i.2 j.1 = true) {pt : Point α} :
    Covers (i.1, laterEnd i.2 j.2) pt ↔ Covers i pt ∨ Covers j pt := by
  cases pt with
  | bot =>
    show i.1 = none ↔ i.1 = none ∨ j.1 = none
    refine ⟨Or.inl, fun h => h.elim id fun hj => ?_⟩
    rw [hj] at hle
    cases hi : i.1 with
    | none => rfl
    | some s =>
      rw [hi] at hle
      cases hle
  | top =>
    show laterEnd i.2 j.2 = none ↔ i.2 = none ∨ j.2 = none
    exact laterEnd_none_iff
  | «at» x =>
    show (∀ s ∈ i.1, s ≤ x) ∧ (∀ e ∈ laterEnd i.2 j.2, x ≤ e) ↔
      ((∀ s ∈ i.1, s ≤ x) ∧ ∀ e ∈ i.2, x ≤ e) ∨ ((∀ s ∈ j.1, s ≤ x) ∧ ∀ e ∈ j.2, x ≤ e)
    rw [le_laterEnd_iff]
    constructor
    · rintro ⟨hstart, hend⟩
      by_cases hi : ∀ e ∈ i.2, x ≤ e
      · exact Or.inl ⟨hstart, hi⟩
      · -- behind the end of the first, so not before the start of the second
        refine Or.inr ⟨fun s hs => ?_, hend.resolve_left hi⟩
        push Not at hi
        obtain ⟨e, he, hlt⟩ := hi
        rw [Option.mem_def.mp he, Option.mem_def.mp hs] at htouch
        have hsucc : s ≤ Order.succ e := by simpa [overlapsOrTouches] using htouch
        exact hsucc.trans (Order.succ_le_of_lt hlt)
    · rintro (⟨hstart, hend⟩ | ⟨hstart, hend⟩)
      · exact ⟨hstart, Or.inl hend⟩
      · refine ⟨fun s hs => ?_, Or.inr hend⟩
        rw [Option.mem_def.mp hs] at hle
        cases hj : j.1 with
        | none =>
          rw [hj] at hle
          cases hle
        | some s' =>
          rw [hj] at hle
          have hss : s ≤ s' := by simpa [boundLe] using hle
          exact hss.trans (hstart s' hj)

theorem proper_union {i j : Span α} (hi : Proper i) : Proper (i.1, laterEnd i.2 j.2) := by
  intro s hs
  exact le_laterEnd_iff.mpr (Or.inl (hi s hs))

theorem mergeFrom_head (shift : α → α) (current : Span α) (rest : List (Span α)) :
    ∃ e l, mergeFrom shift current rest = (current.1, e) :: l := by
  induction rest generalizing current with
  | nil => exact ⟨current.2, [], rfl⟩
  | cons next rest ih =>
    unfold mergeFrom
    split_ifs
    · exact ih (current.1, laterEnd current.2 next.2)
    · exact ⟨current.2, _, rfl⟩

def unlabelled (l : List (Span α)) : List (Span α × Unit) := l.map (·, ())

theorem shows_unlabelled {l : List (Span α)} {pt : Point α} {u : Unit} :
    Shows (unlabelled l) pt u ↔ ∃ i ∈ l, Covers i pt := by
  simp [Shows, unlabelled]

variable [SuccOrder α]

theorem covers_mergeFrom {current : Span α} {rest : List (Span α)}
    (hsorted : (current :: rest).Pairwise fun i j => boundLe i.1 j.1 = true) {pt : Point α} :
    (∃ i ∈ mergeFrom Order.succ current rest, Covers i pt) ↔ ∃ i ∈ current :: rest, Covers i pt := by
  induction rest generalizing current with
  | nil => rfl
  | cons next rest ih =>
    obtain ⟨hcurrent, hrest⟩ := List.pairwise_cons.mp hsorted
    unfold mergeFrom
    split_ifs with htouch
    · have hunion : ((current.1, laterEnd current.2 next.2) :: rest).Pairwise
          fun i j => boundLe i.1 j.1 = true :=
        List.pairwise_cons.mpr ⟨fun j hj => hcurrent j (List.mem_cons_of_mem next hj),
          (List.pairwise_cons.mp hrest).2⟩
      rw [ih hunion]
      simp only [List.exists_mem_cons_iff, covers_union (hcurrent next List.mem_cons_self) htouch,
        or_assoc]
    · simp only [List.exists_mem_cons_iff, ih hrest]

theorem normal_mergeFrom {current : Span α} {rest : List (Span α)}
    (hproper : ∀ i ∈ current :: rest, Proper i) :
    Normal (unlabelled (mergeFrom Order.succ current rest)) := by
  induction rest generalizing current with
  | nil => exact hproper current List.mem_cons_self
  | cons next rest ih =>
    have hcurrent := hproper current List.mem_cons_self
    have hrest : ∀ i ∈ next :: rest, Proper i := fun i hi => hproper i (List.mem_cons_of_mem current hi)
    unfold mergeFrom
    split_ifs with htouch
    · apply ih
      intro i hi
      rcases List.mem_cons.mp hi with rfl | hi
      · exact proper_union hcurrent
      · exact hrest i (List.mem_cons_of_mem next hi)
    · obtain ⟨e', l, hhead⟩ := mergeFrom_head Order.succ next rest
      have hnormal := ih hrest
      rw [hhead] at hnormal ⊢
      refine ⟨hcurrent, ?_, hnormal⟩
      -- a gap of at least one point
      cases he : current.2 with
      | none => simp [overlapsOrTouches, he] at htouch
      | some e =>
        cases hs : next.1 with
        | none => simp [overlapsOrTouches, he, hs] at htouch
        | some s =>
          have hgap : Order.succ e < s := by simpa [overlapsOrTouches, he, hs] using htouch
          exact ⟨e, s, he, rfl, (Order.le_succ e).trans_lt hgap, fun hle => absurd hle (not_le.mpr hgap)⟩

theorem covers_mergeIntervals {intervals : List (Span α)} {pt : Point α} :
    (∃ i ∈ mergeIntervals Order.succ intervals, Covers i pt) ↔ ∃ i ∈ intervals, Covers i pt := by
  have hmem : ∀ i, i ∈ intervals.mergeSort intervalLe ↔ i ∈ intervals := fun i => List.mem_mergeSort
  have hsorted := List.pairwise_mergeSort (@intervalLe_trans α _) intervalLe_total intervals
  unfold mergeIntervals
  cases hsort : intervals.mergeSort intervalLe with
  | nil =>
    have hnil : ∀ i, i ∉ intervals := fun i hi => by
      have hi' := (hmem i).mpr hi
      rw [hsort] at hi'
      cases hi'
    simp [hnil]
  | cons first rest =>
    rw [hsort] at hsorted
    rw [covers_mergeFrom (hsorted.imp boundLe_start), ← hsort]
    simp only [hmem]

theorem normal_mergeIntervals {intervals : List (Span α)} (hproper : ∀ i ∈ intervals, Proper i) :
    Normal (unlabelled (mergeIntervals Order.succ intervals)) := by
  unfold mergeIntervals
  cases hsort : intervals.mergeSort intervalLe with
  | nil => trivial
  | cons first rest =>
    apply normal_mergeFrom
    intro i hi
    rw [← hsort, List.mem_mergeSort] at hi
    exact hproper i hi

theorem eq_of_covers {l l' : List (Span α)} (h : Normal (unlabelled l)) (h' : Normal (unlabelled l'))
    (hsame : ∀ pt, (∃ i ∈ l, Covers i pt) ↔ ∃ i ∈ l', Covers i pt) : l = l' := by
  have heq : unlabelled l = unlabelled l' := by
    apply h.unique h'
    intro pt u
    rw [shows_unlabelled, shows_unlabelled, hsame]
  have hmap := congrArg (List.map Prod.fst) heq
  simpa [unlabelled, Function.comp_def] using hmap

end Merging

/-! ## Year segments -/

section Years
variable {interval segment : Span Int} {pt : Point Int} {b : Int}

/-- No segment boundary `b` falls inside. -/
def Undivided (segment : Span Int) (b : Int) : Prop :=
  (∃ s ∈ segment.1, b ≤ s) ∨ ∃ e ∈ segment.2, e < b

theorem notBefore_iff (h : Undivided segment b) (hpt : Covers segment pt) :
    NotBefore b pt ↔ ∃ s ∈ segment.1, b ≤ s := by
  obtain ⟨hstart, hend⟩ := covers_iff.mp hpt
  constructor
  · intro hb
    rcases h with h | ⟨e, he, hlt⟩
    · exact h
    · have hx := hend e he
      cases pt with
      | bot => exact hb.elim
      | top => exact hx.elim
      | «at» x => exact absurd (hb.trans hx) (not_le.mpr hlt)
  · rintro ⟨s, hs, hle⟩
    have hx := hstart s hs
    cases pt with
    | bot => exact hx.elim
    | top => trivial
    | «at» x => exact hle.trans hx

theorem notAfter_iff (h : Undivided segment (b + 1)) (hpt : Covers segment pt) :
    NotAfter b pt ↔ ∃ e ∈ segment.2, e ≤ b := by
  obtain ⟨hstart, hend⟩ := covers_iff.mp hpt
  constructor
  · intro hb
    rcases h with ⟨s, hs, hle⟩ | ⟨e, he, hlt⟩
    · have hx := hstart s hs
      cases pt with
      | bot => exact hx.elim
      | top => exact hb.elim
      | «at» x => exact absurd (hle.trans hx) (not_le.mpr (Int.lt_add_one_of_le hb))
    · exact ⟨e, he, Int.lt_add_one_iff.mp hlt⟩
  · rintro ⟨e, he, hle⟩
    have hx := hend e he
    cases pt with
    | bot => trivial
    | top => exact hx.elim
    | «at» x => exact le_trans hx hle

theorem coversYear_eq_true : coversYear interval segment = true ↔
    (∀ b ∈ interval.1, ∃ s ∈ segment.1, b ≤ s) ∧ ∀ b ∈ interval.2, ∃ e ∈ segment.2, e ≤ b := by
  obtain ⟨a, c⟩ := interval
  obtain ⟨s, e⟩ := segment
  cases a <;> cases c <;> cases s <;> cases e <;> simp [coversYear]

theorem coversYear_iff (hstart : ∀ b ∈ interval.1, Undivided segment b)
    (hend : ∀ b ∈ interval.2, Undivided segment (b + 1)) (hpt : Covers segment pt) :
    coversYear interval segment = true ↔ Covers interval pt := by
  rw [coversYear_eq_true, covers_iff]
  refine and_congr ?_ ?_
  · exact forall₂_congr fun b hb => (notBefore_iff (hstart b hb) hpt).symm
  · exact forall₂_congr fun b hb => (notAfter_iff (hend b hb) hpt).symm

theorem start_segmentsFrom {year : Int} {rest : List Int} (h : (year :: rest).Pairwise (· < ·))
    {i : Span Int} (hi : i ∈ segmentsFrom year rest) : ∃ s, i.1 = some s ∧ year ≤ s := by
  induction rest generalizing year with
  | nil =>
    obtain rfl := List.mem_singleton.mp hi
    exact ⟨year, rfl, le_refl year⟩
  | cons next rest ih =>
    obtain ⟨hyear, hrest⟩ := List.pairwise_cons.mp h
    rcases List.mem_cons.mp hi with rfl | hi
    · exact ⟨year, rfl, le_refl year⟩
    · obtain ⟨s, hs, hle⟩ := ih hrest hi
      exact ⟨s, hs, (hyear next List.mem_cons_self).le.trans hle⟩

theorem proper_segmentsFrom {year : Int} {rest : List Int} (h : (year :: rest).Pairwise (· < ·))
    {i : Span Int} (hi : i ∈ segmentsFrom year rest) : Proper i := by
  induction rest generalizing year with
  | nil =>
    obtain rfl := List.mem_singleton.mp hi
    intro s _ e he
    cases he
  | cons next rest ih =>
    obtain ⟨hyear, hrest⟩ := List.pairwise_cons.mp h
    rcases List.mem_cons.mp hi with rfl | hi
    · intro s hs e he
      have hlt := hyear next List.mem_cons_self
      obtain rfl := Option.some.inj hs
      obtain rfl := Option.some.inj he
      omega
    · exact ih hrest hi

theorem before_segmentsFrom {year : Int} {rest : List Int} (h : (year :: rest).Pairwise (· < ·)) :
    (segmentsFrom year rest).Pairwise Before := by
  induction rest generalizing year with
  | nil => exact List.pairwise_singleton _ _
  | cons next rest ih =>
    obtain ⟨_, hrest⟩ := List.pairwise_cons.mp h
    refine List.pairwise_cons.mpr ⟨fun j hj => ?_, ih hrest⟩
    obtain ⟨s, hs, hle⟩ := start_segmentsFrom hrest hj
    exact ⟨next - 1, s, rfl, hs, by omega⟩

theorem covers_segmentsFrom (year : Int) (rest : List Int) {pt : Point Int} (hpt : NotBefore year pt) :
    ∃ i ∈ segmentsFrom year rest, Covers i pt := by
  induction rest generalizing year with
  | nil =>
    refine ⟨(some year, none), List.mem_singleton_self _, covers_iff.mpr ⟨?_, by simp⟩⟩
    rintro s hs
    obtain rfl := Option.some.inj hs
    exact hpt
  | cons next rest ih =>
    by_cases hnext : NotBefore next pt
    · obtain ⟨i, hi, hcov⟩ := ih next hnext
      exact ⟨i, List.mem_cons_of_mem _ hi, hcov⟩
    · refine ⟨_, List.mem_cons_self, covers_iff.mpr ⟨?_, ?_⟩⟩
      · rintro s hs
        obtain rfl := Option.some.inj hs
        exact hpt
      · rintro e he
        obtain rfl := Option.some.inj he
        cases pt with
        | bot => trivial
        | top => exact absurd trivial hnext
        | «at» x =>
          have hlt : x < next := not_le.mp hnext
          show x ≤ next - 1
          omega

theorem undivided_segmentsFrom {year : Int} {rest : List Int} (h : (year :: rest).Pairwise (· < ·))
    (hb : b ≤ year ∨ b ∈ rest) {i : Span Int} (hi : i ∈ segmentsFrom year rest) : Undivided i b := by
  induction rest generalizing year with
  | nil =>
    obtain rfl := List.mem_singleton.mp hi
    rcases hb with hb | hb
    · exact Or.inl ⟨year, rfl, hb⟩
    · cases hb
  | cons next rest ih =>
    obtain ⟨hyear, hrest⟩ := List.pairwise_cons.mp h
    have hlt := hyear next List.mem_cons_self
    rcases List.mem_cons.mp hi with rfl | hi
    · rcases hb with hb | hb
      · exact Or.inl ⟨year, rfl, hb⟩
      · have hle : next ≤ b := by
          rcases List.mem_cons.mp hb with rfl | hb
          · exact le_refl b
          · exact ((List.pairwise_cons.mp hrest).1 b hb).le
        exact Or.inr ⟨next - 1, rfl, by omega⟩
    · refine ih hrest ?_ hi
      rcases hb with hb | hb
      · exact Or.inl (by omega)
      · rcases List.mem_cons.mp hb with rfl | hb
        · exact Or.inl (le_refl b)
        · exact Or.inr hb

variable {intervals : List (Span Int)}

theorem sorted_boundaries : ((boundaries intervals).sort (· ≤ ·)).Pairwise (· < ·) :=
  (Finset.sortedLT_sort _).pairwise

theorem segments_ordered : (∀ i ∈ yearSegments intervals, Proper i) ∧
    (yearSegments intervals).Pairwise Before := by
  have hsorted := @sorted_boundaries intervals
  unfold yearSegments
  cases hb : (boundaries intervals).sort (· ≤ ·) with
  | nil => simp [Proper]
  | cons first rest =>
    rw [hb] at hsorted
    refine ⟨fun i hi => ?_, List.pairwise_cons.mpr ⟨fun j hj => ?_, before_segmentsFrom hsorted⟩⟩
    · rcases List.mem_cons.mp hi with rfl | hi
      · intro s hs
        cases hs
      · exact proper_segmentsFrom hsorted hi
    · obtain ⟨s, hs, hle⟩ := start_segmentsFrom hsorted hj
      exact ⟨first - 1, s, rfl, hs, by omega⟩

theorem exists_segment (intervals : List (Span Int)) (pt : Point Int) :
    ∃ i ∈ yearSegments intervals, Covers i pt := by
  unfold yearSegments
  cases hb : (boundaries intervals).sort (· ≤ ·) with
  | nil => exact ⟨(none, none), List.mem_singleton_self _, covers_iff.mpr ⟨by simp, by simp⟩⟩
  | cons first rest =>
    by_cases hfirst : NotBefore first pt
    · obtain ⟨i, hi, hcov⟩ := covers_segmentsFrom first rest hfirst
      exact ⟨i, List.mem_cons_of_mem _ hi, hcov⟩
    · refine ⟨(none, some (first - 1)), List.mem_cons_self, covers_iff.mpr ⟨by simp, ?_⟩⟩
      rintro e he
      obtain rfl := Option.some.inj he
      cases pt with
      | bot => trivial
      | top => exact absurd trivial hfirst
      | «at» x =>
        have hlt : x < first := not_le.mp hfirst
        show x ≤ first - 1
        omega

theorem segment_undivided (hb : b ∈ boundaries intervals) (hs : segment ∈ yearSegments intervals) :
    Undivided segment b := by
  have hsorted := @sorted_boundaries intervals
  have hmem : b ∈ (boundaries intervals).sort (· ≤ ·) := (Finset.mem_sort _).mpr hb
  unfold yearSegments at hs
  cases hsort : (boundaries intervals).sort (· ≤ ·) with
  | nil =>
    rw [hsort] at hmem
    cases hmem
  | cons first rest =>
    rw [hsort] at hsorted hmem hs
    rcases List.mem_cons.mp hs with rfl | hs
    · have hle : first ≤ b := by
        rcases List.mem_cons.mp hmem with rfl | hmem
        · exact le_refl b
        · exact ((List.pairwise_cons.mp hsorted).1 b hmem).le
      exact Or.inr ⟨first - 1, rfl, by omega⟩
    · refine undivided_segmentsFrom hsorted ?_ hs
      rcases List.mem_cons.mp hmem with rfl | hmem
      · exact Or.inl (le_refl b)
      · exact Or.inr hmem

theorem coversYear_segment (hi : interval ∈ intervals) (hs : segment ∈ yearSegments intervals)
    (hpt : Covers segment pt) : coversYear interval segment = true ↔ Covers interval pt := by
  have hmem : ∀ b, b ∈ interval.1.toList ++ (interval.2.map (· + 1)).toList → b ∈ boundaries intervals := by
    intro b hb
    rw [boundaries, List.mem_toFinset, List.mem_flatMap]
    exact ⟨interval, hi, hb⟩
  apply coversYear_iff _ _ hpt
  · intro b hb
    exact segment_undivided (hmem b (by simp [Option.mem_def.mp hb])) hs
  · intro b hb
    exact segment_undivided (hmem (b + 1) (by simp [Option.mem_def.mp hb])) hs

/-! ## Labels -/

variable {last : Span Int × List Nat} {rest : List (Span Int × List Nat)} {vs : List Nat}

theorem labelFrom_head (last : Span Int × List Nat) (rest : List (Span Int × List Nat)) :
    ∃ e l, labelFrom last rest = ((last.1.1, e), last.2) :: l := by
  induction rest generalizing last with
  | nil => exact ⟨last.1.2, [], rfl⟩
  | cons next rest ih =>
    unfold labelFrom
    split_ifs
    · exact ih ((last.1.1, next.1.2), last.2)
    · exact ⟨last.1.2, _, rfl⟩

theorem covers_joined {i j : Span Int} {e : Int} (hi : Proper i) (hj : Proper j) (he : i.2 = some e)
    (hs : j.1 = some (e + 1)) : Covers (i.1, j.2) pt ↔ Covers i pt ∨ Covers j pt := by
  cases pt with
  | bot =>
    show i.1 = none ↔ i.1 = none ∨ j.1 = none
    simp [hs]
  | top =>
    show j.2 = none ↔ i.2 = none ∨ j.2 = none
    simp [he]
  | «at» x =>
    show (∀ s ∈ i.1, s ≤ x) ∧ (∀ e ∈ j.2, x ≤ e) ↔
      ((∀ s ∈ i.1, s ≤ x) ∧ ∀ e ∈ i.2, x ≤ e) ∨ ((∀ s ∈ j.1, s ≤ x) ∧ ∀ e ∈ j.2, x ≤ e)
    constructor
    · rintro ⟨hstart, hend⟩
      rcases le_or_gt x e with hle | hgt
      · exact Or.inl ⟨hstart, fun e' he' => by
          obtain rfl := Option.some.inj (he.symm.trans he')
          exact hle⟩
      · exact Or.inr ⟨fun s' hs' => by
          obtain rfl := Option.some.inj (hs.symm.trans hs')
          omega, hend⟩
    · rintro (⟨hstart, hend⟩ | ⟨hstart, hend⟩)
      · refine ⟨hstart, fun e' he' => ?_⟩
        have hx := hend e he
        have hej := hj (e + 1) hs e' he'
        omega
      · refine ⟨fun s' hs' => ?_, hend⟩
        have hx := hstart (e + 1) hs
        have hsi := hi s' hs' e he
        omega

theorem ordered_joined {next : Span Int × List Nat} (h : Ordered (last :: next :: rest)) :
    Ordered (((last.1.1, next.1.2), last.2) :: rest) := by
  obtain ⟨hlast, ⟨e, s, he, hs, hlt⟩, hnext⟩ := h
  have hproper : Proper (last.1.1, next.1.2) := by
    intro s' hs' e' he'
    have h₁ := hlast s' hs' e he
    have h₂ := hnext.proper s hs e' he'
    omega
  cases rest with
  | nil => exact hproper
  | cons r rest => exact ⟨hproper, hnext.2.1, hnext.2.2⟩

theorem shows_labelFrom (h : Ordered (last :: rest)) :
    Shows (labelFrom last rest) pt vs ↔ Shows (last :: rest) pt vs := by
  induction rest generalizing last with
  | nil => rfl
  | cons next rest ih =>
    unfold labelFrom
    split_ifs with hjoin
    · obtain ⟨hvs, hsome, habut⟩ := hjoin
      obtain ⟨e, he⟩ := Option.isSome_iff_exists.mp hsome
      have hs : next.1.1 = some (e + 1) := by rw [← habut, he, Option.map_some]
      rw [ih (ordered_joined h), shows_cons, shows_cons, shows_cons]
      show Covers (last.1.1, next.1.2) pt ∧ vs = last.2 ∨ _ ↔ _
      rw [covers_joined h.proper h.tail.proper he hs, ← hvs, or_and_right, or_assoc]
    · rw [shows_cons, ih h.tail, ← shows_cons]

theorem normal_labelFrom (h : Ordered (last :: rest)) : Normal (labelFrom last rest) := by
  induction rest generalizing last with
  | nil => exact h
  | cons next rest ih =>
    unfold labelFrom
    split_ifs with hjoin
    · exact ih (ordered_joined h)
    · obtain ⟨e', l, hhead⟩ := labelFrom_head next rest
      have hnormal := ih h.tail
      rw [hhead] at hnormal ⊢
      obtain ⟨e, s, he, hs, hlt⟩ := h.2.1
      refine ⟨h.proper, ⟨e, s, he, hs, hlt, fun hle hvs => ?_⟩, hnormal⟩
      -- they abut, so only a difference of the labels keeps them apart
      have hsucc : s = e + 1 := by
        have hle' : s ≤ e + 1 := hle
        omega
      exact hjoin ⟨hvs, by simp [he], by rw [he, hs, hsucc, Option.map_some]⟩

/-! ## Values -/

variable {values : List (Nat × List (Span Int))} {entries : List (Nat × Span Int)} {v : Nat}

def ValueAt (values : List (Nat × List (Span Int))) (pt : Point Int) (v : Nat) : Prop :=
  ∃ spans, (v, spans) ∈ values ∧ ∃ span ∈ spans, Covers span pt

theorem mem_segmentValues (hs : segment ∈ yearSegments (values.flatMap Prod.snd))
    (hpt : Covers segment pt) : v ∈ segmentValues values segment ↔ ValueAt values pt v := by
  unfold segmentValues ValueAt
  rw [List.mem_mergeSort, List.mem_map]
  constructor
  · rintro ⟨⟨w, spans⟩, hw, rfl⟩
    obtain ⟨hw, hany⟩ := List.mem_filter.mp hw
    obtain ⟨span, hspan, hcov⟩ := List.any_eq_true.mp hany
    have hin : span ∈ values.flatMap Prod.snd := List.mem_flatMap.mpr ⟨(w, spans), hw, hspan⟩
    exact ⟨spans, hw, span, hspan, (coversYear_segment hin hs hpt).mp hcov⟩
  · rintro ⟨spans, hv, span, hspan, hcov⟩
    have hin : span ∈ values.flatMap Prod.snd := List.mem_flatMap.mpr ⟨(v, spans), hv, hspan⟩
    refine ⟨(v, spans), List.mem_filter.mpr ⟨hv, ?_⟩, rfl⟩
    exact List.any_eq_true.mpr ⟨span, hspan, (coversYear_segment hin hs hpt).mpr hcov⟩

theorem sorted_segmentValues (hnodup : (values.map Prod.fst).Nodup) :
    (segmentValues values segment).Pairwise (· < ·) := by
  have hsub : ((values.filter fun v => v.2.any fun span => coversYear span segment).map Prod.fst).Nodup :=
    hnodup.sublist (List.filter_sublist.map Prod.fst)
  have hsort : (segmentValues values segment).Pairwise (· ≤ ·) := List.pairwise_mergeSort' _ _
  have hnd : (segmentValues values segment).Nodup := (List.mergeSort_perm _ _).nodup_iff.mpr hsub
  exact (hsort.and hnd).imp fun h => lt_of_le_of_ne h.1 h.2

def labels (values : List (Nat × List (Span Int))) : List (Span Int × List Nat) :=
  ((yearSegments (values.flatMap Prod.snd)).map fun s => (s, segmentValues values s)).filter
    fun l => l.2 ≠ []

theorem ordered_labels (values : List (Nat × List (Span Int))) : Ordered (labels values) := by
  obtain ⟨hproper, hbefore⟩ := @segments_ordered (values.flatMap Prod.snd)
  refine Ordered.sublist (ordered_iff.mpr ⟨fun p hp => ?_, ?_⟩) List.filter_sublist
  · obtain ⟨s, hs, rfl⟩ := List.mem_map.mp hp
    exact hproper s hs
  · rw [List.pairwise_map]
    exact hbefore

theorem shows_labels : Shows (labels values) pt vs ↔ vs ≠ [] ∧
    ∃ s ∈ yearSegments (values.flatMap Prod.snd), Covers s pt ∧ vs = segmentValues values s := by
  unfold Shows labels
  simp only [List.mem_filter, List.mem_map, Prod.mk.injEq, decide_eq_true_eq]
  constructor
  · rintro ⟨i, ⟨⟨s, hs, rfl, rfl⟩, hne⟩, hcov⟩
    exact ⟨hne, s, hs, hcov, rfl⟩
  · rintro ⟨hne, s, hs, hcov, rfl⟩
    exact ⟨s, ⟨⟨s, hs, rfl, rfl⟩, hne⟩, hcov⟩

theorem labelled_eq : labelled values = match labels values with
    | [] => []
    | first :: rest => labelFrom first rest := rfl

theorem shows_labelled_iff_labels : Shows (labelled values) pt vs ↔ Shows (labels values) pt vs := by
  have hordered := ordered_labels values
  rw [labelled_eq]
  cases hl : labels values with
  | nil => rfl
  | cons first rest =>
    rw [hl] at hordered
    exact shows_labelFrom hordered

theorem normal_labelled (values : List (Nat × List (Span Int))) : Normal (labelled values) := by
  have hordered := ordered_labels values
  rw [labelled_eq]
  cases hl : labels values with
  | nil => trivial
  | cons first rest =>
    rw [hl] at hordered
    exact normal_labelFrom hordered

theorem shows_labelled (hnodup : (values.map Prod.fst).Nodup) : Shows (labelled values) pt vs ↔
    vs ≠ [] ∧ vs.Pairwise (· < ·) ∧ ∀ v, v ∈ vs ↔ ValueAt values pt v := by
  rw [shows_labelled_iff_labels, shows_labels]
  refine and_congr_right fun _ => ?_
  constructor
  · rintro ⟨s, hs, hcov, rfl⟩
    exact ⟨sorted_segmentValues hnodup, fun v => mem_segmentValues hs hcov⟩
  · rintro ⟨hsorted, hmem⟩
    obtain ⟨s, hs, hcov⟩ := exists_segment (values.flatMap Prod.snd) pt
    refine ⟨s, hs, hcov, ?_⟩
    apply hsorted.eq_of_mem_iff (sorted_segmentValues hnodup)
    intro v
    rw [hmem, mem_segmentValues hs hcov]

/-! ## The entries of one granularity -/

def EntryAt (entries : List (Nat × Span Int)) (pt : Point Int) (v : Nat) : Prop :=
  ∃ span, (v, span) ∈ entries ∧ Covers span pt

theorem nodup_perValue : ((perValue entries).map Prod.fst).Nodup := by
  have hkeys : (perValue entries).map Prod.fst = (entries.map Prod.fst).dedup := by
    simp [perValue, Function.comp_def]
  rw [hkeys]
  exact List.nodup_dedup _

theorem valueAt_perValue : ValueAt (perValue entries) pt v ↔ EntryAt entries pt v := by
  have hmerge : (∃ span ∈ mergeIntervals (· + 1) ((entries.filter (·.1 = v)).map Prod.snd),
      Covers span pt) ↔ EntryAt entries pt v := by
    rw [show (fun y : Int => y + 1) = Order.succ from rfl, covers_mergeIntervals]
    unfold EntryAt
    constructor
    · rintro ⟨span, hspan, hcov⟩
      obtain ⟨⟨w, i⟩, hentry, rfl⟩ := List.mem_map.mp hspan
      obtain ⟨hmem, hw⟩ := List.mem_filter.mp hentry
      obtain rfl : w = v := by simpa using hw
      exact ⟨i, hmem, hcov⟩
    · rintro ⟨span, hentry, hcov⟩
      exact ⟨span, List.mem_map.mpr ⟨(v, span), List.mem_filter.mpr ⟨hentry, by simp⟩, rfl⟩, hcov⟩
  rw [← hmerge]
  unfold ValueAt perValue
  constructor
  · rintro ⟨spans, hspans, hcov⟩
    obtain ⟨w, _, heq⟩ := List.mem_map.mp hspans
    obtain ⟨rfl, rfl⟩ := Prod.mk.inj heq
    exact hcov
  · intro hcov
    have hkey : v ∈ (entries.map Prod.fst).dedup := by
      obtain ⟨span, hentry, _⟩ := hmerge.mp hcov
      rw [List.mem_dedup]
      exact List.mem_map_of_mem hentry
    exact ⟨_, List.mem_map.mpr ⟨v, hkey, rfl⟩, hcov⟩

theorem shows_entries : Shows (labelled (perValue entries)) pt vs ↔
    vs ≠ [] ∧ vs.Pairwise (· < ·) ∧ ∀ v, v ∈ vs ↔ EntryAt entries pt v := by
  rw [shows_labelled nodup_perValue]
  simp only [valueAt_perValue]

theorem labelled_eq_of_entries {entries' : List (Nat × Span Int)}
    (hsame : ∀ pt v, EntryAt entries pt v ↔ EntryAt entries' pt v) :
    labelled (perValue entries) = labelled (perValue entries') := by
  apply (normal_labelled _).unique (normal_labelled _)
  intro pt vs
  rw [shows_entries, shows_entries]
  simp only [hsame]

end Years
end EdgarSec.FilingCatalog
