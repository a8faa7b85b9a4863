import EdgarSec.FilingCatalog.NormalForms

/-! The normal form of a date selection: it matches what its clauses match, is its own normal
form, and is the same for clauses that match the same dates. -/

namespace EdgarSec.FilingCatalog
open EdgarSec.Lib

/-! ## Absolute clauses -/

def AbsoluteDateClause.span (c : AbsoluteDateClause) : Span Date := (c.startDate, c.endDate)

theorem AbsoluteDateClause.matches_iff {c : AbsoluteDateClause} {d : Date} :
    c.matches d = true ↔ Covers c.span (.at d) := by
  obtain ⟨s, e, h⟩ := c
  cases s <;> cases e <;> simp [AbsoluteDateClause.matches, AbsoluteDateClause.span, Covers]

def AbsoluteAt (clauses : List AbsoluteDateClause) (pt : Point Date) : Prop :=
  ∃ c ∈ clauses, Covers c.span pt

def mergedSpans (clauses : List AbsoluteDateClause) : List (Span Date) :=
  mergeIntervals Date.next (clauses.map AbsoluteDateClause.span)

section Absolute
variable {clauses clauses' : List AbsoluteDateClause} {pt : Point Date}

theorem covers_mergedSpans : (∃ i ∈ mergedSpans clauses, Covers i pt) ↔ AbsoluteAt clauses pt := by
  unfold mergedSpans AbsoluteAt
  rw [show Date.next = Order.succ from rfl, covers_mergeIntervals]
  simp only [List.mem_map, exists_exists_and_eq_and]

theorem normal_mergedSpans : Normal (unlabelled (mergedSpans clauses)) := by
  apply normal_mergeIntervals
  intro i hi
  obtain ⟨c, _, rfl⟩ := List.mem_map.mp hi
  exact c.ordered

theorem mergedSpans_congr (h : ∀ pt, AbsoluteAt clauses pt ↔ AbsoluteAt clauses' pt) :
    mergedSpans clauses = mergedSpans clauses' := by
  apply eq_of_covers normal_mergedSpans normal_mergedSpans
  intro pt
  rw [covers_mergedSpans, covers_mergedSpans, h]

theorem mapM_make {l : List (Span Date)} (h : ∀ i ∈ l, Proper i) :
    ∃ cs, (l.mapM fun i => AbsoluteDateClause.make? i.1 i.2) = .ok cs ∧
      cs.map AbsoluteDateClause.span = l := by
  induction l with
  | nil => exact ⟨[], rfl, rfl⟩
  | cons i l ih =>
    obtain ⟨cs, hcs, hspan⟩ := ih fun j hj => h j (List.mem_cons_of_mem i hj)
    have hi : AbsoluteDateClause.make? i.1 i.2 = .ok ⟨i.1, i.2, h i List.mem_cons_self⟩ := dif_pos _
    refine ⟨⟨i.1, i.2, h i List.mem_cons_self⟩ :: cs, ?_, ?_⟩
    · rw [List.mapM_cons, hi, hcs]
      rfl
    · rw [List.map_cons, hspan]
      rfl

theorem mergeAbsolute_eq (clauses : List AbsoluteDateClause) :
    ∃ merged, mergeAbsolute clauses = .ok merged ∧ merged.map AbsoluteDateClause.span =
      (mergedSpans clauses).filter fun i => i.1.isSome || i.2.isSome := by
  apply mapM_make
  intro i hi
  have hmem : (i, ()) ∈ unlabelled (mergedSpans clauses) :=
    List.mem_map_of_mem (List.mem_of_mem_filter hi)
  exact normal_mergedSpans.ordered.proper_of_mem hmem

theorem mergedSpans_of_open (h : ∀ pt, AbsoluteAt clauses pt) : mergedSpans clauses = [(none, none)] := by
  have hopen : Normal (unlabelled [((none, none) : Span Date)]) := by
    intro s hs
    cases hs
  apply eq_of_covers normal_mergedSpans hopen
  intro pt
  rw [covers_mergedSpans]
  refine iff_of_true (h pt) ⟨(none, none), List.mem_singleton_self _, covers_iff.mpr ⟨?_, ?_⟩⟩
  · intro s hs
    cases hs
  · intro e he
    cases he

theorem filter_mergedSpans (h : ¬ ∀ pt, AbsoluteAt clauses pt) :
    ((mergedSpans clauses).filter fun i => i.1.isSome || i.2.isSome) = mergedSpans clauses := by
  rw [List.filter_eq_self]
  intro i hi
  by_contra hopen
  apply h
  intro pt
  rw [← covers_mergedSpans]
  refine ⟨i, hi, covers_iff.mpr ⟨?_, ?_⟩⟩
  · intro s hs
    simp [Option.mem_def.mp hs] at hopen
  · intro e he
    simp [Option.mem_def.mp he] at hopen

end Absolute

/-! ## Recurring clauses -/

section Recurring
variable {now : Int}

def RecurringDateClause.span (c : RecurringDateClause now) : Span Int := (c.startYear, c.endYear)

theorem RecurringDateClause.make?_ok {g : Granularity} {vs : List Nat} {s e : Option Int}
    (hne : vs ≠ []) (hrange : ∀ v ∈ vs, 1 ≤ v ∧ v ≤ g.limit) (hs : ∀ y ∈ s, isValidYear now y)
    (he : ∀ y ∈ e, isValidYear now y) (hord : Proper (s, e)) :
    RecurringDateClause.make? now g vs s e = .ok ⟨g, vs, s, e, hne, hrange, hs, he, hord⟩ := by
  unfold RecurringDateClause.make?
  rw [dif_neg hne]
  split
  · next v hv =>
    have hin := List.mem_of_find?_eq_some hv
    have hfail := List.find?_some hv
    exact absurd (hrange v hin) (of_decide_eq_true hfail)
  · split
    · next y hy =>
      have hin := List.mem_of_find?_eq_some hy
      have hvalid : isValidYear now y := by
        rcases List.mem_append.mp hin with hin | hin
        · exact hs y (Option.mem_toList.mp hin)
        · exact he y (Option.mem_toList.mp hin)
      have hfail := List.find?_some hy
      exact absurd hvalid (of_decide_eq_true hfail)
    · rw [dif_pos hord]

theorem RecurringDateClause.matches_iff {c : RecurringDateClause now} {d : Date} :
    c.matches d = true ↔ Covers c.span (.at (d.year : Int)) ∧ c.granularity.valueOf d ∈ c.values := by
  obtain ⟨g, vs, s, e, _, _, _, _, _⟩ := c
  cases s <;> cases e <;> simp [RecurringDateClause.matches, RecurringDateClause.span, Covers]

def RecurringAt (clauses : List (RecurringDateClause now)) (g : Granularity) (pt : Point Int) (v : Nat) :
    Prop :=
  ∃ c ∈ clauses, c.granularity = g ∧ v ∈ c.values ∧ Covers c.span pt

variable {clauses clauses' : List (RecurringDateClause now)} {g : Granularity} {pt : Point Int} {v : Nat}

theorem entryAt_entriesOf : EntryAt (entriesOf clauses g) pt v ↔ RecurringAt clauses g pt v := by
  unfold EntryAt entriesOf RecurringAt
  constructor
  · rintro ⟨span, hspan, hcov⟩
    obtain ⟨c, hc, hin⟩ := List.mem_flatMap.mp hspan
    obtain ⟨w, hw, heq⟩ := List.mem_map.mp hin
    obtain ⟨rfl, rfl⟩ := Prod.mk.inj heq
    obtain ⟨hc, hg⟩ := List.mem_filter.mp hc
    exact ⟨c, hc, by simpa using hg, hw, hcov⟩
  · rintro ⟨c, hc, rfl, hv, hcov⟩
    refine ⟨c.span, List.mem_flatMap.mpr ⟨c, List.mem_filter.mpr ⟨hc, by simp⟩, ?_⟩, hcov⟩
    exact List.mem_map.mpr ⟨v, hv, rfl⟩

def segmentsOf (clauses : List (RecurringDateClause now)) (g : Granularity) : List (Span Int × List Nat) :=
  labelled (perValue (entriesOf clauses g))

theorem shows_segmentsOf {vs : List Nat} : Shows (segmentsOf clauses g) pt vs ↔
    vs ≠ [] ∧ vs.Pairwise (· < ·) ∧ ∀ v, v ∈ vs ↔ RecurringAt clauses g pt v := by
  unfold segmentsOf
  rw [shows_entries]
  simp only [entryAt_entriesOf]

theorem normal_segmentsOf : Normal (segmentsOf clauses g) := normal_labelled _

theorem segmentsOf_congr (h : ∀ pt v, RecurringAt clauses g pt v ↔ RecurringAt clauses' g pt v) :
    segmentsOf clauses g = segmentsOf clauses' g := by
  apply labelled_eq_of_entries
  intro pt v
  rw [entryAt_entriesOf, entryAt_entriesOf, h]

theorem recurringAt_iff_shows : RecurringAt clauses g pt v ↔
    ∃ vs, Shows (segmentsOf clauses g) pt vs ∧ v ∈ vs := by
  classical
  constructor
  · intro hv
    -- the values named at the point, in order
    let named := (clauses.flatMap RecurringDateClause.values).toFinset.filter
      fun w => RecurringAt clauses g pt w
    have hnamed : ∀ w, w ∈ named.sort (· ≤ ·) ↔ RecurringAt clauses g pt w := by
      intro w
      rw [Finset.mem_sort, Finset.mem_filter, List.mem_toFinset, List.mem_flatMap]
      refine ⟨And.right, fun hw => ⟨?_, hw⟩⟩
      obtain ⟨c, hc, _, hwc, _⟩ := hw
      exact ⟨c, hc, hwc⟩
    refine ⟨named.sort (· ≤ ·), shows_segmentsOf.mpr ⟨?_, (Finset.sortedLT_sort _).pairwise, hnamed⟩,
      (hnamed v).mpr hv⟩
    exact List.ne_nil_of_mem ((hnamed v).mpr hv)
  · rintro ⟨vs, hshows, hv⟩
    exact ((shows_segmentsOf.mp hshows).2.2 v).mp hv

/-! ### Years at the ends of the valid range -/

theorem RecurringDateClause.covers_early {c : RecurringDateClause now} {y : Int} (hy : y < 1900) :
    Covers c.span (.at y) ↔ Covers c.span .bot := by
  constructor
  · rintro ⟨hstart, _⟩
    show c.startYear = none
    cases hs : c.startYear with
    | none => rfl
    | some s =>
      have hvalid := (c.start_valid s hs).1
      have hle := hstart s hs
      omega
  · intro hnone
    refine ⟨fun s hs => ?_, fun e he => ?_⟩
    · cases (show c.span.1 = none from hnone).symm.trans (Option.mem_def.mp hs)
    · have hvalid := (c.end_valid e he).1
      omega

theorem RecurringDateClause.covers_late {c : RecurringDateClause now} {y : Int}
    (hy : defaultYearUpperBound now < y) : Covers c.span (.at y) ↔ Covers c.span .top := by
  constructor
  · rintro ⟨_, hend⟩
    show c.endYear = none
    cases he : c.endYear with
    | none => rfl
    | some e =>
      have hvalid := (c.end_valid e he).2
      have hle := hend e he
      omega
  · intro hnone
    refine ⟨fun s hs => ?_, fun e he => ?_⟩
    · have hvalid := (c.start_valid s hs).2
      omega
    · cases (show c.span.2 = none from hnone).symm.trans (Option.mem_def.mp he)

theorem recurringAt_early {y : Int} (hy : y < 1900) :
    RecurringAt clauses g (.at y) v ↔ RecurringAt clauses g .bot v := by
  simp only [RecurringAt, RecurringDateClause.covers_early hy]

theorem recurringAt_late {y : Int} (hy : defaultYearUpperBound now < y) :
    RecurringAt clauses g (.at y) v ↔ RecurringAt clauses g .top v := by
  simp only [RecurringAt, RecurringDateClause.covers_late hy]

/-- No value goes on alone past the end of the valid years: where a clause is open there, a
value that a clause of its granularity bounds at the last valid year is open there too. -/
structure YearsKept (clauses : List (RecurringDateClause now)) : Prop where
  first : ∀ c ∈ clauses, c.startYear = none → ∀ c' ∈ clauses, c'.granularity = c.granularity →
    c'.startYear = some 1900 → ∀ v ∈ c'.values,
      ∃ c'' ∈ clauses, c''.granularity = c.granularity ∧ v ∈ c''.values ∧ c''.startYear = none
  last : ∀ c ∈ clauses, c.endYear = none → ∀ c' ∈ clauses, c'.granularity = c.granularity →
    c'.endYear = some (defaultYearUpperBound now) → ∀ v ∈ c'.values,
      ∃ c'' ∈ clauses, c''.granularity = c.granularity ∧ v ∈ c''.values ∧ c''.endYear = none

theorem bound_ge (now : Int) : 2100 ≤ defaultYearUpperBound now := le_max_left _ _

theorem exists_differs {s : Int} {vs : List Nat} (hat : Shows (segmentsOf clauses g) (.at s) vs)
    {y : Int} (hnot : ¬ Shows (segmentsOf clauses g) (.at y) vs) :
    ∃ v, ¬ (RecurringAt clauses g (.at s) v ↔ RecurringAt clauses g (.at y) v) := by
  obtain ⟨hne, hsorted, hmem⟩ := shows_segmentsOf.mp hat
  by_contra hall
  push Not at hall
  exact hnot (shows_segmentsOf.mpr ⟨hne, hsorted, fun v => (hmem v).trans (by have hv := hall v; tauto)⟩)

theorem segment_start_valid (hkept : YearsKept clauses) {l : Span Int × List Nat}
    (hl : l ∈ segmentsOf clauses g) {s : Int} (hs : l.1.1 = some s) : isValidYear now s := by
  have hnormal : Normal (segmentsOf clauses g) := normal_segmentsOf
  have hat : Shows (segmentsOf clauses g) (.at s) l.2 :=
    ⟨l.1, hl, (hnormal.ordered.proper_of_mem hl).covers_start hs⟩
  have hbefore : ¬ Shows (segmentsOf clauses g) (.at (s - 1)) l.2 :=
    hnormal.not_shows_pred hl hs (by omega) (le_of_eq (Int.sub_add_cancel s 1).symm)
  obtain ⟨v, hdiff⟩ := exists_differs hat hbefore
  have hbound := bound_ge now
  refine ⟨?_, ?_⟩
  · by_contra hearly
    apply hdiff
    rw [recurringAt_early (by omega), recurringAt_early (by omega)]
  · by_contra hlate
    apply hdiff
    rw [recurringAt_late (y := s) (by omega)]
    rcases lt_or_ge (defaultYearUpperBound now) (s - 1) with hgt | hle
    · rw [recurringAt_late hgt]
    · -- the first year behind the valid ones
      have hlast : s - 1 = defaultYearUpperBound now := by omega
      constructor
      · rintro ⟨c, hc, hg, hv, hcov⟩
        refine ⟨c, hc, hg, hv, fun s' hs' => ?_, fun e he => ?_⟩
        · have hvalid := (c.start_valid s' hs').2
          omega
        · cases (show c.span.2 = none from hcov).symm.trans (Option.mem_def.mp he)
      · rintro ⟨c, hc, hg, hv, hcov⟩
        cases he : c.endYear with
        | none => exact ⟨c, hc, hg, hv, he⟩
        | some e =>
          have hvalid := (c.end_valid e he).2
          have hreach := hcov.2 e he
          have heq : e = defaultYearUpperBound now := by omega
          -- some value is named at `s`, so a clause is open there
          obtain ⟨hne, _, hmem⟩ := shows_segmentsOf.mp hat
          obtain ⟨w, hw⟩ := List.exists_mem_of_ne_nil _ hne
          obtain ⟨c₀, hc₀, hg₀, _, hopen⟩ := (recurringAt_late (by omega)).mp ((hmem w).mp hw)
          obtain ⟨c₁, hc₁, hg₁, hv₁, hopen₁⟩ :=
            hkept.last c₀ hc₀ hopen c hc (hg.trans hg₀.symm) (heq ▸ he) v hv
          exact ⟨c₁, hc₁, hg₁.trans hg₀, hv₁, hopen₁⟩

theorem segment_end_valid (hkept : YearsKept clauses) {l : Span Int × List Nat}
    (hl : l ∈ segmentsOf clauses g) {e : Int} (he : l.1.2 = some e) : isValidYear now e := by
  have hnormal : Normal (segmentsOf clauses g) := normal_segmentsOf
  have hat : Shows (segmentsOf clauses g) (.at e) l.2 :=
    ⟨l.1, hl, (hnormal.ordered.proper_of_mem hl).covers_end he⟩
  have hafter : ¬ Shows (segmentsOf clauses g) (.at (e + 1)) l.2 :=
    hnormal.not_shows_succ_of_mem hl he (not_isMax e)
  obtain ⟨v, hdiff⟩ := exists_differs hat hafter
  have hbound := bound_ge now
  refine ⟨?_, ?_⟩
  · by_contra hearly
    apply hdiff
    rw [recurringAt_early (y := e) (by omega)]
    rcases lt_or_ge (e + 1) 1900 with hlt | hge
    · rw [recurringAt_early hlt]
    · -- the last year before the valid ones
      have hfirst : e + 1 = 1900 := by omega
      constructor
      · rintro ⟨c, hc, hg, hv, hcov⟩
        refine ⟨c, hc, hg, hv, fun s hs => ?_, fun e' he' => ?_⟩
        · cases (show c.span.1 = none from hcov).symm.trans (Option.mem_def.mp hs)
        · have hvalid := (c.end_valid e' he').1
          omega
      · rintro ⟨c, hc, hg, hv, hcov⟩
        cases hs : c.startYear with
        | none => exact ⟨c, hc, hg, hv, hs⟩
        | some s =>
          have hvalid := (c.start_valid s hs).1
          have hreach := hcov.1 s hs
          have heq : s = 1900 := by omega
          obtain ⟨hne, _, hmem⟩ := shows_segmentsOf.mp hat
          obtain ⟨w, hw⟩ := List.exists_mem_of_ne_nil _ hne
          obtain ⟨c₀, hc₀, hg₀, _, hopen⟩ := (recurringAt_early (by omega)).mp ((hmem w).mp hw)
          obtain ⟨c₁, hc₁, hg₁, hv₁, hopen₁⟩ :=
            hkept.first c₀ hc₀ hopen c hc (hg.trans hg₀.symm) (heq ▸ hs) v hv
          exact ⟨c₁, hc₁, hg₁.trans hg₀, hv₁, hopen₁⟩
  · by_contra hlate
    apply hdiff
    rw [recurringAt_late (by omega), recurringAt_late (by omega)]

/-! ### The merged clauses -/

def RecurringDateClause.label (c : RecurringDateClause now) : Span Int × List Nat := (c.span, c.values)

structure MadeFrom (l : List (Span Int × List Nat)) (g : Granularity)
    (cs : List (RecurringDateClause now)) : Prop where
  granularity : ∀ c ∈ cs, c.granularity = g
  labels : cs.map RecurringDateClause.label = l

structure Makeable (g : Granularity) (now : Int) (l : Span Int × List Nat) : Prop where
  values_ne_nil : l.2 ≠ []
  values_range : ∀ v ∈ l.2, 1 ≤ v ∧ v ≤ g.limit
  start_valid : ∀ y ∈ l.1.1, isValidYear now y
  end_valid : ∀ y ∈ l.1.2, isValidYear now y
  ordered : Proper l.1

theorem mapM_makeRecurring {l : List (Span Int × List Nat)} (h : ∀ i ∈ l, Makeable g now i) :
    ∃ cs, (l.mapM fun i => RecurringDateClause.make? now g i.2 i.1.1 i.1.2) = .ok cs ∧
      MadeFrom l g cs := by
  induction l with
  | nil => exact ⟨[], rfl, by simp, rfl⟩
  | cons i l ih =>
    obtain ⟨cs, hcs, hmade⟩ := ih fun j hj => h j (List.mem_cons_of_mem i hj)
    have hi := h i List.mem_cons_self
    have hmake := RecurringDateClause.make?_ok hi.values_ne_nil hi.values_range
      hi.start_valid hi.end_valid hi.ordered
    refine ⟨⟨g, i.2, i.1.1, i.1.2, hi.values_ne_nil, hi.values_range, hi.start_valid, hi.end_valid,
      hi.ordered⟩ :: cs, ?_, ?_, ?_⟩
    · rw [List.mapM_cons, hmake, hcs]
      rfl
    · intro c hc
      rcases List.mem_cons.mp hc with rfl | hc
      · rfl
      · exact hmade.granularity c hc
    · rw [List.map_cons, hmade.labels]
      rfl

theorem makeable_segments (hkept : YearsKept clauses) {l : Span Int × List Nat}
    (hl : l ∈ segmentsOf clauses g) : Makeable g now l := by
  have hordered : Ordered (segmentsOf clauses g) := normal_segmentsOf.ordered
  have hproper := hordered.proper_of_mem hl
  obtain ⟨pt, hpt⟩ := hproper.exists_covers
  obtain ⟨hne, _, hmem⟩ := shows_segmentsOf.mp ⟨l.1, hl, hpt⟩
  refine ⟨hne, fun v hv => ?_, fun y hy => segment_start_valid hkept hl hy,
    fun y hy => segment_end_valid hkept hl hy, hproper⟩
  obtain ⟨c, _, rfl, hvc, _⟩ := (hmem v).mp hv
  exact c.values_range v hvc

theorem segmentsOf_absent (h : (clauses.any fun c => c.granularity = g) = false) :
    segmentsOf clauses g = [] := by
  rw [List.eq_nil_iff_forall_not_mem]
  intro l hl
  obtain ⟨pt, hpt⟩ := (normal_segmentsOf.ordered.proper_of_mem hl).exists_covers
  obtain ⟨hne, _, hmem⟩ := shows_segmentsOf.mp ⟨l.1, hl, hpt⟩
  obtain ⟨v, hv⟩ := List.exists_mem_of_ne_nil _ hne
  obtain ⟨c, hc, hgc, _⟩ := (hmem v).mp hv
  exact List.any_eq_false.mp h c hc (decide_eq_true hgc)

def makeAll (now : Int) (g : Granularity) (l : List (Span Int × List Nat)) :
    Except String (List (RecurringDateClause now)) :=
  l.mapM fun i => RecurringDateClause.make? now g i.2 i.1.1 i.1.2

theorem makeAll_nil : makeAll now g [] = .ok [] := rfl

theorem mergeRecurring_bind (clauses : List (RecurringDateClause now)) :
    mergeRecurring clauses = (makeAll now .month (segmentsOf clauses .month)).bind fun months =>
      (makeAll now .quarter (segmentsOf clauses .quarter)).bind fun quarters =>
        .ok (months ++ quarters) := by
  have hmonth := @segmentsOf_absent _ clauses .month
  have hquarter := @segmentsOf_absent _ clauses .quarter
  have hshow : mergeRecurring clauses =
      (([Granularity.month, .quarter].filter fun g => clauses.any (·.granularity = g)).mapM
        fun g => makeAll now g (segmentsOf clauses g)).bind fun merged => .ok merged.flatten := rfl
  rw [hshow]
  cases hm : clauses.any (fun c => c.granularity = Granularity.month) with
  | true =>
    cases hq : clauses.any (fun c => c.granularity = Granularity.quarter) with
    | true =>
      cases hmonths : makeAll now .month (segmentsOf clauses .month) <;>
        cases hquarters : makeAll now .quarter (segmentsOf clauses .quarter) <;>
          simp [hm, hq, hmonths, hquarters, bind, Except.bind, pure, Except.pure]
    | false =>
      rw [hquarter hq]
      cases hmonths : makeAll now .month (segmentsOf clauses .month) <;>
        simp [hm, hq, hmonths, makeAll_nil, bind, Except.bind, pure, Except.pure]
  | false =>
    rw [hmonth hm]
    cases hq : clauses.any (fun c => c.granularity = Granularity.quarter) with
    | true =>
      cases hquarters : makeAll now .quarter (segmentsOf clauses .quarter) <;>
        simp [hm, hq, hquarters, makeAll_nil, bind, Except.bind, pure, Except.pure]
    | false =>
      rw [hquarter hq]
      simp [hm, hq, makeAll_nil, Except.bind, pure, Except.pure]

theorem mergeRecurring_congr (h : ∀ g, segmentsOf clauses g = segmentsOf clauses' g) :
    mergeRecurring clauses = mergeRecurring clauses' := by
  rw [mergeRecurring_bind, mergeRecurring_bind, h, h]

theorem mergeRecurring_eq (h : YearsKept clauses) :
    ∃ months quarters, mergeRecurring clauses = .ok (months ++ quarters) ∧
      MadeFrom (segmentsOf clauses .month) .month months ∧
      MadeFrom (segmentsOf clauses .quarter) .quarter quarters := by
  obtain ⟨months, hmonths, hmadeM⟩ := mapM_makeRecurring fun l (hl : l ∈ segmentsOf clauses .month) =>
    makeable_segments h hl
  obtain ⟨quarters, hquarters, hmadeQ⟩ :=
    mapM_makeRecurring fun l (hl : l ∈ segmentsOf clauses .quarter) => makeable_segments h hl
  refine ⟨months, quarters, ?_, hmadeM, hmadeQ⟩
  rw [mergeRecurring_bind]
  unfold makeAll
  rw [hmonths, hquarters]
  rfl

theorem MadeFrom.recurringAt {l : List (Span Int × List Nat)} {cs : List (RecurringDateClause now)}
    (h : MadeFrom l g cs) : RecurringAt cs g pt v ↔ ∃ vs, Shows l pt vs ∧ v ∈ vs := by
  constructor
  · rintro ⟨c, hc, _, hv, hcov⟩
    have hlabel : c.label ∈ l := h.labels ▸ List.mem_map_of_mem hc
    exact ⟨c.values, ⟨c.span, hlabel, hcov⟩, hv⟩
  · rintro ⟨vs, ⟨span, hmem, hcov⟩, hv⟩
    rw [← h.labels] at hmem
    obtain ⟨c, hc, hlabel⟩ := List.mem_map.mp hmem
    obtain ⟨hspan, hvalues⟩ := Prod.mk.inj hlabel
    exact ⟨c, hc, h.granularity c hc, hvalues ▸ hv, hspan ▸ hcov⟩

theorem recurringAt_append {cs cs' : List (RecurringDateClause now)} :
    RecurringAt (cs ++ cs') g pt v ↔ RecurringAt cs g pt v ∨ RecurringAt cs' g pt v := by
  simp only [RecurringAt, List.mem_append, or_and_right, exists_or]

theorem MadeFrom.not_recurringAt {l : List (Span Int × List Nat)} {cs : List (RecurringDateClause now)}
    {g' : Granularity} (h : MadeFrom l g cs) (hg : g ≠ g') : ¬ RecurringAt cs g' pt v := by
  rintro ⟨c, hc, hgc, _⟩
  exact hg ((h.granularity c hc).symm.trans hgc)

theorem recurringAt_merged {months quarters : List (RecurringDateClause now)}
    (hm : MadeFrom (segmentsOf clauses .month) .month months)
    (hq : MadeFrom (segmentsOf clauses .quarter) .quarter quarters) :
    RecurringAt (months ++ quarters) g pt v ↔ RecurringAt clauses g pt v := by
  rw [recurringAt_append]
  cases g with
  | month =>
    rw [hm.recurringAt, ← recurringAt_iff_shows]
    exact or_iff_left (hq.not_recurringAt (by decide))
  | quarter =>
    rw [hq.recurringAt, ← recurringAt_iff_shows]
    exact or_iff_right (hm.not_recurringAt (by decide))

theorem exists_matches_iff {d : Date} : (∃ c ∈ clauses, c.matches d = true) ↔
    ∃ g, RecurringAt clauses g (.at (d.year : Int)) (g.valueOf d) := by
  simp only [RecurringDateClause.matches_iff, RecurringAt]
  constructor
  · rintro ⟨c, hc, hcov, hv⟩
    exact ⟨c.granularity, c, hc, rfl, hv, hcov⟩
  · rintro ⟨_, c, hc, rfl, hv, hcov⟩
    exact ⟨c, hc, hcov, hv⟩

end Recurring

/-! ## Selections -/

section Selections
variable {now : Int} {cs cs' : List (DateClause now)}

theorem mergeAbsolute_congr {as as' : List AbsoluteDateClause} (h : mergedSpans as = mergedSpans as') :
    mergeAbsolute as = mergeAbsolute as' := by
  show ((mergedSpans as).filter _).mapM _ = ((mergedSpans as').filter _).mapM _
  rw [h]

theorem mergeAbsolute_nil : mergeAbsolute [] = .ok [] := by
  simp [mergeAbsolute, mergeIntervals, pure, Except.pure]

theorem mergeRecurring_nil : mergeRecurring ([] : List (RecurringDateClause now)) = .ok [] := by
  simp [mergeRecurring, pure, Except.pure, bind, Except.bind]

theorem mem_absolutePart {c : AbsoluteDateClause} : c ∈ absolutePart cs ↔ .absolute c ∈ cs := by
  unfold absolutePart
  rw [List.mem_filterMap]
  constructor
  · rintro ⟨c', hc', heq⟩
    cases c' with
    | absolute a => exact Option.some.inj heq ▸ hc'
    | recurring r => cases heq
  · intro hc
    exact ⟨_, hc, rfl⟩

theorem mem_recurringPart {c : RecurringDateClause now} : c ∈ recurringPart cs ↔ .recurring c ∈ cs := by
  unfold recurringPart
  rw [List.mem_filterMap]
  constructor
  · rintro ⟨c', hc', heq⟩
    cases c' with
    | absolute a => cases heq
    | recurring r => exact Option.some.inj heq ▸ hc'
  · intro hc
    exact ⟨_, hc, rfl⟩

theorem exists_matches_parts {d : Date} : (∃ c ∈ cs, c.matches d = true) ↔
    (∃ c ∈ absolutePart cs, c.matches d = true) ∨ ∃ c ∈ recurringPart cs, c.matches d = true := by
  simp only [mem_absolutePart, mem_recurringPart]
  constructor
  · rintro ⟨c, hc, hd⟩
    cases c with
    | absolute a => exact .inl ⟨a, hc, hd⟩
    | recurring r => exact .inr ⟨r, hc, hd⟩
  · rintro (⟨a, ha, hd⟩ | ⟨r, hr, hd⟩)
    · exact ⟨_, ha, hd⟩
    · exact ⟨_, hr, hd⟩

theorem absolutePart_append (as : List AbsoluteDateClause) (rs : List (RecurringDateClause now)) :
    absolutePart (as.map .absolute ++ rs.map .recurring) = as := by
  simp [absolutePart, List.filterMap_append, List.filterMap_map]

theorem recurringPart_append (as : List AbsoluteDateClause) (rs : List (RecurringDateClause now)) :
    recurringPart (as.map .absolute ++ rs.map .recurring) = rs := by
  simp [recurringPart, List.filterMap_append, List.filterMap_map]

/-- The absolute clauses cover every date and are open on both sides. -/
def AllCovering (cs : List (DateClause now)) : Prop := ∀ pt, AbsoluteAt (absolutePart cs) pt

theorem absolute_matches_iff {as : List AbsoluteDateClause} {d : Date} :
    (∃ c ∈ as, c.matches d = true) ↔ AbsoluteAt as (.at d) := by
  simp only [AbsoluteDateClause.matches_iff, AbsoluteAt]

structure NormalForm (cs : List (DateClause now)) (as : List AbsoluteDateClause)
    (rs : List (RecurringDateClause now)) : Prop where
  absolute : mergeAbsolute (absolutePart cs) = .ok as
  recurring : mergeRecurring (recurringPart cs) = .ok rs
  empty_of_covering : AllCovering cs → as = []
  absoluteAt : ¬ AllCovering cs → ∀ pt, AbsoluteAt as pt ↔ AbsoluteAt (absolutePart cs) pt
  recurringAt : ∀ g pt v, RecurringAt rs g pt v ↔ RecurringAt (recurringPart cs) g pt v

theorem exists_normalForm (h : YearsKept (recurringPart cs)) : ∃ as rs, NormalForm cs as rs := by
  obtain ⟨as, habs, hspan⟩ := mergeAbsolute_eq (absolutePart cs)
  obtain ⟨months, quarters, hrec, hm, hq⟩ := mergeRecurring_eq h
  refine ⟨as, months ++ quarters, habs, hrec, ?_, ?_, fun g pt v => recurringAt_merged hm hq⟩
  · intro hall
    rw [mergedSpans_of_open hall] at hspan
    exact List.map_eq_nil_iff.mp hspan
  · intro hall pt
    rw [filter_mergedSpans hall] at hspan
    rw [← @covers_mergedSpans (absolutePart cs), ← hspan, AbsoluteAt]
    simp only [List.mem_map, exists_exists_and_eq_and]

namespace NormalForm
variable {as : List AbsoluteDateClause} {rs : List (RecurringDateClause now)}

theorem normalize_eq (h : NormalForm cs as rs) :
    normalizeDateSelection cs = .ok (as.map .absolute ++ rs.map .recurring) := by
  unfold normalizeDateSelection
  rw [h.absolute, h.recurring]
  rfl

theorem recurring_matches (h : NormalForm cs as rs) {d : Date} :
    (∃ c ∈ rs, c.matches d = true) ↔ ∃ c ∈ recurringPart cs, c.matches d = true := by
  simp only [exists_matches_iff, h.recurringAt]

theorem idempotent (h : NormalForm cs as rs) :
    normalizeDateSelection (as.map .absolute ++ rs.map .recurring : List (DateClause now)) =
      .ok (as.map .absolute ++ rs.map .recurring) := by
  have habs : mergeAbsolute as = .ok as := by
    by_cases hall : AllCovering cs
    · rw [h.empty_of_covering hall, mergeAbsolute_nil]
    · rw [mergeAbsolute_congr (mergedSpans_congr (h.absoluteAt hall))]
      exact h.absolute
  have hrec : mergeRecurring rs = .ok rs := by
    rw [mergeRecurring_congr fun g => segmentsOf_congr (h.recurringAt g)]
    exact h.recurring
  unfold normalizeDateSelection
  rw [absolutePart_append, recurringPart_append, habs, hrec]
  rfl

theorem nil_iff (h : NormalForm cs as rs) (has : as = []) (hrs : rs = []) :
    cs = [] ∨ AllCovering cs := by
  by_cases hall : AllCovering cs
  · exact .inr hall
  · left
    rw [List.eq_nil_iff_forall_not_mem]
    intro c hc
    cases c with
    | absolute a =>
      obtain ⟨pt, hpt⟩ := Proper.exists_covers a.ordered
      obtain ⟨c, hc', _⟩ := (h.absoluteAt hall pt).mpr ⟨a, mem_absolutePart.mpr hc, hpt⟩
      rw [has] at hc'
      cases hc'
    | recurring r =>
      obtain ⟨pt, hpt⟩ := Proper.exists_covers r.ordered
      obtain ⟨v, hv⟩ := List.exists_mem_of_ne_nil _ r.values_ne_nil
      obtain ⟨c, hc', _⟩ :=
        (h.recurringAt r.granularity pt v).mpr ⟨r, mem_recurringPart.mpr hc, rfl, hv, hpt⟩
      rw [hrs] at hc'
      cases hc'

theorem nil_of_nil (h : NormalForm [] as rs) : as = [] ∧ rs = [] := by
  have habs := h.absolute
  have hrec := h.recurring
  rw [show absolutePart ([] : List (DateClause now)) = [] from rfl, mergeAbsolute_nil] at habs
  rw [show recurringPart ([] : List (DateClause now)) = [] from rfl, mergeRecurring_nil] at hrec
  exact ⟨(Except.ok.inj habs).symm, (Except.ok.inj hrec).symm⟩

theorem recurring_eq_nil (h : NormalForm cs as rs) (hnil : recurringPart cs = []) : rs = [] := by
  have hrec := h.recurring
  rw [hnil, mergeRecurring_nil] at hrec
  exact (Except.ok.inj hrec).symm

theorem matches_iff (h : NormalForm cs as rs)
    (hcover : AllCovering cs → recurringPart cs ≠ [] →
      ∀ d, ∃ c ∈ recurringPart cs, c.matches d = true) {d : Date} :
    dateSelectionMatches (as.map .absolute ++ rs.map .recurring : List (DateClause now)) (some d) = true ↔
      cs = [] ∨ ∃ c ∈ cs, c.matches d = true := by
  have hcovered : AllCovering cs → ∃ c ∈ cs, c.matches d = true := fun hall =>
    exists_matches_parts.mpr (.inl (absolute_matches_iff.mpr (hall (.at d))))
  by_cases hempty : as = [] ∧ rs = []
  · obtain ⟨has, hrs⟩ := hempty
    have hright := h.nil_iff has hrs
    rw [has, hrs]
    exact iff_of_true rfl (hright.imp_right hcovered)
  · have hcs : cs ≠ [] := by
      rintro rfl
      exact hempty h.nil_of_nil
    have hne : (as.map DateClause.absolute ++ rs.map DateClause.recurring) ≠ [] := by
      intro hnil
      rw [List.append_eq_nil_iff, List.map_eq_nil_iff, List.map_eq_nil_iff] at hnil
      exact hempty hnil
    unfold dateSelectionMatches
    rw [if_neg (by rwa [List.isEmpty_iff]), or_iff_right hcs]
    dsimp only
    rw [List.any_eq_true, exists_matches_parts, absolutePart_append, recurringPart_append,
      h.recurring_matches]
    by_cases hall : AllCovering cs
    · -- the absolute part is dropped, and the recurring clauses match the date
      have hrs : rs ≠ [] := fun hnil => hempty ⟨h.empty_of_covering hall, hnil⟩
      have hrecurring := hcover hall (fun hnil => hrs (h.recurring_eq_nil hnil)) d
      exact iff_of_true (.inr hrecurring) (hcovered hall)
    · rw [absolute_matches_iff, h.absoluteAt hall, ← absolute_matches_iff, ← exists_matches_parts]

end NormalForm

/-- The same dates, by absolute clauses that are open at the same ends, and by the recurring
clauses of each granularity. -/
structure SameDates (cs cs' : List (DateClause now)) : Prop where
  absolute : ∀ d, (∃ c ∈ absolutePart cs, c.matches d = true) ↔
    ∃ c ∈ absolutePart cs', c.matches d = true
  openStart : (∃ c ∈ absolutePart cs, c.startDate = none) ↔ ∃ c ∈ absolutePart cs', c.startDate = none
  openEnd : (∃ c ∈ absolutePart cs, c.endDate = none) ↔ ∃ c ∈ absolutePart cs', c.endDate = none
  recurring : ∀ g d, (∃ c ∈ recurringPart cs, c.granularity = g ∧ c.matches d = true) ↔
    ∃ c ∈ recurringPart cs', c.granularity = g ∧ c.matches d = true

def dateOf (g : Granularity) (y : Nat) (hy : 1 ≤ y ∧ y ≤ 9999) (v : Nat) (hv : 1 ≤ v ∧ v ≤ g.limit) : Date where
  year := y
  month := match g with
    | .month => v
    | .quarter => 3 * (v - 1) + 1
  day := 1
  year_range := hy
  month_range := by
    cases g <;> simp only [Granularity.limit] at hv <;> dsimp only <;> omega
  day_range := ⟨le_refl 1, (by omega : 1 ≤ 28).trans (le_daysInMonth _ _)⟩

theorem valueOf_dateOf {g : Granularity} {y : Nat} {hy : 1 ≤ y ∧ y ≤ 9999} {v : Nat}
    {hv : 1 ≤ v ∧ v ≤ g.limit} : g.valueOf (dateOf g y hy v hv) = v := by
  cases g <;> simp only [Granularity.valueOf, dateOf]
  have hpos := hv.1
  omega

theorem recurringAt_iff_matches {rs : List (RecurringDateClause now)} {g : Granularity} {d : Date} :
    RecurringAt rs g (.at (d.year : Int)) (g.valueOf d) ↔
      ∃ c ∈ rs, c.granularity = g ∧ c.matches d = true := by
  simp only [RecurringDateClause.matches_iff, RecurringAt]
  constructor
  · rintro ⟨c, hc, rfl, hv, hcov⟩
    exact ⟨c, hc, rfl, hcov, hv⟩
  · rintro ⟨c, hc, rfl, hcov, hv⟩
    exact ⟨c, hc, rfl, hv, hcov⟩

theorem RecurringAt.value_range {rs : List (RecurringDateClause now)} {g : Granularity}
    {pt : Point Int} {v : Nat} (h : RecurringAt rs g pt v) : 1 ≤ v ∧ v ≤ g.limit := by
  obtain ⟨c, _, rfl, hv, _⟩ := h
  exact c.values_range v hv

namespace SameDates
variable {g : Granularity} {v : Nat}

theorem symm (h : SameDates cs cs') : SameDates cs' cs :=
  ⟨fun d => (h.absolute d).symm, h.openStart.symm, h.openEnd.symm, fun g d => (h.recurring g d).symm⟩

theorem absoluteAt (h : SameDates cs cs') (pt : Point Date) :
    AbsoluteAt (absolutePart cs) pt ↔ AbsoluteAt (absolutePart cs') pt := by
  cases pt with
  | bot => exact h.openStart
  | «at» d => rw [← absolute_matches_iff, ← absolute_matches_iff, h.absolute]
  | top => exact h.openEnd

theorem recurringAt_of_year (h : SameDates cs cs') {y : Int} (hy : 1 ≤ y ∧ y ≤ 9999)
    (hv : RecurringAt (recurringPart cs) g (.at y) v) : RecurringAt (recurringPart cs') g (.at y) v := by
  obtain ⟨n, rfl⟩ := Int.eq_ofNat_of_zero_le (by omega : 0 ≤ y)
  -- some date of the year has the value
  let d := dateOf g n (by omega) v hv.value_range
  have hd : g.valueOf d = v := valueOf_dateOf
  rw [← hd] at hv ⊢
  exact recurringAt_iff_matches.mpr ((h.recurring g d).mp (recurringAt_iff_matches.mp hv))

theorem recurringAt_imp (h : SameDates cs cs') (hnow : defaultYearUpperBound now < 9999) {pt : Point Int}
    (hv : RecurringAt (recurringPart cs) g pt v) : RecurringAt (recurringPart cs') g pt v := by
  have hbound := bound_ge now
  cases pt with
  | bot =>
    rw [← recurringAt_early (y := 1899) (by omega)] at hv ⊢
    exact h.recurringAt_of_year (by omega) hv
  | top =>
    rw [← recurringAt_late (y := defaultYearUpperBound now + 1) (by omega)] at hv ⊢
    exact h.recurringAt_of_year (by omega) hv
  | «at» y =>
    rcases lt_or_ge y 1900 with hearly | hge
    · rw [recurringAt_early hearly, ← recurringAt_early (y := 1899) (by omega)] at hv ⊢
      exact h.recurringAt_of_year (by omega) hv
    · rcases lt_or_ge (defaultYearUpperBound now) y with hlate | hle
      · rw [recurringAt_late hlate,
          ← recurringAt_late (y := defaultYearUpperBound now + 1) (by omega)] at hv ⊢
        exact h.recurringAt_of_year (by omega) hv
      · exact h.recurringAt_of_year (by omega) hv

theorem normalize_eq (h : SameDates cs cs') (hnow : defaultYearUpperBound now < 9999) :
    normalizeDateSelection cs = normalizeDateSelection cs' := by
  have habs := mergeAbsolute_congr (mergedSpans_congr h.absoluteAt)
  have hrec : mergeRecurring (recurringPart cs) = mergeRecurring (recurringPart cs') :=
    mergeRecurring_congr fun g => segmentsOf_congr fun pt v =>
      ⟨h.recurringAt_imp hnow, h.symm.recurringAt_imp hnow⟩
  unfold normalizeDateSelection
  rw [habs, hrec]

end SameDates

/-- Normalizing returns, keeps the dates that the clauses match, and gives equal selections for
the same dates. No clauses at all match every date. -/
theorem normalizeDateSelection_canonical (cs : List (DateClause now))
    (hyears : YearsKept (recurringPart cs))
    (hcover : AllCovering cs → recurringPart cs ≠ [] → ∀ d, ∃ c ∈ recurringPart cs, c.matches d = true) :
    (∃ selection, normalizeDateSelection cs = .ok selection ∧
      (∀ d, dateSelectionMatches selection (some d) = true ↔ cs = [] ∨ ∃ c ∈ cs, c.matches d = true) ∧
      normalizeDateSelection selection = .ok selection) ∧
    (defaultYearUpperBound now < 9999 → ∀ cs', SameDates cs cs' →
      normalizeDateSelection cs = normalizeDateSelection cs') := by
  obtain ⟨as, rs, h⟩ := exists_normalForm hyears
  exact ⟨⟨_, h.normalize_eq, fun d => h.matches_iff hcover, h.idempotent⟩,
    fun hnow _ hsame => hsame.normalize_eq hnow⟩

end Selections

def firstDate : Date := ⟨1, 1, 1, by decide, by decide, by decide⟩

def intervalWithQuarter : List (DateClause 2026) :=
  [.absolute ⟨some firstDate, none, by decide⟩,
    .recurring ⟨.quarter, [1], some 2011, some 2015, by decide, by decide, by decide, by decide, by decide⟩]

theorem yearsKept_intervalWithQuarter : YearsKept (recurringPart intervalWithQuarter) := by
  constructor
  · intro c hc hnone
    have hmem := mem_recurringPart.mp hc
    simp [intervalWithQuarter] at hmem
    subst hmem
    cases hnone
  · intro c hc hnone
    have hmem := mem_recurringPart.mp hc
    simp [intervalWithQuarter] at hmem
    subst hmem
    cases hnone

theorem normalizeDateSelection_canonical_intervalWithQuarter :
    ∃ selection, normalizeDateSelection intervalWithQuarter = .ok selection ∧
      (∀ d, dateSelectionMatches selection (some d) = true ↔
        ∃ c ∈ intervalWithQuarter, c.matches d = true) ∧
      normalizeDateSelection selection = .ok selection := by
  have hcover : ¬ AllCovering intervalWithQuarter := by
    intro hall
    obtain ⟨c, hc, hopen⟩ := hall .bot
    have hmem := mem_absolutePart.mp hc
    simp [intervalWithQuarter] at hmem
    subst hmem
    cases hopen
  obtain ⟨⟨r, hr, hmatch, hidem⟩, _⟩ := normalizeDateSelection_canonical intervalWithQuarter
    yearsKept_intervalWithQuarter (fun hall => absurd hall hcover)
  exact ⟨r, hr, fun d => (hmatch d).trans (or_iff_right (by decide)), hidem⟩

theorem firstDate_le (d : Date) : firstDate ≤ d := by
  have hd := d.day_range
  have hm := d.month_range
  have hy := d.year_range
  rw [Date.le_iff]
  unfold Date.key firstDate
  dsimp only
  omega

/-- No clause of the empty selection matches a date, and yet its normal form does. Clauses that
match the same dates have two normal forms where one is open before the first date. -/
theorem normalizeDateSelection_not_canonical :
    (¬ ∀ cs : List (DateClause 2026), ∃ selection, normalizeDateSelection cs = .ok selection ∧
      ∀ d, dateSelectionMatches selection (some d) = true ↔ ∃ c ∈ cs, c.matches d = true) ∧
    ∃ c c' : AbsoluteDateClause, (∀ d, c.matches d = c'.matches d) ∧
      normalizeDateSelection ([.absolute c] : List (DateClause 2026)) ≠
        normalizeDateSelection [.absolute c'] := by
  constructor
  · intro hall
    obtain ⟨selection, hok, hmatch⟩ := hall []
    have hnil : normalizeDateSelection ([] : List (DateClause 2026)) = .ok [] := by
      unfold normalizeDateSelection
      rw [show absolutePart ([] : List (DateClause 2026)) = [] from rfl,
        show recurringPart ([] : List (DateClause 2026)) = [] from rfl, mergeAbsolute_nil,
        mergeRecurring_nil]
      rfl
    obtain rfl := Except.ok.inj (hnil.symm.trans hok)
    obtain ⟨c, hc, _⟩ := (hmatch firstDate).mp rfl
    cases hc
  · refine ⟨⟨none, some firstDate, by decide⟩, ⟨some firstDate, some firstDate, by decide⟩, ?_, ?_⟩
    · intro d
      simp [AbsoluteDateClause.matches, firstDate_le d]
    · simp [normalizeDateSelection, absolutePart, recurringPart, mergeAbsolute, mergeIntervals, mergeFrom,
        mergeRecurring, AbsoluteDateClause.make?, Proper, pure, Except.pure, bind, Except.bind]
      intro heq
      cases congrArg AbsoluteDateClause.startDate heq

end EdgarSec.FilingCatalog
