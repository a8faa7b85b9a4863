import EdgarSec.FilingCatalog.DateSelection
import EdgarSec.Xbrl.Facts

/-! `FiscalYearQueries`: which fiscal years the periods of a filing are offered for. -/

namespace EdgarSec.Xbrl
open FilingCatalog

/-- What the fiscal-year queries read of a filing's `dei` block. -/
structure FiledMetadata where
  periodEnd : Option String
  fiscalYear : Option Int
  fiscalYearEnd : Option (Nat × Nat)
  deriving DecidableEq, Repr

/-- `date(year, month, day)`; `none` is `ValueError`. -/
def makeDate (year month day : Nat) : Option Date :=
  if h : (1 ≤ year ∧ year ≤ 9999) ∧ (1 ≤ month ∧ month ≤ 12) ∧ 1 ≤ day ∧ day ≤ daysInMonth year month then
    some ⟨year, month, day, h.1, h.2.1, h.2.2⟩
  else none

/-- `text[:n]` -/
def firstChars (n : Nat) (text : String) : String := String.ofList (text.toList.take n)

inductive FiledPeriod where
  | duration (start stop : String)
  | instant (day : String)
  deriving DecidableEq, Repr

def FiledPeriod.day : FiledPeriod → String
  | .duration _ stop => stop
  | .instant day => day

/-! `fromisoformat` is `date.fromisoformat`, `none` where it raises. -/

section Queries
variable (fromisoformat : String → Option Date)

def fiscalYearContaining (periodEnd : String) (fiscalYearEnd : Nat × Nat) : Option Int := do
  let stop ← fromisoformat (firstChars 10 periodEnd)
  let fyeThis ← (makeDate stop.year fiscalYearEnd.1 fiscalYearEnd.2).or
    (makeDate stop.year fiscalYearEnd.1 28)
  some (if stop ≤ fyeThis then stop.year else stop.year + 1)

variable (md : FiledMetadata)

def deiWindow : Option Int × Int :=
  match md.fiscalYearEnd, md.periodEnd with
  | some fye, some periodEnd =>
    match fiscalYearContaining fromisoformat periodEnd fye with
    | none => (none, 0)
    | some containing =>
      let own := md.fiscalYear.getD containing
      (some own, own - containing)
  | _, _ => (none, 0)

def inCalendarYear (day : String) (fiscalYear : Int) : Bool := firstChars 4 day = toString fiscalYear

def inFiscalYear (day : String) (fiscalYear : Int) : Bool :=
  match md.fiscalYearEnd, md.periodEnd with
  | some fye, some periodEnd =>
    if (deiWindow fromisoformat md).1 = some fiscalYear ∧ !inCalendarYear periodEnd fiscalYear then
      match fiscalYearContaining fromisoformat day fye with
      | none => inCalendarYear day fiscalYear
      | some containing => containing + (deiWindow fromisoformat md).2 = fiscalYear
    else inCalendarYear day fiscalYear
  | _, _ => inCalendarYear day fiscalYear

/-- `if text` -/
def filedText (text : Option String) : Option String := text.filter (· ≠ "")

/-- The period of an undimensioned fact that `candidate_scopes` harvests for a year. -/
def harvested {V : Type} (fiscalYear : Int) (fact : XbrlFact V) : Option FiledPeriod :=
  if fact.dimensions.items ≠ [] then none
  else if fact.periodType = "duration" then do
    let start ← filedText fact.startDate
    let stop ← filedText fact.endDate
    if inFiscalYear fromisoformat md stop fiscalYear then some (.duration start stop) else none
  else if fact.periodType = "instant" then do
    let day ← filedText fact.instantDate
    if inFiscalYear fromisoformat md day fiscalYear then some (.instant day) else none
  else none

def candidatePeriods {V : Type} (facts : List (XbrlFact V)) (fiscalYear : Int) : List FiledPeriod :=
  (facts.filterMap (harvested fromisoformat md fiscalYear)).dedup

/-! ## Years that share a day -/

/-- The fiscal-year-end window, and not the calendar, says which days are in the year, and it
takes the day: the year is the filing's own and the filed period ends in another. -/
def TakenByWindow (day : String) (own : Int) : Prop :=
  ∃ fye periodEnd containing, md.fiscalYearEnd = some fye ∧ md.periodEnd = some periodEnd ∧
    (deiWindow fromisoformat md).1 = some own ∧ inCalendarYear periodEnd own = false ∧
    fiscalYearContaining fromisoformat day fye = some containing ∧
    containing + (deiWindow fromisoformat md).2 = own

variable {fromisoformat} {md} {day : String} {y y' : Int}

theorem calendarYear_unique (h : inCalendarYear day y = true) (h' : inCalendarYear day y' = true) :
    y = y' := by
  have htexts : toString y = toString y' := (of_decide_eq_true h).symm.trans (of_decide_eq_true h')
  exact Int.repr_injective htexts

theorem TakenByWindow.unique (h : TakenByWindow fromisoformat md day y)
    (h' : TakenByWindow fromisoformat md day y') : y = y' := by
  obtain ⟨_, _, _, _, _, hown, _⟩ := h
  obtain ⟨_, _, _, _, _, hown', _⟩ := h'
  exact Option.some.inj (hown.symm.trans hown')

theorem inFiscalYear_cases (h : inFiscalYear fromisoformat md day y = true) :
    TakenByWindow fromisoformat md day y ∨ inCalendarYear day y = true := by
  unfold inFiscalYear at h
  split at h
  · rename_i fye periodEnd hfye hend
    split at h
    · rename_i hwindow
      split at h
      · exact Or.inr h
      · rename_i containing hcontaining
        left
        have hfar : inCalendarYear periodEnd y = false := by simpa using hwindow.2
        exact ⟨fye, periodEnd, containing, hfye, hend, hwindow.1, hfar, hcontaining,
          of_decide_eq_true h⟩
    · exact Or.inr h
  · exact Or.inr h

theorem inFiscalYear_of_window (h : TakenByWindow fromisoformat md day y) :
    inFiscalYear fromisoformat md day y = true := by
  obtain ⟨fye, periodEnd, containing, hfye, hend, hown, hfar, hcontaining, hsum⟩ := h
  simp [inFiscalYear, hfye, hend, hown, hfar, hcontaining, hsum]

theorem inFiscalYear_of_calendar (h : inCalendarYear day y = true)
    (hother : (deiWindow fromisoformat md).1 ≠ some y) : inFiscalYear fromisoformat md day y = true := by
  unfold inFiscalYear
  split
  · rw [if_neg fun hwindow => hother hwindow.1]
    exact h
  · exact h

theorem years_of_day (h : inFiscalYear fromisoformat md day y = true)
    (h' : inFiscalYear fromisoformat md day y' = true) (hne : y ≠ y') :
    (TakenByWindow fromisoformat md day y ∧ inCalendarYear day y' = true) ∨
      (TakenByWindow fromisoformat md day y' ∧ inCalendarYear day y = true) := by
  rcases inFiscalYear_cases h with hwindow | hcalendar
  · rcases inFiscalYear_cases h' with hwindow' | hcalendar'
    · exact absurd (hwindow.unique hwindow') hne
    · exact Or.inl ⟨hwindow, hcalendar'⟩
  · rcases inFiscalYear_cases h' with hwindow' | hcalendar'
    · exact Or.inr ⟨hwindow', hcalendar⟩
    · exact absurd (calendarYear_unique hcalendar hcalendar') hne

theorem day_of_harvested {V : Type} {fact : XbrlFact V} {period : FiledPeriod}
    (h : harvested fromisoformat md y fact = some period) :
    inFiscalYear fromisoformat md period.day y = true := by
  unfold harvested at h
  split_ifs at h
  · simp only [bind, Option.bind_eq_some_iff] at h
    obtain ⟨start, _, stop, _, h⟩ := h
    split_ifs at h with hin
    rw [← Option.some.inj h]
    exact hin
  · simp only [bind, Option.bind_eq_some_iff] at h
    obtain ⟨day, _, h⟩ := h
    split_ifs at h with hin
    rw [← Option.some.inj h]
    exact hin

theorem day_of_candidate {V : Type} {facts : List (XbrlFact V)} {period : FiledPeriod}
    (h : period ∈ candidatePeriods fromisoformat md facts y) :
    inFiscalYear fromisoformat md period.day y = true := by
  obtain ⟨fact, _, hfact⟩ := List.mem_filterMap.mp (List.mem_dedup.mp h)
  exact day_of_harvested hfact

end Queries

/-- A day is in at most one fiscal year, unless the filing's own year is a year the period end
lies outside of and its window takes a day of another calendar year: then it is in these two. -/
theorem fiscal_years_of_day (fromisoformat : String → Option Date) (md : FiledMetadata) (day : String) :
    (∀ y y', inFiscalYear fromisoformat md day y = true → inFiscalYear fromisoformat md day y' = true →
      y ≠ y' → (TakenByWindow fromisoformat md day y ∧ inCalendarYear day y' = true) ∨
        (TakenByWindow fromisoformat md day y' ∧ inCalendarYear day y = true)) ∧
    ((∃ y y', y ≠ y' ∧ inFiscalYear fromisoformat md day y = true ∧
        inFiscalYear fromisoformat md day y' = true) ↔
      ∃ own year, own ≠ year ∧ TakenByWindow fromisoformat md day own ∧
        inCalendarYear day year = true) ∧
    ∀ (V : Type) (facts : List (XbrlFact V)) (y y' : Int) (period : FiledPeriod), y ≠ y' →
      period ∈ candidatePeriods fromisoformat md facts y →
      period ∈ candidatePeriods fromisoformat md facts y' →
      ∃ own year, own ≠ year ∧ TakenByWindow fromisoformat md period.day own ∧
        inCalendarYear period.day year = true := by
  refine ⟨fun y y' h h' hne => years_of_day h h' hne, ?_, ?_⟩
  · constructor
    · rintro ⟨y, y', hne, h, h'⟩
      rcases years_of_day h h' hne with ⟨hwindow, hcalendar⟩ | ⟨hwindow, hcalendar⟩
      · exact ⟨y, y', hne, hwindow, hcalendar⟩
      · exact ⟨y', y, hne.symm, hwindow, hcalendar⟩
    · rintro ⟨own, year, hne, hwindow, hcalendar⟩
      refine ⟨own, year, hne, inFiscalYear_of_window hwindow, inFiscalYear_of_calendar hcalendar ?_⟩
      obtain ⟨_, _, _, _, _, hown, _⟩ := hwindow
      intro hyear
      exact hne (Option.some.inj (hown.symm.trans hyear))
  · intro V facts y y' period hne h h'
    rcases years_of_day (day_of_candidate h) (day_of_candidate h') hne with
      ⟨hwindow, hcalendar⟩ | ⟨hwindow, hcalendar⟩
    · exact ⟨y, y', hne, hwindow, hcalendar⟩
    · exact ⟨y', y, hne.symm, hwindow, hcalendar⟩

/-! ## A January year end named by its starting year -/

def digitOf (c : Char) : Option Nat := if c.isDigit then some (c.toNat - '0'.toNat) else none

/-- `YYYY-MM-DD` -/
def readIsoDate (text : String) : Option Date :=
  match text.toList with
  | [y1, y2, y3, y4, '-', m1, m2, '-', d1, d2] => do
    let year := 1000 * (← digitOf y1) + 100 * (← digitOf y2) + 10 * (← digitOf y3) + (← digitOf y4)
    makeDate year (10 * (← digitOf m1) + (← digitOf m2)) (10 * (← digitOf d1) + (← digitOf d2))
  | _ => none

def januaryFiler : FiledMetadata := ⟨some "2026-01-31", some 2025, some (1, 31)⟩

/-- The filed annual period ends on a day of both fiscal 2025 and fiscal 2026, and is offered for
both. -/
theorem january_year_end_in_two_years :
    inFiscalYear readIsoDate januaryFiler "2026-01-31" 2025 = true ∧
      inFiscalYear readIsoDate januaryFiler "2026-01-31" 2026 = true ∧
      ∀ year, year = 2025 ∨ year = 2026 → candidatePeriods readIsoDate januaryFiler
        [(⟨"a", "us-gaap:Revenues", .number (100 : Int), some "USD", none, "duration",
          some "2025-02-01", some "2026-01-31", none, .empty⟩ : XbrlFact Int)] year =
        [.duration "2025-02-01" "2026-01-31"] := by
  refine ⟨by decide +kernel, by decide +kernel, ?_⟩
  rintro year (rfl | rfl) <;> decide +kernel

end EdgarSec.Xbrl
