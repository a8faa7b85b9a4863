import EdgarSec.Foundation.Json
import EdgarSec.Lib.Intervals

/-! Date clauses of a filing selection and their normal form. -/

namespace EdgarSec.FilingCatalog
open EdgarSec.Foundation EdgarSec.Lib

/-! ## Dates -/

def isLeap (year : Nat) : Bool := year % 4 = 0 ∧ (year % 100 ≠ 0 ∨ year % 400 = 0)

def daysInMonth (year month : Nat) : Nat :=
  if month = 2 then (if isLeap year then 29 else 28)
  else if month = 4 ∨ month = 6 ∨ month = 9 ∨ month = 11 then 30
  else 31

/-- `datetime.date` -/
structure Date where
  year : Nat
  month : Nat
  day : Nat
  year_range : 1 ≤ year ∧ year ≤ 9999
  month_range : 1 ≤ month ∧ month ≤ 12
  day_range : 1 ≤ day ∧ day ≤ daysInMonth year month
deriving DecidableEq

theorem daysInMonth_le (year month : Nat) : daysInMonth year month ≤ 31 := by
  unfold daysInMonth
  split_ifs <;> omega

theorem le_daysInMonth (year month : Nat) : 28 ≤ daysInMonth year month := by
  unfold daysInMonth
  split_ifs <;> omega

namespace Date

def key (d : Date) : Nat := (d.year * 12 + d.month) * 32 + d.day

theorem key_injective : Function.Injective key := by
  intro a b h
  have hb := b.day_range
  have ha := a.day_range
  have hda := daysInMonth_le a.year a.month
  have hdb := daysInMonth_le b.year b.month
  have hma := a.month_range
  have hmb := b.month_range
  unfold key at h
  obtain ⟨ya, ma, da, _, _, _⟩ := a
  obtain ⟨yb, mb, db, _, _, _⟩ := b
  dsimp only at *
  obtain rfl : ya = yb := by omega
  obtain rfl : ma = mb := by omega
  obtain rfl : da = db := by omega
  rfl

instance : LinearOrder Date := LinearOrder.lift' key key_injective

theorem le_iff {a b : Date} : a ≤ b ↔ a.key ≤ b.key := Iff.rfl

theorem lt_iff {a b : Date} : a < b ↔ a.key < b.key := Iff.rfl

/-- `d + timedelta(days=1)`, and the last date itself where that overflows. -/
def next (d : Date) : Date :=
  if h : d.day < daysInMonth d.year d.month then
    { d with day := d.day + 1, day_range := ⟨by omega, h⟩ }
  else if h : d.month < 12 then
    { d with
      month := d.month + 1, day := 1, month_range := ⟨by omega, h⟩,
      day_range := ⟨le_refl 1, (by omega : 1 ≤ 28).trans (le_daysInMonth _ _)⟩ }
  else if h : d.year < 9999 then
    { year := d.year + 1, month := 1, day := 1, year_range := ⟨by omega, h⟩,
      month_range := ⟨le_refl 1, by omega⟩,
      day_range := ⟨le_refl 1, (by omega : 1 ≤ 28).trans (le_daysInMonth _ _)⟩ }
  else d

theorem day_lt_of_lt {a b : Date} (h : a < b) :
    a.year * 12 + a.month < b.year * 12 + b.month ∨
      (a.year = b.year ∧ a.month = b.month ∧ a.day < b.day) := by
  rw [lt_iff, key, key] at h
  have hb := b.day_range
  have hdb := daysInMonth_le b.year b.month
  have hma := a.month_range
  have hmb := b.month_range
  omega

theorem next_le_of_lt {a b : Date} (h : a < b) : a.next ≤ b := by
  have hb := b.day_range
  have hma := a.month_range
  have hmb := b.month_range
  have hyb := b.year_range
  have hda := daysInMonth_le a.year a.month
  have hcases := day_lt_of_lt h
  -- at the end of a month the later date is in a later month
  have hmonth : ¬ a.day < daysInMonth a.year a.month →
      a.year * 12 + a.month < b.year * 12 + b.month := by
    intro hday
    rcases hcases with hlt | ⟨hy, hm, hlt⟩
    · exact hlt
    · rw [hy, hm] at hday
      omega
  rw [le_iff]
  unfold next
  split_ifs with hday hm hy
  · rcases hcases with hlt | ⟨hy, hm, hlt⟩ <;> simp only [key] <;> omega
  · have hlater := hmonth hday
    simp only [key]
    omega
  · have hlater := hmonth hday
    simp only [key]
    omega
  · have hlater := hmonth hday
    omega

theorem le_next (a : Date) : a ≤ a.next := by
  have hda := a.day_range
  have hd := daysInMonth_le a.year a.month
  have hma := a.month_range
  rw [le_iff]
  unfold next
  split_ifs <;> simp only [key] <;> omega

theorem isMax_of_next_le {a : Date} (h : a.next ≤ a) : IsMax a := by
  have hda := a.day_range
  have hd := daysInMonth_le a.year a.month
  have hma := a.month_range
  intro b hab
  rcases hab.lt_or_eq with hlt | heq
  · have hlater := day_lt_of_lt hlt
    have hb := b.day_range
    have hyb := b.year_range
    have hmb := b.month_range
    rw [le_iff] at h
    unfold next at h
    split_ifs at h with hday hm hy
    · simp only [key] at h
      omega
    · simp only [key] at h
      omega
    · simp only [key] at h
      omega
    · rcases hlater with hlt | ⟨hy', hm', hlt⟩
      · omega
      · rw [hy', hm'] at hday
        omega
  · exact heq.ge

instance : SuccOrder Date where
  succ := next
  le_succ := le_next
  max_of_succ_le := isMax_of_next_le
  succ_le_of_lt := next_le_of_lt

end Date

/-! ## Clauses -/

/-- `AbsoluteDateClause`: one continuous inclusive interval. -/
structure AbsoluteDateClause where
  startDate : Option Date
  endDate : Option Date
  ordered : Proper (startDate, endDate)

def padded (width n : Nat) : String :=
  let digits := toString n
  String.ofList (List.replicate (width - digits.length) '0') ++ digits

def Date.isoformat (d : Date) : String := padded 4 d.year ++ "-" ++ padded 2 d.month ++ "-" ++ padded 2 d.day

def AbsoluteDateClause.make? (startDate endDate : Option Date) : Except String AbsoluteDateClause :=
  if h : Proper (startDate, endDate) then .ok ⟨startDate, endDate, h⟩
  else .error ("date interval starts after it ends: " ++ (startDate.map Date.isoformat).getD "None" ++
    ".." ++ (endDate.map Date.isoformat).getD "None")

inductive Granularity
  | month
  | quarter
deriving DecidableEq

def Granularity.text : Granularity → String
  | .month => "month"
  | .quarter => "quarter"

def Granularity.limit : Granularity → Nat
  | .month => 12
  | .quarter => 4

/-! `now` is the year in which the module is loaded. -/

section Years
variable (now : Int)

def defaultYearUpperBound : Int := max 2100 (now + 50)

def isValidYear (year : Int) : Prop := 1900 ≤ year ∧ year ≤ defaultYearUpperBound now

instance (year : Int) : Decidable (isValidYear now year) := by unfold isValidYear; infer_instance

/-- `RecurringDateClause`: months or quarters, repeated over an inclusive year range. -/
structure RecurringDateClause where
  granularity : Granularity
  values : List Nat
  startYear : Option Int
  endYear : Option Int
  values_ne_nil : values ≠ []
  values_range : ∀ v ∈ values, 1 ≤ v ∧ v ≤ granularity.limit
  start_valid : ∀ y ∈ startYear, isValidYear now y
  end_valid : ∀ y ∈ endYear, isValidYear now y
  ordered : Proper (startYear, endYear)

/-- The checks of `__post_init__`, in their order. -/
def RecurringDateClause.make? (granularity : Granularity) (values : List Nat)
    (startYear endYear : Option Int) : Except String (RecurringDateClause now) :=
  if hne : values = [] then .error "a recurring clause must name at least one period"
  else
    match hrange : values.find? (fun v => ¬ (1 ≤ v ∧ v ≤ granularity.limit)) with
    | some v => .error (granularity.text ++ " value " ++ toString v ++ " is outside 1.." ++
        toString granularity.limit)
    | none =>
      match hyears : (startYear.toList ++ endYear.toList).find? (fun y => ¬ isValidYear now y) with
      | some y => .error ("year " ++ toString y ++ " is outside the valid range")
      | none =>
        if hord : Proper (startYear, endYear) then
          .ok {
            granularity, values, startYear, endYear
            values_ne_nil := hne
            values_range := fun v hv => by
              simpa [Nat.one_le_iff_ne_zero] using List.find?_eq_none.mp hrange v hv
            start_valid := fun y hy => by
              simpa using List.find?_eq_none.mp hyears y (by simp_all)
            end_valid := fun y hy => by
              simpa using List.find?_eq_none.mp hyears y (by simp_all)
            ordered := hord }
        else .error ("recurring year range starts after it ends: " ++
          (startYear.map toString).getD "None" ++ ".." ++ (endYear.map toString).getD "None")

inductive DateClause
  | absolute (c : AbsoluteDateClause)
  | recurring (c : RecurringDateClause now)

variable {now}

/-! ## Matching -/

def AbsoluteDateClause.matches (c : AbsoluteDateClause) (d : Date) : Bool :=
  !(c.startDate.any (d < ·)) && !(c.endDate.any (· < d))

def Granularity.valueOf (g : Granularity) (d : Date) : Nat :=
  match g with
  | .quarter => (d.month - 1) / 3 + 1
  | .month => d.month

def RecurringDateClause.matches (c : RecurringDateClause now) (d : Date) : Bool :=
  !(c.startYear.any ((d.year : Int) < ·)) && !(c.endYear.any (· < (d.year : Int))) &&
    c.values.contains (c.granularity.valueOf d)

def DateClause.matches : DateClause now → Date → Bool
  | .absolute c, d => c.matches d
  | .recurring c, d => c.matches d

def dateSelectionMatches (selection : List (DateClause now)) (target : Option Date) : Bool :=
  if selection.isEmpty then true
  else match target with
    | none => false
    | some d => selection.any (·.matches d)

end Years

/-! ## Merging intervals -/

section Merging
variable {α : Type} [LinearOrder α] (shift : α → α)

def overlapsOrTouches : Option α → Option α → Bool
  | some e, some s => s ≤ shift e
  | _, _ => true

def boundLe : Option α → Option α → Bool
  | none, _ => true
  | some _, none => false
  | some a, some b => a ≤ b

/-- The order of `_interval_sort_key`. -/
def intervalLe (i j : Span α) : Bool :=
  if i.1 = j.1 then boundLe i.2 j.2 else boundLe i.1 j.1

def laterEnd : Option α → Option α → Option α
  | some e, some e' => if e < e' then some e' else some e
  | _, _ => none

def mergeFrom (current : Span α) : List (Span α) → List (Span α)
  | [] => [current]
  | next :: rest =>
    if overlapsOrTouches shift current.2 next.1 = true then
      mergeFrom (current.1, laterEnd current.2 next.2) rest
    else current :: mergeFrom next rest

def mergeIntervals (intervals : List (Span α)) : List (Span α) :=
  match intervals.mergeSort intervalLe with
  | [] => []
  | first :: rest => mergeFrom shift first rest

end Merging

def mergeAbsolute (clauses : List AbsoluteDateClause) : Except String (List AbsoluteDateClause) :=
  let merged := mergeIntervals Date.next (clauses.map fun c => (c.startDate, c.endDate))
  (merged.filter fun i => i.1.isSome || i.2.isSome).mapM fun i => AbsoluteDateClause.make? i.1 i.2

/-! ## Recurring clauses by year segment -/

def coversYear (interval segment : Span Int) : Bool :=
  if interval.1.any (fun start => segment.1.all (· < start)) then false
  else !(interval.2.any fun e => segment.2.all (e < ·))

def segmentsFrom (year : Int) : List Int → List (Span Int)
  | [] => [(some year, none)]
  | next :: rest => (some year, some (next - 1)) :: segmentsFrom next rest

def boundaries (intervals : List (Span Int)) : Finset Int :=
  (intervals.flatMap fun i => i.1.toList ++ (i.2.map (· + 1)).toList).toFinset

def yearSegments (intervals : List (Span Int)) : List (Span Int) :=
  match (boundaries intervals).sort (· ≤ ·) with
  | [] => [(none, none)]
  | first :: rest => (none, some (first - 1)) :: segmentsFrom first rest

/-- `per_value`: the merged spans of each value. -/
def perValue (entries : List (Nat × Span Int)) : List (Nat × List (Span Int)) :=
  (entries.map Prod.fst).dedup.map fun v =>
    (v, mergeIntervals (· + 1) ((entries.filter (·.1 = v)).map Prod.snd))

def segmentValues (values : List (Nat × List (Span Int))) (segment : Span Int) : List Nat :=
  ((values.filter fun v => v.2.any fun span => coversYear span segment).map Prod.fst).mergeSort

def labelFrom (last : Span Int × List Nat) : List (Span Int × List Nat) → List (Span Int × List Nat)
  | [] => [last]
  | next :: rest =>
    if last.2 = next.2 ∧ last.1.2.isSome = true ∧ last.1.2.map (· + 1) = next.1.1 then
      labelFrom ((last.1.1, next.1.2), last.2) rest
    else last :: labelFrom next rest

/-- `labelled`; segments without values are left out. -/
def labelled (values : List (Nat × List (Span Int))) : List (Span Int × List Nat) :=
  let segments := yearSegments (values.flatMap Prod.snd)
  match (segments.map fun s => (s, segmentValues values s)).filter fun l => l.2 ≠ [] with
  | [] => []
  | first :: rest => labelFrom first rest

section Normalizing
variable {now : Int}

/-- The entries of `grouped` for one granularity. -/
def entriesOf (clauses : List (RecurringDateClause now)) (g : Granularity) : List (Nat × Span Int) :=
  (clauses.filter (·.granularity = g)).flatMap fun c => c.values.map fun v => (v, (c.startYear, c.endYear))

def mergeRecurring (clauses : List (RecurringDateClause now)) :
    Except String (List (RecurringDateClause now)) := do
  let granularities := [Granularity.month, .quarter].filter fun g => clauses.any (·.granularity = g)
  let merged ← granularities.mapM fun g =>
    (labelled (perValue (entriesOf clauses g))).mapM fun l =>
      RecurringDateClause.make? now g l.2 l.1.1 l.1.2
  .ok merged.flatten

def absolutePart (clauses : List (DateClause now)) : List AbsoluteDateClause :=
  clauses.filterMap fun
    | .absolute c => some c
    | .recurring _ => none

def recurringPart (clauses : List (DateClause now)) : List (RecurringDateClause now) :=
  clauses.filterMap fun
    | .absolute _ => none
    | .recurring c => some c

def normalizeDateSelection (clauses : List (DateClause now)) : Except String (List (DateClause now)) := do
  let absolute ← mergeAbsolute (absolutePart clauses)
  let recurring ← mergeRecurring (recurringPart clauses)
  .ok (absolute.map .absolute ++ recurring.map .recurring)

end Normalizing
end EdgarSec.FilingCatalog
