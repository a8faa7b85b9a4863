import EdgarSec.Foundation.Unicode

/-! Era bands in two readings: the interval test of a band in Python and the conditions of the CASE expression. -/

namespace EdgarSec.Selection
open Foundation

structure EraBand where
  name : Chars
  startYear : Option Int
  endYear : Option Int
  startDate : Option Chars
  endDate : Option Chars
  named : name ≠ []
  bounded : startYear.isSome || endYear.isSome || startDate.isSome || endDate.isSome

def unmatchedEra : Chars := "unknown".toList

def meets {α β : Type} (bound : Option α) (value : Option β) (passes : β → α → Bool) : Bool :=
  match bound, value with
  | none, _ => true
  | some _, none => false
  | some b, some v => passes v b

def EraBand.begins (band : EraBand) (year : Option Int) (date : Chars) : Bool :=
  meets band.startYear year (fun y b => b ≤ y) && meets band.endYear year (fun y b => y < b) &&
    meets band.startDate (some date) fun d b => b ≤ d

/-- `EraBand.matches`, of a date that is there -/
def EraBand.matchesDate (band : EraBand) (year : Option Int) (date : Chars) : Bool :=
  band.begins year date && meets band.endDate (some date) fun d b => d < b

def firstName (passes : EraBand → Bool) (bands : List EraBand) : Chars := ((bands.find? passes).map EraBand.name).getD unmatchedEra

section Era
variable (u : Unicode)

def eraYear (date : Chars) : Except String (Option Int) :=
  if 4 ≤ date.length ∧ u.allDigits (date.take 4) then (u.int (date.take 4)).map some else .ok none

def eraOf (reportDate : Option Chars) (bands : List EraBand) : Except String Chars :=
  match reportDate with
  | none => .ok unmatchedEra
  | some [] => .ok unmatchedEra
  | some date => (eraYear u date).map fun year => firstName (fun band => band.matchesDate year date) bands

/-- `CAST(... AS INTEGER)` in the database, which raises where there is no value: up to four ASCII digits are their
number, and no digits are another number than in Python. -/
structure IntegerCast where
  cast : Chars → Option Int
  digits : ∀ text : Chars, text ≠ [] → text.length ≤ 4 → (∀ c ∈ text, c.isDigit) → ∃ n, u.int text = .ok n ∧ cast text = some n
  sound : ∀ (text : Chars) (n m : Int), u.allDigits text → u.int text = .ok n → cast text = some m → n = m

end Era

def conjunction : List (Option Bool) → Option Bool
  | [] => some true
  | some true :: rest => conjunction rest
  | some false :: _ => some false
  | none :: _ => none

section Sql
variable {u : Unicode} (ints : IntegerCast u)

/-- The condition of a band in `_era_sql`. -/
def EraBand.condition (band : EraBand) (date : Chars) : Option Bool :=
  let year := ints.cast (date.take 4)
  conjunction (
    (band.startYear.map fun b => year.map fun y => decide (b ≤ y)).toList ++
    (band.endYear.map fun b => year.map fun y => decide (y < b)).toList ++
    (band.startDate.map fun b => some (decide (b ≤ date))).toList ++
    (band.endDate.map fun b => some (decide (date ≤ b))).toList)

def eraCases (date : Chars) : List EraBand → Option Chars
  | [] => some unmatchedEra
  | band :: rest =>
    match band.condition ints date with
    | none => none
    | some true => some band.name
    | some false => eraCases date rest

/-- The value of `_era_sql`, where it is defined. -/
def eraSql (column : Option Chars) (bands : List EraBand) : Option Chars :=
  if bands = [] then some unmatchedEra
  else match column with
    | none => some unmatchedEra
    | some date => if date.length < 4 then some unmatchedEra else eraCases ints date bands

/-! ## One band -/

variable {ints} {band : EraBand} {date : Chars}

@[simp] theorem conjunction_some (b : Bool) (rest : List (Option Bool)) :
    conjunction (some b :: rest) = if b then conjunction rest else some false := by
  cases b <;> rfl

def EraBand.accepts (band : EraBand) (year : Option Int) (date : Chars) : Bool :=
  band.begins year date && meets band.endDate (some date) fun d b => d ≤ b

theorem conjunction_dates (band : EraBand) (date : Chars) :
    conjunction ((band.startDate.map fun b => some (decide (b ≤ date))).toList ++ (band.endDate.map fun b => some (decide (date ≤ b))).toList) =
      some (meets band.startDate (some date) (fun d b => b ≤ d) && meets band.endDate (some date) fun d b => d ≤ b) := by
  cases band.startDate with
  | none =>
    cases band.endDate with
    | none => rfl
    | some e => cases h : decide (date ≤ e) <;> simp [conjunction, meets, h]
  | some s =>
    cases band.endDate with
    | none => cases h : decide (s ≤ date) <;> simp [conjunction, meets, h]
    | some e => cases h : decide (s ≤ date) <;> cases h' : decide (date ≤ e) <;> simp [conjunction, meets, h, h']

theorem condition_eq (band : EraBand) (date : Chars) : band.condition ints date =
    if ints.cast (date.take 4) = none ∧ (band.startYear.isSome || band.endYear.isSome) then none
    else some (band.accepts (ints.cast (date.take 4)) date) := by
  have hdates := conjunction_dates band date
  unfold EraBand.condition EraBand.accepts EraBand.begins
  simp only [List.append_assoc]
  generalize (band.startDate.map fun b => some (decide (b ≤ date))).toList ++ (band.endDate.map fun b => some (decide (date ≤ b))).toList = dates at hdates
  cases ints.cast (date.take 4) with
  | none =>
    cases band.startYear with
    | some s => simp [conjunction]
    | none =>
      cases band.endYear with
      | some e => simp [conjunction]
      | none => simpa [meets] using hdates
  | some y =>
    cases band.startYear with
    | none =>
      cases band.endYear with
      | none => simpa [meets] using hdates
      | some e => cases h : decide (y < e) <;> simp [meets, h, hdates]
    | some s =>
      cases band.endYear with
      | none => cases h : decide (s ≤ y) <;> simp [meets, h, hdates]
      | some e => cases h : decide (s ≤ y) <;> cases h' : decide (y < e) <;> simp [meets, h, h', hdates]

theorem accepts_of_matches {year : Option Int} (hyear : eraYear u date = .ok year)
    (hjudged : (band.startYear.isSome || band.endYear.isSome) → ints.cast (date.take 4) ≠ none)
    (h : band.matchesDate year date = true) : band.accepts (ints.cast (date.take 4)) date = true := by
  rw [EraBand.matchesDate, Bool.and_eq_true] at h
  obtain ⟨hbegins, hend⟩ := h
  rw [EraBand.accepts, Bool.and_eq_true]
  constructor
  · cases hbounds : band.startYear.isSome || band.endYear.isSome with
    | false =>
      -- without a year bound the year is not asked
      rw [Bool.or_eq_false_iff, Option.isSome_eq_false_iff, Option.isSome_eq_false_iff, Option.isNone_iff_eq_none, Option.isNone_iff_eq_none] at hbounds
      rw [EraBand.begins, hbounds.1, hbounds.2] at hbegins ⊢
      exact hbegins
    | true =>
      obtain ⟨m, hm⟩ := Option.ne_none_iff_exists'.mp (hjudged hbounds)
      have hsome : ∃ n, year = some n := by
        cases year with
        | some n => exact ⟨n, rfl⟩
        | none =>
          rw [EraBand.begins] at hbegins
          cases hs : band.startYear with
          | some s => simp [hs, meets] at hbegins
          | none =>
            cases he : band.endYear with
            | some e => simp [he, meets] at hbegins
            | none => simp [hs, he] at hbounds
      obtain ⟨n, rfl⟩ := hsome
      have hnm : n = m := by
        unfold eraYear at hyear
        split at hyear
        · next hdigits =>
          cases hint : u.int (date.take 4) with
          | error e => simp [hint, Except.map] at hyear
          | ok k =>
            have hk : k = n := by simpa [hint, Except.map] using hyear
            rw [← hk]
            exact ints.sound _ k m hdigits.2 hint hm
        · cases hyear
      rw [hm, ← hnm]
      exact hbegins
  · cases he : band.endDate with
    | none => rfl
    | some e =>
      rw [he] at hend
      have hlt : date < e := by simpa [meets] using hend
      simpa [meets] using hlt.le

/-! ## Both readings of all bands -/

theorem firstName_cons (passes : EraBand → Bool) (band : EraBand) (rest : List EraBand) :
    firstName passes (band :: rest) = if passes band then band.name else firstName passes rest := by
  cases h : passes band <;> simp [firstName, h]

def AlikeUpTo (ints : IntegerCast u) (year : Option Int) (date : Chars) (bands : List EraBand) : Prop :=
  ∀ before band after, bands = before ++ band :: after → (∀ b ∈ before, b.condition ints date = some false) →
    ((band.startYear.isSome || band.endYear.isSome) → ints.cast (date.take 4) ≠ none) ∧
    (band.accepts (ints.cast (date.take 4)) date = true → band.matchesDate year date = false →
      firstName (fun b => b.matchesDate year date) after = band.name)

theorem AlikeUpTo.cons_iff {year : Option Int} {rest : List EraBand} : AlikeUpTo ints year date (band :: rest) ↔
    (((band.startYear.isSome || band.endYear.isSome) → ints.cast (date.take 4) ≠ none) ∧
      (band.accepts (ints.cast (date.take 4)) date = true → band.matchesDate year date = false →
        firstName (fun b => b.matchesDate year date) rest = band.name)) ∧
    (band.condition ints date = some false → AlikeUpTo ints year date rest) := by
  constructor
  · intro h
    refine ⟨h [] band rest rfl (fun _ hb => absurd hb List.not_mem_nil), fun hfalse before b after hrest hbefore => ?_⟩
    refine h (band :: before) b after (by rw [hrest]; rfl) fun c hc => ?_
    rcases List.mem_cons.mp hc with rfl | hc
    · exact hfalse
    · exact hbefore c hc
  · rintro ⟨hhead, htail⟩ before b after heq hbefore
    cases before with
    | nil =>
      obtain ⟨rfl, rfl⟩ := List.cons.inj heq
      exact hhead
    | cons c before =>
      obtain ⟨rfl, hrest⟩ := List.cons.inj heq
      exact htail (hbefore band List.mem_cons_self) before b after hrest fun d hd => hbefore d (List.mem_cons_of_mem _ hd)

theorem eraCases_iff {year : Option Int} (hyear : eraYear u date = .ok year) (bands : List EraBand) :
    eraCases ints date bands = some (firstName (fun b => b.matchesDate year date) bands) ↔ AlikeUpTo ints year date bands := by
  induction bands with
  | nil =>
    refine ⟨fun _ before band after heq => ?_, fun _ => rfl⟩
    cases before <;> cases heq
  | cons band rest ih =>
    rw [AlikeUpTo.cons_iff, eraCases, firstName_cons, condition_eq]
    by_cases hjudged : ints.cast (date.take 4) = none ∧ (band.startYear.isSome || band.endYear.isSome) = true
    · simp [hjudged]
    · have hcan : (band.startYear.isSome || band.endYear.isSome) = true → ints.cast (date.take 4) ≠ none :=
        fun hbound hnone => hjudged ⟨hnone, hbound⟩
      rw [if_neg hjudged]
      cases haccepts : band.accepts (ints.cast (date.take 4)) date with
      | false =>
        have hmatches : band.matchesDate year date = false := by
          rw [← Bool.not_eq_true]
          intro hm
          rw [accepts_of_matches hyear hcan hm] at haccepts
          cases haccepts
        simp only [hmatches, Bool.false_eq_true, if_false, false_imp_iff, and_true, true_imp_iff]
        rw [ih]
        exact ⟨fun h => ⟨hcan, h⟩, fun h => h.2⟩
      | true =>
        cases hmatches : band.matchesDate year date with
        | true => simpa using hcan
        | false =>
          simp only [Bool.false_eq_true, if_false, true_imp_iff, Option.some.injEq]
          exact ⟨fun h => ⟨⟨hcan, h.symm⟩, fun hfalse => absurd hfalse.symm Bool.false_ne_true⟩, fun h => h.1.2.symm⟩

/-- The CASE expression is defined and yields what `era_of` returns. -/
def EraAgrees (ints : IntegerCast u) (bands : List EraBand) (text : Option Chars) : Prop :=
  ∃ name, eraOf u text bands = .ok name ∧ eraSql ints text bands = some name

def EraAlike (ints : IntegerCast u) (bands : List EraBand) : Option Chars → Prop
  | none => True
  | some date => date = [] ∨
      (if date.length < 4 then firstName (fun b => b.matchesDate none date) bands = unmatchedEra
      else ∃ year, eraYear u date = .ok year ∧ AlikeUpTo ints year date bands)

/-- The two readings of a text agree where it is blank; where it is too short for a year and no band takes it by its dates;
or where the bands up to the first that the database accepts are judged alike. -/
theorem era_agrees_iff (u : Unicode) (ints : IntegerCast u) (bands : List EraBand) (text : Option Chars) :
    EraAgrees ints bands text ↔ EraAlike ints bands text := by
  have hsql : ∀ date : Chars, eraSql ints (some date) bands = if date.length < 4 then some unmatchedEra else eraCases ints date bands := by
    intro date
    unfold eraSql
    split
    · next hnil =>
      rw [hnil]
      split <;> rfl
    · rfl
  cases text with
  | none =>
    refine ⟨fun _ => trivial, fun _ => ⟨unmatchedEra, rfl, ?_⟩⟩
    unfold eraSql
    split <;> rfl
  | some date =>
    cases date with
    | nil => exact ⟨fun _ => .inl rfl, fun _ => ⟨unmatchedEra, rfl, hsql []⟩⟩
    | cons c rest =>
      generalize hdate : c :: rest = date at hsql ⊢
      have hne : date ≠ [] := by
        rw [← hdate]
        exact List.cons_ne_nil c rest
      have hera : eraOf u (some date) bands = (eraYear u date).map fun year => firstName (fun b => b.matchesDate year date) bands := by
        rw [← hdate]
        rfl
      unfold EraAgrees EraAlike
      rw [hera, hsql]
      by_cases hshort : date.length < 4
      · have hyear : eraYear u date = .ok none := by
          unfold eraYear
          rw [if_neg fun h => absurd h.1 (by omega)]
        simp only [hyear, Except.map, Except.ok.injEq, if_pos hshort, hne, false_or, Option.some.injEq, exists_eq_left']
        exact eq_comm
      · simp only [if_neg hshort, hne, false_or]
        cases hyear : eraYear u date with
        | error e => simp [Except.map]
        | ok year =>
          simp only [Except.map, Except.ok.injEq, exists_eq_left']
          exact eraCases_iff hyear bands

end Sql

/-! ### A last day that begins the next band -/

theorem decimalOf_digit (u : Unicode) {c : Char} (h : c.isDigit) : u.decimalOf c = some (c.toNat - 48) := by
  have hascii : isAscii c := by
    have hbounds : c.toNat ≤ 57 := by
      simp only [Char.isDigit, Bool.and_eq_true, decide_eq_true_eq] at h
      exact h.2
    exact decide_eq_true (by omega)
  rw [Unicode.decimalOf, if_pos hascii, if_pos h]

theorem intDigits_of_digits (u : Unicode) {text : Chars} (hne : text ≠ []) (h : ∀ c ∈ text, c.isDigit) :
    ∃ ds, u.intDigits text = some ds ∧ ds.length = text.length := by
  fun_induction u.intDigits text with
  | case1 => exact absurd rfl hne
  | case2 c =>
    rw [decimalOf_digit u (h c List.mem_cons_self)]
    exact ⟨_, rfl, rfl⟩
  | case3 c rest ih =>
    have hunderscore := h '_' (List.mem_cons_of_mem _ List.mem_cons_self)
    exact absurd hunderscore (by decide)
  | case4 c rest hsingle hunderscore ih =>
    have hrest : rest ≠ [] := fun hnil => hsingle hnil
    obtain ⟨ds, hds, hlength⟩ := ih hrest fun d hd => h d (List.mem_cons_of_mem _ hd)
    rw [decimalOf_digit u (h c List.mem_cons_self), hds]
    exact ⟨_, rfl, by rw [List.length_cons, List.length_cons, hlength]⟩

theorem int_of_digits (u : Unicode) {text : Chars} (hne : text ≠ []) (hlength : text.length ≤ 4) (h : ∀ c ∈ text, c.isDigit) :
    ∃ n, u.int text = .ok n := by
  have hspace : ∀ c ∈ text, isPySpace c = false := by
    intro c hc
    apply Unicode.isDecimal_not_space
    rw [Unicode.isDecimal, decimalOf_digit u (h c hc)]
    rfl
  obtain ⟨ds, hds, hdsLength⟩ := intDigits_of_digits u hne h
  obtain ⟨c, rest, rfl⟩ := List.exists_cons_of_ne_nil hne
  have hminus : c ≠ '-' := fun hc => absurd (hc ▸ h c List.mem_cons_self) (by decide)
  have hplus : c ≠ '+' := fun hc => absurd (hc ▸ h c List.mem_cons_self) (by decide)
  have hshort : ¬ 4300 < ds.length := by omega
  unfold Unicode.int
  simp [Unicode.stripChars_of_not_space hspace, hminus, hplus, hds, hshort]

def digitCast (u : Unicode) (text : Chars) : Option Int :=
  if text ≠ [] ∧ text.all Char.isDigit then (u.int text).toOption else none

theorem digitCast_digits (u : Unicode) (text : Chars) (hne : text ≠ []) (hlength : text.length ≤ 4) (h : ∀ c ∈ text, c.isDigit) :
    ∃ n, u.int text = .ok n ∧ digitCast u text = some n := by
  obtain ⟨n, hn⟩ := int_of_digits u hne hlength h
  refine ⟨n, hn, ?_⟩
  unfold digitCast
  rw [if_pos ⟨hne, List.all_eq_true.mpr h⟩, hn]
  rfl

theorem digitCast_sound (u : Unicode) (text : Chars) (n m : Int) (_ : u.allDigits text) (hint : u.int text = .ok n)
    (hcast : digitCast u text = some m) : n = m := by
  unfold digitCast at hcast
  split at hcast
  · rw [hint] at hcast
    exact Option.some.inj hcast
  · cases hcast

def asciiCast : IntegerCast asciiLetters := ⟨digitCast asciiLetters, digitCast_digits asciiLetters, digitCast_sound asciiLetters⟩

def earlierBand : EraBand where
  name := "earlier".toList
  startYear := none
  endYear := none
  startDate := none
  endDate := some "2005-06-30".toList
  named := by decide
  bounded := rfl

def laterBand : EraBand where
  name := "later".toList
  startYear := none
  endYear := none
  startDate := some "2005-06-30".toList
  endDate := none
  named := by decide
  bounded := rfl

/-- The day on which one band ends and the next begins is in the later one for Python, and in the earlier one for the
database. -/
theorem last_day_in_both_bands :
    eraOf asciiLetters (some "2005-06-30".toList) [earlierBand, laterBand] = .ok "later".toList ∧
      eraSql asciiCast (some "2005-06-30".toList) [earlierBand, laterBand] = some "earlier".toList ∧
      ¬ ∀ (u : Unicode) (ints : IntegerCast u) (bands : List EraBand) (text : Option Chars), EraAgrees ints bands text := by
  have hpython : eraOf asciiLetters (some "2005-06-30".toList) [earlierBand, laterBand] = .ok "later".toList := by
    decide +kernel
  have hsql : eraSql asciiCast (some "2005-06-30".toList) [earlierBand, laterBand] = some "earlier".toList := by
    decide +kernel
  refine ⟨hpython, hsql, fun hclaim => ?_⟩
  obtain ⟨name, hname, hcase⟩ := hclaim asciiLetters asciiCast [earlierBand, laterBand] (some "2005-06-30".toList)
  rw [hpython] at hname
  rw [hsql] at hcase
  have heq : "later".toList = "earlier".toList := (Except.ok.inj hname).trans (Option.some.inj hcase).symm
  exact absurd heq (by decide +kernel)

end EdgarSec.Selection
