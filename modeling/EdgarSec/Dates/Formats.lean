import EdgarSec.Patterns.Tries

/-! The date formats of filings, and the parser that looks for one of them in a text. -/

namespace EdgarSec.Dates
open Lib Foundation Patterns

structure DateTables extends CharTables where
  decimal_case : ∀ c d, decimal c = some d → caseKey c = c

structure Clock where
  loaded : Int
  now : Int

/-! ## Patterns -/

def monthAliases : List (List Chars) :=
  [["january", "jan", "jan."],
   ["february", "feb", "feb."],
   ["march", "mar", "mar."],
   ["april", "apr", "apr."],
   ["may"],
   ["june", "jun", "jun."],
   ["july", "jul", "jul."],
   ["august", "aug", "aug."],
   ["september", "sep", "sept", "sep.", "sept."],
   ["october", "oct", "oct."],
   ["november", "nov", "nov."],
   ["december", "dec", "dec."]].map fun aliases => aliases.map String.toList

def monthPattern : Chars := buildAlternation { autoEscape := true, compact := true } monthAliases.flatten

def ordinalSuffixPattern : Chars :=
  buildAlternation { autoEscape := true } (["st", "nd", "rd", "th"].map String.toList)

/-- `re.compile` of a pattern whose syntax is read. -/
def compiled (pattern : Chars) (flags : Flags := {}) : Pattern := (compile flags pattern).getD ⟨flags, .empty⟩

def monthRe : Pattern := compiled ("(?i)".toList ++ monthPattern)

def ordinalSuffixRe : Pattern := compiled ("(?i)(\\d+)(?:".toList ++ ordinalSuffixPattern ++ ")\\b".toList)

def yearInTextRe : Pattern := compiled "\\b(\\d\x7b4\x7d)\\b".toList

def whitespaceRe : Pattern := compiled "\\s+".toList

def slashSepRe : Pattern := compiled "\\s*/\\s*".toList

def dashSepRe : Pattern := compiled "\\s*-\\s*".toList

def dateFragmentRe : Pattern :=
  compiled "(?:\\d\x7b1,4\x7d(?:st|nd|rd|th)?|[,./-])(?:\\s*[,./-]?\\s*)?".toList { ignoreCase := true }

def monthDayFragmentRe : Pattern := compiled ("(?i)^(?:".toList ++ monthPattern ++ ")\\s+\\d\x7b1,2\x7d,?$".toList)

def dayYearFragmentRe : Pattern := compiled "^\\d\x7b1,2\x7d,?\\s+\\d\x7b2,4\x7d$".toList

/-! ## Formats -/

inductive DateToken where
  | mmName
  | dd
  | ddNum
  | mm
  | yyyy
  | yy
  deriving DecidableEq, Repr

structure DateFormat where
  id : String
  pattern : Pattern
  priority : Nat := 0

def sepPattern (separator : Chars) : Chars :=
  let s := stripChars separator
  if s = [] then (if separator ≠ [] then "\\s+".toList else "\\s*".toList)
  else "\\s*".toList ++ escape s ++ "\\s*".toList

def tokenPattern : DateToken → Chars
  | .mmName => "(?P<month>".toList ++ monthPattern ++ ")\\.?".toList
  | .dd => "(?P<day>\\d\x7b1,2\x7d)(?:".toList ++ ordinalSuffixPattern ++ ")?,?".toList
  | .ddNum => "(?P<day>\\d\x7b1,2\x7d),?".toList
  | .mm => "(?P<month>\\d\x7b1,2\x7d)".toList
  | .yyyy => "(?P<year>\\d\x7b4\x7d)".toList
  | .yy => "(?P<year>\\d\x7b2\x7d)".toList

def formatParts : List DateToken → List Chars → Chars
  | [], _ => []
  | [token], _ => tokenPattern token
  | token :: tokens, [] => tokenPattern token ++ formatParts tokens []
  | token :: tokens, separator :: separators => tokenPattern token ++ sepPattern separator ++ formatParts tokens separators

def buildFormatPattern (tokens : List DateToken) (separators : List Chars) : Chars :=
  let front := if tokens.head?.any fun token => token = .mm ∨ token = .dd ∨ token = .ddNum then "(?<![\\d/-])".toList else []
  "(?i)".toList ++ front ++ "\\b".toList ++ formatParts tokens separators ++ "\\b".toList

def buildFormats : List (String × List DateToken × List String × Nat) → List DateFormat :=
  List.map fun (id, tokens, separators, priority) =>
    ⟨id, compiled (buildFormatPattern tokens (separators.map String.toList)), priority⟩

def secDateFormats : List DateFormat := buildFormats
  [("month_day_year", [.mmName, .dd, .yyyy], [" ", ","], 100),
   ("month_day_year_nocomma", [.mmName, .dd, .yyyy], [" ", " "], 90),
   ("day_month_year", [.dd, .mmName, .yyyy], [" ", " "], 95),
   ("day_month_year_dash", [.dd, .mmName, .yyyy], ["-", "-"], 94),
   ("year_month_day_iso", [.yyyy, .mm, .dd], ["-", "-"], 110),
   ("year_month_day_compact", [.yyyy, .mm, .dd], ["", ""], 108),
   ("year_month_day_name", [.yyyy, .mmName, .dd], [" ", " "], 105),
   ("month_year_comma", [.mmName, .yyyy], [","], 85),
   ("month_year_space", [.mmName, .yyyy], [" "], 80),
   ("month_year_slash", [.mmName, .yyyy], ["/"], 78),
   ("month_year_numeric", [.mm, .yyyy], ["/"], 65),
   ("month_year_numeric_dash", [.mm, .yyyy], ["-"], 54),
   ("month_day_year_numeric", [.mm, .dd, .yyyy], ["/", "/"], 70),
   ("day_month_year_numeric", [.ddNum, .mm, .yyyy], ["/", "/"], 68),
   ("month_day_year_dash", [.mm, .dd, .yyyy], ["-", "-"], 60),
   ("month_day_year_dot", [.mm, .dd, .yyyy], [".", "."], 58)]

def twoDigitFormats : List DateFormat := buildFormats
  [("month_day_year_name_2digit", [.mmName, .dd, .yy], [" ", ","], 55),
   ("month_day_year_name_2digit_nocomma", [.mmName, .dd, .yy], [" ", " "], 50),
   ("day_month_year_dash_2digit", [.ddNum, .mmName, .yy], ["-", "-"], 48),
   ("month_day_year_2digit", [.mm, .dd, .yy], ["/", "/"], 45),
   ("month_day_year_dash_2digit", [.mm, .dd, .yy], ["-", "-"], 40),
   ("month_day_year_dot_2digit", [.mm, .dd, .yy], [".", "."], 38),
   ("month_year_2digit_comma", [.mmName, .yy], [","], 35),
   ("month_year_2digit_space", [.mmName, .yy], [" "], 30),
   ("day_month_year_numeric_dash_2digit", [.ddNum, .mm, .yy], ["-", "-"], 36),
   ("day_month_year_numeric_2digit", [.ddNum, .mm, .yy], ["/", "/"], 37),
   ("month_year_numeric_2digit", [.mm, .yy], ["/"], 25),
   ("month_year_numeric_dash_2digit", [.mm, .yy], ["-"], 22)]

def allSecDateFormatsOrdered : List DateFormat :=
  (secDateFormats ++ twoDigitFormats).insertionSort fun a b => b.priority ≤ a.priority

/-! ## Dates -/

structure DateComponents where
  year : Int
  month : Int
  day : Int
  deriving DecidableEq, Repr

def isLeap (year : Int) : Bool := year % 4 = 0 && (year % 100 ≠ 0 || year % 400 = 0)

def daysInMonth (year month : Int) : Int :=
  if month = 2 then (if isLeap year then 29 else 28)
  else if month = 4 ∨ month = 6 ∨ month = 9 ∨ month = 11 then 30
  else 31

/-- Whether `date` takes the components. -/
def DateComponents.valid (c : DateComponents) : Bool :=
  1 ≤ c.year && c.year ≤ 9999 && 1 ≤ c.month && c.month ≤ 12 && 1 ≤ c.day && c.day ≤ daysInMonth c.year c.month

structure ParsedDate where
  formatId : String
  source : Chars
  components : DateComponents
  deriving DecidableEq, Repr

def ParsedDate.display (d : ParsedDate) : Chars := d.source

section Parser
variable (u : DateTables) (clock : Clock) (referenceYear : Option Int)

def monthNameToIndex (value : Chars) : Option Int :=
  (monthAliases.findIdx? fun aliases => aliases.contains (u.lowered (stripChars value))).map fun i => (i : Int) + 1

def monthOf (monthStr : Chars) : Option Int :=
  match monthNameToIndex u monthStr with
  | some month => some month
  | none =>
    match u.int monthStr with
    | .error _ => none
    | .ok month => if 1 ≤ month ∧ month ≤ 12 then some month else none

def Clock.defaultYearUpperBound : Int := max 2100 (clock.loaded + 50)

def Clock.expand2digitYear (year : Int) : Int :=
  if 100 ≤ year then year
  else
    let anchor := referenceYear.getD clock.now
    let baseYear := anchor - 80
    let candidate := baseYear / 100 * 100 + year
    if candidate < baseYear then candidate + 100 else candidate

def Clock.yearRange : Int × Int :=
  match referenceYear.filter (· ≠ 0) with
  | none => (1900, clock.defaultYearUpperBound)
  | some year => (min 1900 (year - 80), max clock.defaultYearUpperBound (year + 50))

def yearOf (yearStr : Chars) : Except String Int :=
  match u.int yearStr with
  | .error e => .error e
  | .ok year => .ok (if yearStr.length ≤ 2 then clock.expand2digitYear referenceYear year else year)

def dayOf (dayStr : Chars) : Except String Int :=
  if dayStr = [] then .ok 1 else u.int (ordinalSuffixRe.sub u.toCharTables [] dayStr)

def DateFormat.read (fmt : DateFormat) (source : Chars) (groups : List (String × Chars)) : Except String (Option ParsedDate) :=
  let yearStr := (groups.lookup "year").getD []
  let monthStr := (groups.lookup "month").getD []
  if yearStr = [] ∨ monthStr = [] then .ok none
  else
    match yearOf u clock referenceYear yearStr with
    | .error e => .error e
    | .ok year =>
      if year < (clock.yearRange referenceYear).1 ∨ (clock.yearRange referenceYear).2 < year then .ok none
      else
        match monthOf u monthStr with
        | none => .ok none
        | some month =>
          match dayOf u ((groups.lookup "day").getD []) with
          | .error e => .error e
          | .ok day =>
            if day < 1 ∨ 31 < day then .ok none
            else
              let components : DateComponents := ⟨year, month, day⟩
              if components.valid then .ok (some ⟨fmt.id, stripChars source, components⟩) else .ok none

def parseDateWithFormats (normalized : Chars) : List DateFormat → Except String (Option ParsedDate)
  | [] => .ok none
  | fmt :: ordered =>
    match fmt.pattern.search u.toCharTables normalized with
    | none => parseDateWithFormats normalized ordered
    | some (p, q) =>
      match fmt.read u clock referenceYear (p.upTo q) q.groups with
      | .error e => .error e
      | .ok (some parsed) => .ok (some parsed)
      | .ok none => parseDateWithFormats normalized ordered

def parseDate (text : Chars) : Except String (Option ParsedDate) :=
  let normalized := stripChars (whitespaceRe.sub u.toCharTables [' '] text)
  if normalized = [] then .ok none
  else parseDateWithFormats u clock none normalized allSecDateFormatsOrdered

end Parser

/-! ## What is found -/

section Spec
variable {u : DateTables} {clock : Clock} {referenceYear : Option Int}

theorem read_source {fmt : DateFormat} {source : Chars} {groups : List (String × Chars)} {d : ParsedDate}
    (h : fmt.read u clock referenceYear source groups = .ok (some d)) : d.source = stripChars source := by
  unfold DateFormat.read at h
  dsimp only at h
  split at h
  · cases h
  split at h
  · cases h
  split at h
  · cases h
  split at h
  · cases h
  split at h
  · cases h
  split at h
  · cases h
  split at h
  · injection h with h
    injection h with h
    rw [← h]
  · cases h

theorem parseDateWithFormats_source {normalized : Chars} {formats : List DateFormat} {d : ParsedDate}
    (h : parseDateWithFormats u clock referenceYear normalized formats = .ok (some d)) :
    ∃ found, found <:+: normalized ∧ d.source = stripChars found := by
  induction formats with
  | nil => cases h
  | cons fmt ordered ih =>
    rw [parseDateWithFormats] at h
    split at h
    · exact ih h
    · rename_i p q hsearch
      split at h
      · cases h
      · rename_i parsed hread
        injection h with h
        injection h with h
        obtain ⟨htext, -, hmem⟩ := Regex.search_spec hsearch
        refine ⟨p.upTo q, ⟨p.before.reverse, q.rest, ?_⟩, h ▸ read_source hread⟩
        rw [List.append_assoc, ← (Regex.ends_reaches hmem).rest_eq]
        exact htext
      · exact ih h

end Spec

/-! ## Nothing is raised

The groups of a year and of a day hold a few digits each. -/

section Digits
variable {u : DateTables} {clock : Clock} {referenceYear : Option Int} {text : Chars}

theorem intDigits_of_decimals (hne : text ≠ []) (h : ∀ c ∈ text, u.isDecimal c = true) :
    ∃ ds, u.intDigits text = some ds ∧ ds.length = text.length := by
  induction text with
  | nil => exact absurd rfl hne
  | cons c rest ih =>
    obtain ⟨d, hd⟩ := Option.isSome_iff_exists.mp (h c List.mem_cons_self)
    cases rest with
    | nil => exact ⟨[d], by rw [Unicode.intDigits, hd]; rfl, rfl⟩
    | cons c' rest =>
      obtain ⟨ds, hds, hlength⟩ := ih (List.cons_ne_nil _ _) fun x hx => h x (List.mem_cons_of_mem _ hx)
      have hunderscore : c' ≠ '_' := by
        intro heq
        have hdecimal := h c' (List.mem_cons_of_mem _ List.mem_cons_self)
        rw [heq] at hdecimal
        exact absurd hdecimal Bool.false_ne_true
      refine ⟨d :: ds, ?_, by rw [List.length_cons, hlength]; rfl⟩
      rw [Unicode.intDigits, hd, hds]
      · rfl
      · exact fun heq => absurd heq (List.cons_ne_nil _ _)
      · intro rest' heq
        injection heq with heq
        exact hunderscore heq

theorem int_of_decimals (hne : text ≠ []) (h : ∀ c ∈ text, u.isDecimal c = true) (hlength : text.length ≤ 4300) :
    ∃ n, u.int text = .ok n := by
  obtain ⟨ds, hds, hcount⟩ := intDigits_of_decimals hne h
  have hstrip : stripChars text = text := Unicode.stripChars_of_not_space fun c hc => Unicode.isDecimal_not_space (h c hc)
  have hsign : ∀ c, u.isDecimal c = true → c ≠ '-' ∧ c ≠ '+' := by
    intro c hc
    constructor
    · intro heq
      rw [heq] at hc
      exact absurd hc Bool.false_ne_true
    · intro heq
      rw [heq] at hc
      exact absurd hc Bool.false_ne_true
  have hminus : ∀ rest, text = '-' :: rest → False := fun rest heq => (hsign '-' (h '-' (heq ▸ List.mem_cons_self))).1 rfl
  have hplus : ∀ rest, text = '+' :: rest → False := fun rest heq => (hsign '+' (h '+' (heq ▸ List.mem_cons_self))).2 rfl
  have hfew : ¬ 4300 < ds.length := by omega
  unfold Unicode.int
  simp only [hstrip]
  rw [hds]
  exact ⟨_, if_neg hfew⟩

theorem not_decimal_of_literal {a c : Char} (hascii : isAscii a = true) (hlower : a.toLower = a) (hdecimal : a.isDigit = false)
    (h : CharTest.test u.toCharTables { ignoreCase := true } (.literal a) c = true) : ¬ u.isDecimal c = true := by
  intro hc
  have ha : u.keyOf true a = a := by
    show (if isAscii a = true then a.toLower else _) = a
    rw [if_pos hascii, hlower]
  have hkey : u.keyOf true c = c := by
    show (if isAscii c = true then c.toLower else u.caseKey c) = c
    obtain ⟨d, hd⟩ := Option.isSome_iff_exists.mp hc
    rw [Unicode.decimalOf] at hd
    split_ifs at hd ⊢ with hcascii hdigit
    · have hbounds : 48 ≤ c.toNat ∧ c.toNat ≤ 57 := by
        simp only [Char.isDigit, Bool.and_eq_true, decide_eq_true_eq] at hdigit
        exact ⟨hdigit.1, hdigit.2⟩
      rw [Char.toLower, dif_neg]
      intro hupper
      have hlow : 65 ≤ c.toNat := hupper.1
      omega
    · exact u.decimal_case c d hd
  have heq : a = c := by
    have htest : u.keyOf true a = u.keyOf true c := of_decide_eq_true h
    rw [← ha, htest, hkey]
  rw [← heq, Unicode.isDecimal, Unicode.decimalOf, if_pos hascii, hdecimal] at hc
  exact absurd hc Bool.false_ne_true

def word (text : String) : Re := sequence (text.toList.map fun c => .one (.literal c))

theorem ordinalSuffixRe_eq : ordinalSuffixRe = ⟨{ ignoreCase := true },
    .cat (.group (some "1") (.cat (.rep 1 none true (.one .digit)) .empty))
      (.cat (.group none (.cat (.group none (.alt (word "st") (.alt (word "nd") (.alt (word "rd") (word "th"))))) .empty))
        (.cat (.check .wordEdge) .empty))⟩ := rfl

theorem sub_ordinalSuffix (h : ∀ c ∈ text, u.isDecimal c = true) : ordinalSuffixRe.sub u.toCharTables [] text = text := by
  rw [ordinalSuffixRe_eq]
  apply Regex.sub_of_takes (P := fun c => ¬ u.isDecimal c = true)
  · apply Regex.Takes.right
    apply Regex.Takes.left
    apply Regex.Takes.group
    apply Regex.Takes.left
    apply Regex.Takes.group
    have hword : ∀ a rest, isAscii a = true → a.toLower = a → a.isDigit = false →
        Regex.Takes (CharTest.test u.toCharTables { ignoreCase := true })
          (fun (t : Assertion) before rest => t.holds u.toCharTables { ignoreCase := true } before rest)
          (fun c => ¬ u.isDecimal c = true)
          (.cat (.one (.literal a)) rest) := by
      intro a rest hascii hlower hdecimal
      apply Regex.Takes.left
      exact Regex.takes_one fun c hc => not_decimal_of_literal hascii hlower hdecimal hc
    exact (hword 's' _ rfl rfl rfl).alt ((hword 'n' _ rfl rfl rfl).alt ((hword 'r' _ rfl rfl rfl).alt (hword 't' _ rfl rfl rfl)))
  · exact fun c hc hnot => hnot (h c hc)

def isFewDigits : Re → Bool
  | .cat (.rep least (some most) _ (.one .digit)) .empty => 1 ≤ least && least ≤ most && most ≤ 4
  | _ => false

def digitGroups (fmt : DateFormat) : Bool :=
  fmt.pattern.regex.captures.all fun (name, body) => (name ≠ "year" && name ≠ "day") || isFewDigits body

theorem formats_digitGroups : ∀ fmt ∈ allSecDateFormatsOrdered, digitGroups fmt = true := by decide +kernel

theorem isFewDigits_spec {body : Re} {flags : Flags} {p q : Spot Char} (h : isFewDigits body = true)
    (hq : q ∈ body.ends (fun a c => a.test u.toCharTables flags c) (fun t before rest => t.holds u.toCharTables flags before rest) p) :
    p.upTo q ≠ [] ∧ (p.upTo q).length ≤ 4 ∧ ∀ c ∈ p.upTo q, u.isDecimal c = true := by
  unfold isFewDigits at h
  split at h
  · rename_i least most greedy
    rw [Bool.and_eq_true, Bool.and_eq_true, decide_eq_true_eq, decide_eq_true_eq, decide_eq_true_eq] at h
    have hdigits : ∀ c ∈ p.upTo q, u.isDecimal c = true := by
      apply Regex.forall_taken (fun c => u.isDecimal c = true) _ hq
      intro a ha c hc
      rw [List.mem_singleton.mp ha] at hc
      exact hc
    obtain ⟨p', hp', hq⟩ := List.mem_flatMap.mp hq
    rw [List.mem_singleton.mp hq] at hdigits ⊢
    obtain ⟨hleast, hmost⟩ := Regex.rep_length h.1.2 hp'
    exact ⟨List.ne_nil_of_length_pos (by omega), by omega, hdigits⟩
  · exact absurd h Bool.false_ne_true

theorem group_digits {fmt : DateFormat} {normalized : Chars} {p q : Spot Char} {name : String} (hfmt : digitGroups fmt = true)
    (hsearch : fmt.pattern.search u.toCharTables normalized = some (p, q)) (hname : name = "year" ∨ name = "day")
    (htext : (q.groups.lookup name).getD [] ≠ []) :
    ((q.groups.lookup name).getD []).length ≤ 4 ∧ ∀ c ∈ (q.groups.lookup name).getD [], u.isDecimal c = true := by
  obtain ⟨-, hgroups, hmem⟩ := Regex.search_spec hsearch
  cases hlookup : q.groups.lookup name with
  | none =>
    rw [hlookup] at htext
    exact absurd rfl htext
  | some text =>
    have hin : (name, text) ∈ q.groups := by
      obtain ⟨l, l', heq, -⟩ := List.lookup_eq_some_iff.mp hlookup
      rw [heq]
      exact List.mem_append_right _ List.mem_cons_self
    rcases Regex.groups_spec hmem (name, text) hin with hold | ⟨name', body, p', q', hcapture, hends, heq⟩
    · rw [hgroups] at hold
      exact absurd hold List.not_mem_nil
    · injection heq with hname' htext'
      have hbody : isFewDigits body = true := by
        have hall := List.all_eq_true.mp hfmt (name', body) hcapture
        rw [← hname'] at hall
        rcases hname with rfl | rfl
        · exact hall
        · exact hall
      obtain ⟨-, hlength, hdigits⟩ := isFewDigits_spec hbody hends
      show text.length ≤ 4 ∧ ∀ c ∈ text, u.isDecimal c = true
      rw [htext']
      exact ⟨hlength, hdigits⟩

theorem read_ok {fmt : DateFormat} {normalized : Chars} {p q : Spot Char} (hfmt : digitGroups fmt = true)
    (hsearch : fmt.pattern.search u.toCharTables normalized = some (p, q)) (source : Chars) :
    ∃ found, fmt.read u clock referenceYear source q.groups = .ok found := by
  unfold DateFormat.read
  dsimp only
  split
  · exact ⟨none, rfl⟩
  · rename_i hne
    rw [not_or] at hne
    have hyear : ∃ year, yearOf u clock referenceYear ((q.groups.lookup "year").getD []) = .ok year := by
      obtain ⟨hlength, hdigits⟩ := group_digits hfmt hsearch (Or.inl rfl) hne.1
      obtain ⟨digits, hint⟩ := int_of_decimals hne.1 hdigits (by omega)
      rw [yearOf, hint]
      exact ⟨_, rfl⟩
    obtain ⟨year, hyear⟩ := hyear
    rw [hyear]
    dsimp only
    split
    · exact ⟨none, rfl⟩
    · split
      · exact ⟨none, rfl⟩
      · have hday : ∃ day, dayOf u ((q.groups.lookup "day").getD []) = .ok day := by
          unfold dayOf
          split
          · exact ⟨1, rfl⟩
          · rename_i hday
            obtain ⟨hlength, hdigits⟩ := group_digits hfmt hsearch (Or.inr rfl) hday
            rw [sub_ordinalSuffix hdigits]
            exact int_of_decimals hday hdigits (by omega)
        obtain ⟨day, hday⟩ := hday
        rw [hday]
        dsimp only
        split
        · exact ⟨none, rfl⟩
        · split
          · exact ⟨_, rfl⟩
          · exact ⟨none, rfl⟩

theorem parseDateWithFormats_ok {normalized : Chars} {formats : List DateFormat} (h : ∀ fmt ∈ formats, digitGroups fmt = true) :
    ∃ found, parseDateWithFormats u clock referenceYear normalized formats = .ok found := by
  induction formats with
  | nil => exact ⟨none, rfl⟩
  | cons fmt ordered ih =>
    have hrest := ih fun f hf => h f (List.mem_cons_of_mem _ hf)
    rw [parseDateWithFormats]
    split
    · exact hrest
    · rename_i p q hsearch
      obtain ⟨found, hfound⟩ := read_ok (h fmt List.mem_cons_self) hsearch (p.upTo q)
      rw [hfound]
      cases found with
      | none => exact hrest
      | some parsed => exact ⟨some parsed, rfl⟩

theorem parseDate_ok (text : Chars) : ∃ found, parseDate u clock text = .ok found := by
  unfold parseDate
  dsimp only
  split
  · exact ⟨none, rfl⟩
  · exact parseDateWithFormats_ok formats_digitGroups

end Digits
end EdgarSec.Dates
