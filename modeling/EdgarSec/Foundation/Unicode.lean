import EdgarSec.Foundation.Strings
import EdgarSec.Foundation.Text

/-! Methods of Python's `str` that consult the Unicode database, and `int` of a text. -/

namespace EdgarSec.Foundation

abbrev Chars := List Char

def isAscii (c : Char) : Bool := c.toNat < 128

def stripChars (text : Chars) : Chars := (text.dropWhile isPySpace).rdropWhile isPySpace

instance : LawfulBEq Chars := inferInstanceAs (LawfulBEq (List Char))

structure Unicode where
  casefold : Char → Chars
  /-- The lower case of a character depends on the text before it and behind it. -/
  lower : Chars → Chars → Char → Chars
  upper : Char → Chars
  decimal : Char → Option Nat
  isDigit : Char → Bool
  nfkc : Chars → Chars
  decimal_space : ∀ c, isPySpace c → decimal c = none

theorem no_decimal_space (c : Char) (_ : isPySpace c) : (fun _ : Char => (none : Option Nat)) c = none := rfl

def asciiLetters : Unicode where
  casefold c := [c]
  lower _ _ c := [c]
  upper c := [c]
  decimal _ := none
  isDigit _ := false
  nfkc text := text
  decimal_space := no_decimal_space

namespace Unicode
variable (u : Unicode)

def casefoldChar (c : Char) : Chars := if isAscii c then [c.toLower] else u.casefold c

/-- `str.casefold` -/
def folded (text : Chars) : Chars := text.flatMap u.casefoldChar

def lowerFrom (before : Chars) : Chars → Chars
  | [] => []
  | c :: rest => (if isAscii c then [c.toLower] else u.lower before rest c) ++ lowerFrom (before ++ [c]) rest

/-- `str.lower` -/
def lowered (text : Chars) : Chars := u.lowerFrom [] text

/-- `str.upper` -/
def uppered (text : Chars) : Chars :=
  text.flatMap fun c => if isAscii c then [c.toUpper] else u.upper c

/-- The value of a character that `\d` matches. -/
def decimalOf (c : Char) : Option Nat :=
  if isAscii c then (if c.isDigit then some (c.toNat - 48) else none) else u.decimal c

def isDecimal (c : Char) : Bool := (u.decimalOf c).isSome

/-- `str.isdigit` -/
def allDigits (text : Chars) : Bool :=
  text ≠ [] && text.all fun c => if isAscii c then c.isDigit else u.isDigit c

def intDigits : Chars → Option (List Nat)
  | [] => none
  | [c] => (u.decimalOf c).map ([·])
  | c :: '_' :: rest => do
    let d ← u.decimalOf c
    let ds ← intDigits rest
    some (d :: ds)
  | c :: rest => do
    let d ← u.decimalOf c
    let ds ← intDigits rest
    some (d :: ds)

/-- `int` of a text in base ten, with the interpreter's limit on the number of digits. -/
def int (text : Chars) : Except String Int :=
  let body := stripChars text
  let digits := match body with
    | '-' :: rest => rest
    | '+' :: rest => rest
    | rest => rest
  match u.intDigits digits with
  | none => .error s!"invalid literal for int() with base 10: {pyRepr (String.ofList text)}"
  | some ds =>
    if 4300 < ds.length then
      .error s!"Exceeds the limit (4300 digits) for integer string conversion: value has {ds.length} digits; use sys.set_int_max_str_digits() to increase the limit"
    else
      let n : Int := ds.foldl (fun n d => 10 * n + d) 0
      .ok (if body.head? = some '-' then -n else n)

def fullmatch : List (Char → Bool) → Chars → Bool
  | [], text => text = []
  | _ :: _, [] => false
  | p :: ps, c :: text => p c && fullmatch ps text

/-! ## What ASCII characters leave in a text -/

section Ascii
variable {u : Unicode} {c : Char} {text : Chars}

theorem mem_folded (hc : isAscii c) (hlower : c.toLower = c) (h : c ∈ text) : c ∈ u.folded text := by
  have hfold : c ∈ u.casefoldChar c := by
    rw [casefoldChar, if_pos hc, hlower]
    exact List.mem_singleton_self c
  exact List.mem_flatMap.mpr ⟨c, h, hfold⟩

theorem mem_lowerFrom {before : Chars} (hc : isAscii c) (hlower : c.toLower = c) (h : c ∈ text) :
    c ∈ u.lowerFrom before text := by
  induction text generalizing before with
  | nil => exact absurd h List.not_mem_nil
  | cons d rest ih =>
    rw [lowerFrom]
    apply List.mem_append.mpr
    rcases List.mem_cons.mp h with rfl | hrest
    · left
      rw [if_pos hc, hlower]
      exact List.mem_singleton_self c
    · exact Or.inr (ih hrest)

theorem mem_lowered (hc : isAscii c) (hlower : c.toLower = c) (h : c ∈ text) : c ∈ u.lowered text :=
  mem_lowerFrom hc hlower h

theorem folded_ascii (h : text.all isAscii) : u.folded text = text.map Char.toLower := by
  induction text with
  | nil => rfl
  | cons c rest ih =>
    rw [List.all_cons, Bool.and_eq_true] at h
    rw [folded, List.flatMap_cons, casefoldChar, if_pos h.1, List.map_cons]
    exact congrArg (c.toLower :: ·) (ih h.2)

theorem isDecimal_not_space (h : u.isDecimal c) : isPySpace c = false := by
  by_contra hspace
  rw [Bool.not_eq_false] at hspace
  rw [isDecimal, decimalOf] at h
  split_ifs at h with hascii hdigit
  · -- a space of ASCII is no digit
    have hbounds : 48 ≤ c.toNat ∧ c.toNat ≤ 57 := by
      simp only [Char.isDigit, Bool.and_eq_true, decide_eq_true_eq] at hdigit
      exact ⟨hdigit.1, hdigit.2⟩
    simp only [isPySpace, Bool.or_eq_true, Bool.and_eq_true, decide_eq_true_eq] at hspace
    omega
  · exact absurd h Bool.false_ne_true
  · rw [u.decimal_space c hspace] at h
    exact absurd h Bool.false_ne_true

theorem stripChars_of_not_space (h : ∀ c ∈ text, isPySpace c = false) : stripChars text = text := by
  have hdrop : text.dropWhile isPySpace = text := by
    cases text with
    | nil => rfl
    | cons c rest => rw [List.dropWhile_cons_of_neg (by simp [h c List.mem_cons_self])]
  rw [stripChars, hdrop, List.rdropWhile_eq_self_iff]
  intro hne hlast
  rw [h _ (List.getLast_mem hne)] at hlast
  exact absurd hlast Bool.false_ne_true

end Ascii
end Unicode
end EdgarSec.Foundation
