import EdgarSec.Foundation.JsonText
import EdgarSec.Lib.Codes

/-! The texts of arrays, one after another: each ends where its bracket is closed, so that no
text between them is needed. -/

namespace EdgarSec.Foundation
open Lib InformationTheory

/-! ## Brackets -/

inductive Place where
  | outside
  | inside
  | escaped
  deriving DecidableEq

def opens (c : Char) : Bool := c == '[' || c == '\x7b'

def closes (c : Char) : Bool := c == ']' || c == '\x7d'

def isQuote (c : Char) : Bool := c == '"'

def advanceChar : Nat × Place → Char → Nat × Place
  | (n, .outside), c =>
    if isQuote c then (n, .inside)
    else if opens c then (n + 1, .outside)
    else if closes c then (n - 1, .outside)
    else (n, .outside)
  | (n, .inside), c =>
    if c = '\\' then (n, .escaped) else if isQuote c then (n, .outside) else (n, .inside)
  | (n, .escaped), _ => (n, .inside)

def behindClosing : Nat × Place → List Char → List Char
  | _, [] => []
  | at', c :: cs => if (advanceChar at' c).1 = 0 then cs else behindClosing (advanceChar at' c) cs

/-! ## Texts that leave the brackets as they are -/

-- both functions are run character by character
attribute [local simp] advanceChar behindClosing

def PassedOver (text : List Char) : Prop :=
  ∀ n rest, behindClosing (n + 1, .outside) (text ++ rest) = behindClosing (n + 1, .outside) rest

theorem passedOver_nil : PassedOver [] := fun _ _ => rfl

theorem PassedOver.append {text text' : List Char} (h : PassedOver text) (h' : PassedOver text') :
    PassedOver (text ++ text') := by
  intro n rest
  rw [List.append_assoc, h, h']

def isPlain (c : Char) : Bool := !isQuote c && !opens c && !closes c

theorem passedOver_plain {text : List Char} (h : text.all isPlain = true) : PassedOver text := by
  induction text with
  | nil => exact passedOver_nil
  | cons c text ih =>
    rw [List.all_cons, Bool.and_eq_true] at h
    obtain ⟨hplain, htext⟩ := h
    simp only [isPlain, Bool.and_eq_true, Bool.not_eq_true'] at hplain
    intro n rest
    have hadvance : advanceChar (n + 1, .outside) c = (n + 1, .outside) := by
      simp [advanceChar, hplain]
    rw [List.cons_append, behindClosing, hadvance, if_neg (Nat.succ_ne_zero n), ih htext]

theorem PassedOver.bracketed {text : List Char} (h : PassedOver text) {o c : Char}
    (ho : opens o = true) (hoq : isQuote o = false) (hc : closes c = true) (hcq : isQuote c = false)
    (hco : opens c = false) : PassedOver (o :: text ++ [c]) := by
  intro n rest
  have hopened : advanceChar (n + 1, .outside) o = (n + 1 + 1, .outside) := by
    simp [advanceChar, ho, hoq]
  have hclosed : advanceChar (n + 1 + 1, .outside) c = (n + 1, .outside) := by
    simp [advanceChar, hc, hcq, hco]
  rw [List.cons_append, List.cons_append, behindClosing, hopened, if_neg (Nat.succ_ne_zero _),
    List.append_assoc, h, List.singleton_append, behindClosing, hclosed, if_neg (Nat.succ_ne_zero n)]

/-! ## Strings -/

def PassedInside (text : List Char) : Prop :=
  ∀ n rest, behindClosing (n + 1, .inside) (text ++ rest) = behindClosing (n + 1, .inside) rest

theorem PassedInside.append {text text' : List Char} (h : PassedInside text)
    (h' : PassedInside text') : PassedInside (text ++ text') := by
  intro n rest
  rw [List.append_assoc, h, h']

theorem passedInside_char {c : Char} (hq : isQuote c = false) (hb : c ≠ '\\') : PassedInside [c] := by
  intro n rest
  have hadvance : advanceChar (n + 1, .inside) c = (n + 1, .inside) := by
    simp [advanceChar, hq, hb]
  rw [List.singleton_append, behindClosing, hadvance, if_neg (Nat.succ_ne_zero n)]

theorem passedInside_escape (c : Char) : PassedInside ['\\', c] := by
  intro n rest
  have hfirst : advanceChar (n + 1, .inside) '\\' = (n + 1, .escaped) := rfl
  have hsecond : advanceChar (n + 1, .escaped) c = (n + 1, .inside) := rfl
  rw [List.cons_append, List.cons_append, List.nil_append, behindClosing, hfirst,
    if_neg (Nat.succ_ne_zero n), behindClosing, hsecond, if_neg (Nat.succ_ne_zero n)]

theorem hexDigit_plain (n : Nat) : isQuote (hexDigit n) = false ∧ hexDigit n ≠ '\\' := by
  by_cases h : n < 16
  · have hall : ∀ n < 16, isQuote (hexDigit n) = false ∧ hexDigit n ≠ '\\' := by decide
    exact hall n h
  · have hzero : hexDigit n = '0' := by
      have hlength : ("0123456789abcdef".toList).length ≤ n := by simpa using h
      rw [hexDigit, List.getD_eq_default _ _ hlength]
    rw [hzero]
    decide

theorem passedInside_unicodeEscape (n : Nat) : PassedInside (unicodeEscape n).toList := by
  have hdigit : ∀ n, PassedInside [hexDigit n] := fun n =>
    passedInside_char (hexDigit_plain n).1 (hexDigit_plain n).2
  have htext : (unicodeEscape n).toList = ['\\', 'u'] ++ ([hexDigit (n / 4096 % 16)] ++
      ([hexDigit (n / 256 % 16)] ++ ([hexDigit (n / 16 % 16)] ++ [hexDigit (n % 16)]))) := by
    simp [unicodeEscape]
  rw [htext]
  exact (passedInside_escape 'u').append ((hdigit _).append ((hdigit _).append
    ((hdigit _).append (hdigit _))))

theorem passedInside_escapeChar (c : Char) : PassedInside (escapeChar c).toList := by
  unfold escapeChar
  split_ifs with hquote hslash
  · exact passedInside_escape '"'
  · exact passedInside_escape '\\'
  · exact passedInside_escape 'n'
  · exact passedInside_escape 'r'
  · exact passedInside_escape 't'
  · exact passedInside_escape 'b'
  · exact passedInside_escape 'f'
  · rw [String.toList_singleton]
    exact passedInside_char (by simpa [isQuote] using hquote) hslash
  · exact passedInside_unicodeEscape _
  · rw [String.toList_append]
    exact (passedInside_unicodeEscape _).append (passedInside_unicodeEscape _)

theorem passedOver_quote (s : String) : PassedOver (quote s).toList := by
  have hbody : ∀ cs : List Char,
      PassedInside (cs.foldr (fun c text => escapeChar c ++ text) "").toList := by
    intro cs
    induction cs with
    | nil => exact fun _ _ => rfl
    | cons c cs ih =>
      rw [List.foldr_cons, String.toList_append]
      exact (passedInside_escapeChar c).append ih
  intro n rest
  have hopened : advanceChar (n + 1, .outside) '"' = (n + 1, .inside) := rfl
  have hclosed : advanceChar (n + 1, .inside) '"' = (n + 1, .outside) := rfl
  have htext : (quote s).toList ++ rest = '"' ::
      ((s.toList.foldr (fun c text => escapeChar c ++ text) "").toList ++ '"' :: rest) := by
    simp [quote]
  rw [htext, behindClosing, hopened, if_neg (Nat.succ_ne_zero n), hbody, behindClosing, hclosed,
    if_neg (Nat.succ_ne_zero n)]

/-! ## Values -/

mutual

def Json.Printable : Json → Prop
  | .float repr => repr.toList.all isPlain = true
  | .arr items => PrintableItems items
  | .obj members => PrintableMembers members
  | _ => True

def PrintableItems : List Json → Prop
  | [] => True
  | j :: rest => j.Printable ∧ PrintableItems rest

def PrintableMembers : List (String × Json) → Prop
  | [] => True
  | (_, j) :: rest => j.Printable ∧ PrintableMembers rest

end

attribute [local simp] Json.Printable PrintableItems

theorem printableItems_iff {items : List Json} : PrintableItems items ↔ ∀ j ∈ items, j.Printable := by
  induction items with
  | nil => simp [PrintableItems]
  | cons j items ih => simp [PrintableItems, ih]

theorem printableMembers_iff {members : List (String × Json)} :
    PrintableMembers members ↔ ∀ m ∈ members, m.2.Printable := by
  induction members with
  | nil => simp [PrintableMembers]
  | cons m members ih => simp [PrintableMembers, ih]

theorem passedOver_int (n : Int) : PassedOver (toString n).toList := by
  have hdigits : ∀ n : Nat, (Nat.toDigits 10 n).all isPlain = true := by
    intro n
    refine List.all_eq_true.mpr fun c hc => ?_
    have hdigit := Nat.isDigit_of_mem_toDigits (by decide) (by decide) hc
    simp only [Char.isDigit, Bool.and_eq_true, decide_eq_true_eq] at hdigit
    simp only [isPlain, isQuote, opens, closes, Bool.and_eq_true, Bool.not_eq_true',
      Bool.or_eq_false_iff, beq_eq_false_iff_ne, ne_eq]
    refine ⟨⟨?_, ?_, ?_⟩, ?_, ?_⟩
    all_goals
      rintro rfl
      revert hdigit
      decide
  cases n with
  | ofNat m =>
    have htext : (toString (Int.ofNat m)).toList = Nat.toDigits 10 m := toList_toString_nat m
    rw [htext]
    exact passedOver_plain (hdigits m)
  | negSucc m =>
    have hdef : toString (Int.negSucc m) = "-" ++ toString (m + 1) := rfl
    rw [hdef, String.toList_append, toList_toString_nat]
    exact PassedOver.append (passedOver_plain rfl) (passedOver_plain (hdigits (m + 1)))

mutual

theorem passedOver_render : ∀ j : Json, j.Printable → PassedOver j.render.toList
  | .null, _ => passedOver_plain rfl
  | .bool true, _ => passedOver_plain rfl
  | .bool false, _ => passedOver_plain rfl
  | .int n, _ => passedOver_int n
  | .float _, h => passedOver_plain h
  | .str s, _ => passedOver_quote s
  | .arr items, h => by
    have htext : (Json.arr items).render.toList =
        '[' :: (joinWith "," (renderItems items)).toList ++ [']'] := by simp [Json.render]
    rw [htext]
    exact (passedOver_items items h).bracketed rfl rfl rfl rfl rfl
  | .obj members, h => by
    have htext : (Json.obj members).render.toList =
        '\x7b' :: (joinWith "," (renderMembers members)).toList ++ ['\x7d'] := by simp [Json.render]
    rw [htext]
    exact (passedOver_members members h).bracketed rfl rfl rfl rfl rfl

theorem passedOver_items : ∀ items : List Json, PrintableItems items →
    PassedOver (joinWith "," (renderItems items)).toList
  | [], _ => passedOver_nil
  | j :: items, h => by
    have hj := passedOver_render j h.1
    have hitems := passedOver_items items h.2
    rw [toList_join_items]
    split
    · rwa [List.append_nil]
    · exact hj.append (@PassedOver.append [','] _ (passedOver_plain rfl) hitems)

theorem passedOver_members : ∀ members : List (String × Json), PrintableMembers members →
    PassedOver (joinWith "," (renderMembers members)).toList
  | [], _ => passedOver_nil
  | (key, j) :: members, h => by
    have hkey := passedOver_quote key
    have hj := passedOver_render j h.1
    have hmembers := passedOver_members members h.2
    rw [toList_join_members]
    have hfirst : PassedOver ((quote key).toList ++ ':' :: j.render.toList) :=
      hkey.append (@PassedOver.append [':'] _ (passedOver_plain rfl) hj)
    split
    · rwa [List.append_nil]
    · exact hfirst.append (@PassedOver.append [','] _ (passedOver_plain rfl) hmembers)

end

mutual

theorem Json.Printable.sortKeys : ∀ {j : Json}, j.Printable → j.sortKeys.Printable
  | .null, h => h
  | .bool _, h => h
  | .int _, h => h
  | .float _, h => h
  | .str _, h => h
  | .arr _, h => printableItems_sortItems h
  | .obj members, h => by
    have hperm := List.perm_insertionSort keyLe (sortMembers members)
    rw [Json.sortKeys, Json.Printable, printableMembers_iff]
    intro m hm
    exact printableMembers_iff.mp (printableMembers_sortMembers h) m (hperm.mem_iff.mp hm)

theorem printableItems_sortItems :
    ∀ {items : List Json}, PrintableItems items → PrintableItems (sortItems items)
  | [], h => h
  | _ :: _, h => ⟨Json.Printable.sortKeys h.1, printableItems_sortItems h.2⟩

theorem printableMembers_sortMembers :
    ∀ {members : List (String × Json)}, PrintableMembers members → PrintableMembers (sortMembers members)
  | [], h => h
  | _ :: _, h => ⟨Json.Printable.sortKeys h.1, printableMembers_sortMembers h.2⟩

end

/-! ## Arrays one after another -/

def arrayTexts : Set (List Char) :=
  { text | ∃ items, PrintableItems items ∧ text = (canonicalJson (.arr items)).toList }

theorem behindClosing_array {items : List Json} (h : PrintableItems items) (rest : List Char) :
    behindClosing (0, .outside) ((canonicalJson (.arr items)).toList ++ rest) = rest := by
  have hitems := passedOver_items _ (printableItems_sortItems h)
  have htext : (canonicalJson (.arr items)).toList ++ rest =
      '[' :: ((joinWith "," (renderItems (sortItems items))).toList ++ ']' :: rest) := by
    simp [canonicalJson, Json.sortKeys, Json.render]
  have hopened : advanceChar (0, .outside) '[' = (1, .outside) := rfl
  have hclosed : advanceChar (1, .outside) ']' = (0, .outside) := rfl
  rw [htext, behindClosing, hopened, if_neg Nat.one_ne_zero, hitems 0, behindClosing, hclosed, if_pos rfl]

theorem uniquelyDecodable_arrayTexts : UniquelyDecodable arrayTexts := by
  refine @uniquelyDecodable_of_cut _ _ (behindClosing (0, .outside)) ?_ ?_
  · rintro ⟨items, _, hempty⟩
    simp [canonicalJson, Json.sortKeys, Json.render] at hempty
  · rintro _ ⟨items, hitems, rfl⟩ rest
    exact behindClosing_array hitems rest

end EdgarSec.Foundation
