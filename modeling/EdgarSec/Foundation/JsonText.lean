import EdgarSec.Foundation.Text

/-! `json.loads`: a value is read back from the text it was written as. -/

namespace EdgarSec.Foundation

def isSpace (c : Char) : Bool := c == ' ' || c == '\t' || c == '\n' || c == '\r'

def skipSpace (cs : List Char) : List Char := cs.dropWhile isSpace

/-! ## Strings -/

def hexValue (c : Char) : Option Nat :=
  if 48 ≤ c.toNat ∧ c.toNat ≤ 57 then some (c.toNat - 48)
  else if 97 ≤ c.toNat ∧ c.toNat ≤ 102 then some (c.toNat - 87)
  else if 65 ≤ c.toNat ∧ c.toNat ≤ 70 then some (c.toNat - 55)
  else none

/-- `\uXXXX` -/
def codeUnit (a b c d : Char) : Option Nat := do
  let a ← hexValue a
  let b ← hexValue b
  let c ← hexValue c
  let d ← hexValue d
  return 4096 * a + 256 * b + 16 * c + d

def simpleEscape (c : Char) : Option Nat :=
  if c = '"' then some 34
  else if c = '\\' then some 92
  else if c = '/' then some 47
  else if c = 'b' then some 8
  else if c = 'f' then some 12
  else if c = 'n' then some 10
  else if c = 'r' then some 13
  else if c = 't' then some 9
  else none

def scanUnits : List Char → Option (List Nat × List Char)
  | [] => none
  | c :: rest =>
    if c = '"' then some ([], rest)
    else if c = '\\' then
      match rest with
      | 'u' :: a :: b :: c :: d :: tail => do
        let unit ← codeUnit a b c d
        let (units, rest) ← scanUnits tail
        return (unit :: units, rest)
      | e :: tail => do
        let unit ← simpleEscape e
        let (units, rest) ← scanUnits tail
        return (unit :: units, rest)
      | [] => none
    else if c.toNat < 32 then none
    else do
      let (units, rest) ← scanUnits rest
      return (c.toNat :: units, rest)

def joinUnits : List Nat → Option (List Char)
  | [] => some []
  | u :: rest =>
    if 55296 ≤ u ∧ u < 56320 then
      match rest with
      | v :: rest =>
        if 56320 ≤ v ∧ v < 57344 then
          (joinUnits rest).map (Char.ofNat (65536 + (u - 55296) * 1024 + (v - 56320)) :: ·)
        else none
      | [] => none
    else if 56320 ≤ u ∧ u < 57344 then none
    else (joinUnits rest).map (Char.ofNat u :: ·)

def parseString (cs : List Char) : Option (String × List Char) := do
  let (units, rest) ← scanUnits cs
  let text ← joinUnits units
  return (String.ofList text, rest)

/-! ## Numbers -/

def integerDigits (cs : List Char) : List Char :=
  match cs with
  | '0' :: _ => ['0']
  | _ => cs.takeWhile Char.isDigit

def fractionDigits (cs : List Char) : List Char :=
  match cs with
  | '.' :: rest => if (rest.takeWhile Char.isDigit).isEmpty then [] else '.' :: rest.takeWhile Char.isDigit
  | _ => []

def signDigits (cs : List Char) : List Char :=
  match cs with
  | '+' :: rest => '+' :: rest.takeWhile Char.isDigit
  | '-' :: rest => '-' :: rest.takeWhile Char.isDigit
  | _ => cs.takeWhile Char.isDigit

def exponentDigits (cs : List Char) : List Char :=
  match cs with
  | e :: rest =>
    if e = 'e' ∨ e = 'E' then
      if ((signDigits rest).any Char.isDigit) then e :: signDigits rest else []
    else []
  | [] => []

def parseUnsigned (cs : List Char) : Option ((Nat ⊕ List Char) × List Char) :=
  let digits := integerDigits cs
  if digits.isEmpty then none
  else
    let rest := cs.drop digits.length
    let fraction := fractionDigits rest
    let exponent := exponentDigits (rest.drop fraction.length)
    if fraction.isEmpty && exponent.isEmpty then some (.inl (Nat.ofDigitChars 10 digits 0), rest)
    else some (.inr (digits ++ fraction ++ exponent),
      (rest.drop fraction.length).drop exponent.length)

def parseNumber (cs : List Char) : Option (Json × List Char) :=
  match cs with
  | '-' :: rest =>
    match parseUnsigned rest with
    | some (.inl n, rest) => some (.int (-n), rest)
    | some (.inr text, rest) => some (.float (String.ofList ('-' :: text)), rest)
    | none => none
  | _ =>
    match parseUnsigned cs with
    | some (.inl n, rest) => some (.int n, rest)
    | some (.inr text, rest) => some (.float (String.ofList text), rest)
    | none => none

/-! ## Values -/

/-- `d[key] = value` -/
def setMember (members : List (String × Json)) (m : String × Json) : List (String × Json) :=
  if members.any (fun e => e.1 == m.1) then members.map fun e => if e.1 = m.1 then m else e
  else members ++ [m]

/-- `dict(pairs)` -/
def dictOf (pairs : List (String × Json)) : List (String × Json) := pairs.foldl setMember []

def parseConstant : List Char → Option (Json × List Char)
  | 'n' :: 'u' :: 'l' :: 'l' :: rest => some (.null, rest)
  | 't' :: 'r' :: 'u' :: 'e' :: rest => some (.bool true, rest)
  | 'f' :: 'a' :: 'l' :: 's' :: 'e' :: rest => some (.bool false, rest)
  | 'N' :: 'a' :: 'N' :: rest => some (.float "NaN", rest)
  | 'I' :: 'n' :: 'f' :: 'i' :: 'n' :: 'i' :: 't' :: 'y' :: rest => some (.float "Infinity", rest)
  | '-' :: 'I' :: 'n' :: 'f' :: 'i' :: 'n' :: 'i' :: 't' :: 'y' :: rest =>
    some (.float "-Infinity", rest)
  | _ => none

mutual

def parseValue : Nat → List Char → Option (Json × List Char)
  | 0, _ => none
  | n + 1, cs =>
    match cs with
    | '"' :: rest => (parseString rest).map fun r => (.str r.1, r.2)
    | '\x7b' :: rest =>
      match skipSpace rest with
      | '\x7d' :: rest => some (.obj [], rest)
      | rest => (parseMembers n rest).map fun r => (.obj (dictOf r.1), r.2)
    | '[' :: rest =>
      match skipSpace rest with
      | ']' :: rest => some (.arr [], rest)
      | rest => (parseItems n rest).map fun r => (.arr r.1, r.2)
    | cs => (parseConstant cs).or (parseNumber cs)

def parseItems : Nat → List Char → Option (List Json × List Char)
  | 0, _ => none
  | n + 1, cs =>
    match parseValue n cs with
    | none => none
    | some (j, rest) =>
      match skipSpace rest with
      | ']' :: rest => some ([j], rest)
      | ',' :: rest => (parseItems n (skipSpace rest)).map fun r => (j :: r.1, r.2)
      | _ => none

def parseMembers : Nat → List Char → Option (List (String × Json) × List Char)
  | 0, _ => none
  | n + 1, cs =>
    match cs with
    | '"' :: rest =>
      match parseString rest with
      | none => none
      | some (key, rest) =>
        match skipSpace rest with
        | ':' :: rest =>
          match parseValue n (skipSpace rest) with
          | none => none
          | some (j, rest) =>
            match skipSpace rest with
            | '\x7d' :: rest => some ([(key, j)], rest)
            | ',' :: rest => (parseMembers n (skipSpace rest)).map fun r => ((key, j) :: r.1, r.2)
            | _ => none
        | _ => none
    | _ => none

end

def loads (text : String) : Option Json :=
  match parseValue (text.toList.length + 1) (skipSpace text.toList) with
  | some (j, rest) => if skipSpace rest = [] then some j else none
  | none => none

/-! ## Reading back a string -/

-- the readers are run on what was written
attribute [local simp] scanUnits parseValue

def charUnits (c : Char) : List Nat :=
  if c.toNat < 65536 then [c.toNat]
  else [55296 + (c.toNat - 65536) / 1024, 56320 + (c.toNat - 65536) % 1024]

theorem hexValue_hexDigit {n : Nat} (h : n < 16) : hexValue (hexDigit n) = some n := by
  have hall : ∀ n < 16, hexValue (hexDigit n) = some n := by decide
  exact hall n h

theorem scanUnits_unicodeEscape {n : Nat} (h : n < 65536) (rest : List Char) :
    scanUnits ((unicodeEscape n).toList ++ rest) =
      (scanUnits rest).map fun r => (n :: r.1, r.2) := by
  have h0 : codeUnit (hexDigit (n / 4096 % 16)) (hexDigit (n / 256 % 16)) (hexDigit (n / 16 % 16))
      (hexDigit (n % 16)) = some n := by
    have hsum : 4096 * (n / 4096 % 16) + 256 * (n / 256 % 16) + 16 * (n / 16 % 16) + n % 16 = n := by
      omega
    simp [codeUnit, hexValue_hexDigit (Nat.mod_lt _ _), hsum]
  simp only [unicodeEscape, String.toList_ofList, List.cons_append, List.nil_append]
  rw [scanUnits]
  simp only [Char.reduceEq, if_false, if_true, h0]
  cases scanUnits rest <;> rfl

theorem toNat_lt (c : Char) : c.toNat < 1114112 := by
  rcases c.valid with hlow | hhigh
  · have hsmall : c.toNat < 55296 := hlow
    omega
  · exact hhigh.2

theorem scanUnits_escapeChar (c : Char) (rest : List Char) :
    scanUnits ((escapeChar c).toList ++ rest) =
      (scanUnits rest).map fun r => (charUnits c ++ r.1, r.2) := by
  have hshort : ∀ e : Char, ∀ n : Nat, e ≠ 'u' → simpleEscape e = some n →
      scanUnits ('\\' :: e :: rest) = (scanUnits rest).map fun r => (n :: r.1, r.2) := by
    intro e n hu he
    rw [scanUnits]
    · simp only [Char.reduceEq, if_false, if_true, he]
      cases scanUnits rest <;> rfl
    · exact fun _ _ _ _ _ hc _ => hu hc
  unfold escapeChar
  split
  · rename_i h
    subst h
    exact hshort '"' 34 (by decide) (by decide)
  split
  · rename_i h
    subst h
    exact hshort '\\' 92 (by decide) (by decide)
  split
  · rename_i h
    subst h
    exact hshort 'n' 10 (by decide) (by decide)
  split
  · rename_i h
    subst h
    exact hshort 'r' 13 (by decide) (by decide)
  split
  · rename_i h
    subst h
    exact hshort 't' 9 (by decide) (by decide)
  split
  · rename_i h
    rw [charUnits, if_pos (by omega), h]
    exact hshort 'b' 8 (by decide) (by decide)
  split
  · rename_i h
    rw [charUnits, if_pos (by omega), h]
    exact hshort 'f' 12 (by decide) (by decide)
  split
  · rename_i hq hb _ _ _ _ _ h
    simp only [String.toList_singleton, List.cons_append, List.nil_append]
    rw [scanUnits.eq_def]
    simp only
    rw [if_neg hq, if_neg hb, if_neg (by omega), charUnits, if_pos (by omega)]
    cases scanUnits rest <;> rfl
  split
  · rename_i h
    rw [scanUnits_unicodeEscape h, charUnits, if_pos h]
    rfl
  · rename_i h
    have hmax := toNat_lt c
    have hhigh : 55296 + (c.toNat - 65536) / 1024 < 65536 := by omega
    have hlow : 56320 + (c.toNat - 65536) % 1024 < 65536 := by omega
    rw [String.toList_append, List.append_assoc, scanUnits_unicodeEscape hhigh,
      scanUnits_unicodeEscape hlow, charUnits, if_neg h]
    cases scanUnits rest <;> rfl

theorem joinUnits_charUnits (c : Char) (rest : List Nat) :
    joinUnits (charUnits c ++ rest) = (joinUnits rest).map (c :: ·) := by
  unfold charUnits
  split
  · have hvalid := c.valid
    have hnot : ¬(55296 ≤ c.toNat ∧ c.toNat < 57344) := by
      rcases hvalid with hlow | hhigh
      · have hsmall : c.toNat < 55296 := hlow
        omega
      · have hlarge : 57343 < c.toNat := hhigh.1
        omega
    simp only [List.cons_append, List.nil_append]
    rw [joinUnits.eq_def]
    simp only
    rw [if_neg (by omega), if_neg (by omega), Char.ofNat_toNat]
  · have hmax := toNat_lt c
    have hsum : 65536 + (55296 + (c.toNat - 65536) / 1024 - 55296) * 1024 +
        (56320 + (c.toNat - 65536) % 1024 - 56320) = c.toNat := by omega
    simp only [List.cons_append, List.nil_append]
    rw [joinUnits.eq_def]
    simp only
    rw [if_pos (by omega), if_pos (by omega), hsum, Char.ofNat_toNat]

theorem parseString_quote (s : String) (rest : List Char) :
    ∃ body, (quote s).toList ++ rest = '"' :: body ∧ parseString body = some (s, rest) := by
  have hbody : ∀ cs : List Char,
      ∃ units, scanUnits ((cs.foldr (fun c text => escapeChar c ++ text) "").toList ++ '"' :: rest) =
          some (units, rest) ∧ joinUnits units = some cs := by
    intro cs
    induction cs with
    | nil =>
      refine ⟨[], ?_, rfl⟩
      have hnil : "".toList ++ '"' :: rest = '"' :: rest := rfl
      rw [List.foldr_nil, hnil, scanUnits.eq_def]
      simp
    | cons c cs ih =>
      obtain ⟨units, hscan, hjoin⟩ := ih
      refine ⟨charUnits c ++ units, ?_, ?_⟩
      · rw [List.foldr_cons, String.toList_append, List.append_assoc, scanUnits_escapeChar, hscan]
        rfl
      · rw [joinUnits_charUnits, hjoin]
        rfl
  obtain ⟨units, hscan, hjoin⟩ := hbody s.toList
  refine ⟨(s.toList.foldr (fun c text => escapeChar c ++ text) "").toList ++ '"' :: rest, ?_, ?_⟩
  · simp only [quote, String.toList_append, List.append_assoc]
    rfl
  · simp [parseString, hscan, hjoin]

/-! ## Reading back a number -/

def Ends (rest : List Char) : Prop :=
  ∀ c ∈ rest.head?, c.isDigit = false ∧ c ≠ '.' ∧ c ≠ 'e' ∧ c ≠ 'E'

theorem Ends.takeWhile {rest : List Char} (h : Ends rest) : rest.takeWhile Char.isDigit = [] := by
  cases rest with
  | nil => rfl
  | cons c rest =>
    have hc : c.isDigit = false := (h c rfl).1
    simp [hc]

theorem takeWhile_digits {digits rest : List Char} (hd : ∀ c ∈ digits, c.isDigit = true)
    (h : Ends rest) : (digits ++ rest).takeWhile Char.isDigit = digits := by
  rw [List.takeWhile_append_of_pos hd, h.takeWhile, List.append_nil]

theorem Ends.fractionDigits {rest : List Char} (h : Ends rest) : fractionDigits rest = [] := by
  cases rest with
  | nil => rfl
  | cons c rest =>
    have hc : c ≠ '.' := (h c rfl).2.1
    unfold Foundation.fractionDigits
    split
    · rename_i heq
      exact absurd (List.cons.inj heq).1 hc
    · rfl

theorem Ends.exponentDigits {rest : List Char} (h : Ends rest) : exponentDigits rest = [] := by
  cases rest with
  | nil => rfl
  | cons c rest =>
    obtain ⟨_, _, he, hE⟩ := h c rfl
    simp [Foundation.exponentDigits, he, hE]

theorem toDigits_head {n : Nat} (h : 0 < n) : ∀ rest, Nat.toDigits 10 n ≠ '0' :: rest := by
  induction n using Nat.strongRecOn with
  | ind n ih =>
    intro rest heq
    rw [Nat.toDigits_eq_if (by decide)] at heq
    split at heq
    · rename_i hlt
      have hall : ∀ m < 10, 0 < m → m.digitChar ≠ '0' := by decide
      exact hall n hlt h (List.cons.inj heq).1
    · rename_i hge
      have hsmaller : n / 10 < n := Nat.div_lt_self h (by decide)
      have hpos : 0 < n / 10 := by omega
      cases hdigits : Nat.toDigits 10 (n / 10) with
      | nil => exact Nat.toDigits_ne_nil hdigits
      | cons c cs =>
        rw [hdigits, List.cons_append] at heq
        obtain ⟨rfl, _⟩ := List.cons.inj heq
        exact ih (n / 10) hsmaller hpos cs hdigits

theorem integerDigits_toDigits (n : Nat) {rest : List Char} (h : Ends rest) :
    integerDigits (Nat.toDigits 10 n ++ rest) = Nat.toDigits 10 n := by
  have hdigits : ∀ c ∈ Nat.toDigits 10 n, c.isDigit = true := fun c hc =>
    Nat.isDigit_of_mem_toDigits (by decide) (by decide) hc
  rcases Nat.eq_zero_or_pos n with rfl | hn
  · rw [Nat.toDigits_zero]
    rfl
  · unfold integerDigits
    split
    · rename_i tail heq
      exfalso
      cases hd : Nat.toDigits 10 n with
      | nil => exact Nat.toDigits_ne_nil hd
      | cons c cs =>
        rw [hd, List.cons_append] at heq
        obtain ⟨rfl, _⟩ := List.cons.inj heq
        exact toDigits_head hn cs hd
    · exact takeWhile_digits hdigits h

theorem parseUnsigned_toDigits (n : Nat) {rest : List Char} (h : Ends rest) :
    parseUnsigned (Nat.toDigits 10 n ++ rest) = some (.inl n, rest) := by
  have hne : (Nat.toDigits 10 n).isEmpty = false := by
    simp
  rw [parseUnsigned]
  simp only [integerDigits_toDigits n h, hne, List.drop_left, h.fractionDigits, List.length_nil,
    List.drop_zero, h.exponentDigits, Nat.ofDigitChars_ten_toDigits]
  rfl

theorem toList_toString_nat (n : Nat) : (toString n).toList = Nat.toDigits 10 n := Nat.toList_repr

theorem digit_of_toDigits (n : Nat) :
    ∃ c cs, Nat.toDigits 10 n = c :: cs ∧ c.isDigit = true := by
  cases h : Nat.toDigits 10 n with
  | nil => exact absurd h Nat.toDigits_ne_nil
  | cons c cs =>
    refine ⟨c, cs, rfl, Nat.isDigit_of_mem_toDigits (b := 10) (n := n) (by decide) (by decide) ?_⟩
    rw [h]
    exact List.mem_cons_self

theorem parseNumber_int (n : Int) {rest : List Char} (h : Ends rest) :
    parseNumber ((toString n).toList ++ rest) = some (.int n, rest) := by
  cases n with
  | ofNat n =>
    have htext : (toString (Int.ofNat n)).toList = Nat.toDigits 10 n := toList_toString_nat n
    obtain ⟨c, cs, hd, hc⟩ := digit_of_toDigits n
    have hparse := parseUnsigned_toDigits n h
    rw [htext, parseNumber]
    · rw [hparse]
      rfl
    · intro tail heq
      rw [hd, List.cons_append] at heq
      obtain ⟨rfl, _⟩ := List.cons.inj heq
      exact absurd hc (by decide)
  | negSucc n =>
    have htext : (toString (Int.negSucc n)).toList = '-' :: Nat.toDigits 10 (n + 1) := by
      have hdef : toString (Int.negSucc n) = "-" ++ toString (n + 1) := rfl
      rw [hdef, String.toList_append, toList_toString_nat]
      rfl
    rw [htext, List.cons_append, parseNumber, parseUnsigned_toDigits (n + 1) h]
    simp [Int.negSucc_eq]

/-! ## Reading back a value -/

mutual

def Json.Exact : Json → Prop
  | .null => True
  | .bool _ => True
  | .int _ => True
  | .float _ => False
  | .str _ => True
  | .arr items => ExactItems items
  | .obj members => (members.map Prod.fst).Nodup ∧ ExactMembers members

def ExactItems : List Json → Prop
  | [] => True
  | j :: rest => j.Exact ∧ ExactItems rest

def ExactMembers : List (String × Json) → Prop
  | [] => True
  | (_, j) :: rest => j.Exact ∧ ExactMembers rest

end

theorem exactMembers_iff {members : List (String × Json)} :
    ExactMembers members ↔ ∀ m ∈ members, m.2.Exact := by
  induction members with
  | nil => simp [ExactMembers]
  | cons m members ih => simp [ExactMembers, ih]

theorem dictOf_eq_self {pairs : List (String × Json)} (h : (pairs.map Prod.fst).Nodup) :
    dictOf pairs = pairs := by
  have hfold : ∀ (done rest : List (String × Json)), ((done ++ rest).map Prod.fst).Nodup →
      rest.foldl setMember done = done ++ rest := by
    intro done rest
    induction rest generalizing done with
    | nil => simp
    | cons m rest ih =>
      intro hn
      have hfresh : done.any (fun e => e.1 == m.1) = false := by
        rw [List.map_append, List.nodup_append] at hn
        rw [List.any_eq_false]
        intro e he heq
        exact hn.2.2 e.1 (List.mem_map_of_mem he) m.1 (by simp) (by simpa using heq)
      rw [List.foldl_cons, setMember, hfresh, if_neg (by simp), ih]
      · simp
      · simpa using hn
  exact hfold [] pairs h

mutual

def Json.depth : Json → Nat
  | .arr items => depthItems items + 1
  | .obj members => depthMembers members + 1
  | _ => 1

def depthItems : List Json → Nat
  | [] => 0
  | j :: rest => max j.depth (depthItems rest) + 1

def depthMembers : List (String × Json) → Nat
  | [] => 0
  | (_, j) :: rest => max j.depth (depthMembers rest) + 1

end

theorem skipSpace_cons {c : Char} {cs : List Char} (h : isSpace c = false) :
    skipSpace (c :: cs) = c :: cs := by
  rw [skipSpace, List.dropWhile_cons_of_neg (by simp [h])]

theorem not_isSpace_digit {c : Char} (h : c.isDigit = true) : isSpace c = false ∧ c ≠ ']' := by
  have hspace : ∀ d : Char, isSpace d = true → d.isDigit = false := by
    intro d hd
    simp only [isSpace, Bool.or_eq_true, beq_iff_eq] at hd
    rcases hd with ((rfl | rfl) | rfl) | rfl <;> decide
  constructor
  · rw [Bool.eq_false_iff]
    intro hc
    rw [hspace c hc] at h
    cases h
  · rintro rfl
    exact absurd h (by decide)

theorem head_render {j : Json} (h : j.Exact) :
    ∃ c cs, j.render.toList = c :: cs ∧ isSpace c = false ∧ c ≠ ']' := by
  cases j with
  | null => exact ⟨'n', _, rfl, by decide, by decide⟩
  | bool b =>
    cases b with
    | true => exact ⟨'t', _, rfl, by decide, by decide⟩
    | false => exact ⟨'f', _, rfl, by decide, by decide⟩
  | int n =>
    cases n with
    | ofNat n =>
      obtain ⟨c, cs, hd, hc⟩ := digit_of_toDigits n
      have htext : (toString (Int.ofNat n)).toList = Nat.toDigits 10 n := toList_toString_nat n
      exact ⟨c, cs, by rw [Json.render, htext, hd], not_isSpace_digit hc⟩
    | negSucc n =>
      have htext : (toString (Int.negSucc n)).toList = '-' :: (toString (n + 1)).toList := by
        have hdef : toString (Int.negSucc n) = "-" ++ toString (n + 1) := rfl
        rw [hdef, String.toList_append]
        rfl
      exact ⟨'-', _, by rw [Json.render, htext], by decide, by decide⟩
  | float r => exact absurd h (by simp [Json.Exact])
  | str s =>
    obtain ⟨body, hbody, _⟩ := parseString_quote s []
    exact ⟨'"', body, by simpa [Json.render] using hbody, by decide, by decide⟩
  | arr items =>
    refine ⟨'[', (joinWith "," (renderItems items)).toList ++ [']'], ?_, by decide, by decide⟩
    simp only [Json.render, String.toList_append, List.append_assoc]
    rfl
  | obj members =>
    refine ⟨'\x7b', (joinWith "," (renderMembers members)).toList ++ ['\x7d'], ?_, by decide,
      by decide⟩
    simp only [Json.render, String.toList_append, List.append_assoc]
    rfl

theorem ends_nil : Ends [] := nofun

theorem ends_cons {c : Char} {cs : List Char}
    (h : c.isDigit = false ∧ c ≠ '.' ∧ c ≠ 'e' ∧ c ≠ 'E') : Ends (c :: cs) := by
  intro d hd
  obtain rfl : c = d := by simpa using hd
  exact h

theorem toList_join_items (j : Json) (items : List Json) :
    (joinWith "," (renderItems (j :: items))).toList =
      j.render.toList ++
        if items = [] then [] else ',' :: (joinWith "," (renderItems items)).toList := by
  cases items with
  | nil => simp [renderItems, joinWith]
  | cons k items => simp [renderItems, joinWith]

theorem toList_join_members (key : String) (j : Json) (members : List (String × Json)) :
    (joinWith "," (renderMembers ((key, j) :: members))).toList =
      (quote key).toList ++ ':' :: j.render.toList ++
        if members = [] then [] else ',' :: (joinWith "," (renderMembers members)).toList := by
  cases members with
  | nil => simp [renderMembers, joinWith]
  | cons m members =>
    obtain ⟨k, v⟩ := m
    simp [renderMembers, joinWith]

theorem head_items {j : Json} (items : List Json) (h : j.Exact) :
    ∃ c cs, (joinWith "," (renderItems (j :: items))).toList = c :: cs ∧ isSpace c = false ∧ c ≠ ']' := by
  obtain ⟨c, cs, hc, hspace, hclose⟩ := head_render h
  exact ⟨c, _, by rw [toList_join_items, hc, List.cons_append], hspace, hclose⟩

theorem head_members (m : String × Json) (members : List (String × Json)) :
    ∃ cs, (joinWith "," (renderMembers (m :: members))).toList = '"' :: cs := by
  obtain ⟨key, j⟩ := m
  obtain ⟨body, hbody, _⟩ := parseString_quote key []
  rw [List.append_nil] at hbody
  exact ⟨_, by rw [toList_join_members, hbody, List.cons_append, List.cons_append]⟩

theorem head_toString_int (i : Int) : ∃ c cs, (toString i).toList = c :: cs ∧
    (c.isDigit = true ∨ (c = '-' ∧ ∃ d ds, cs = d :: ds ∧ d.isDigit = true)) := by
  cases i with
  | ofNat m =>
    obtain ⟨c, cs, hd, hc⟩ := digit_of_toDigits m
    exact ⟨c, cs, (toList_toString_nat m).trans hd, Or.inl hc⟩
  | negSucc m =>
    obtain ⟨c, cs, hd, hc⟩ := digit_of_toDigits (m + 1)
    refine ⟨'-', c :: cs, ?_, Or.inr ⟨rfl, c, cs, rfl, hc⟩⟩
    have hdef : toString (Int.negSucc m) = "-" ++ toString (m + 1) := rfl
    rw [hdef, String.toList_append, toList_toString_nat, hd]
    rfl

theorem parseConstant_digit {c : Char} (cs : List Char) (h : c.isDigit = true) :
    parseConstant (c :: cs) = none := by
  have hne : ∀ e, e.isDigit = false → c ≠ e := fun e he heq => by rw [heq, he] at h; cases h
  unfold parseConstant
  split <;> first | rfl | exact absurd (List.cons.inj ‹_ = _›).1 (hne _ (by decide))

theorem parseConstant_minus {d : Char} (ds : List Char) (h : d.isDigit = true) :
    parseConstant ('-' :: d :: ds) = none := by
  have hne : d ≠ 'I' := fun heq => by rw [heq] at h; exact absurd h (by decide)
  unfold parseConstant
  split
  case h_6 heq => exact absurd (List.cons.inj (List.cons.inj heq).2).1 hne
  case h_7 => rfl
  all_goals exact absurd (List.cons.inj ‹_ = _›).1 (by decide)

theorem parseValue_int (n : Nat) (i : Int) {rest : List Char} (h : Ends rest) :
    parseValue (n + 1) ((toString i).toList ++ rest) = some (.int i, rest) := by
  obtain ⟨c, cs, hc, hdigit⟩ := head_toString_int i
  have hconstant : parseConstant ((toString i).toList ++ rest) = none := by
    rcases hdigit with hdigit | ⟨rfl, d, ds, rfl, hdigit⟩
    · rw [hc]
      exact parseConstant_digit _ hdigit
    · rw [hc]
      exact parseConstant_minus _ hdigit
  have hplain : c ≠ '"' ∧ c ≠ '\x7b' ∧ c ≠ '[' := by
    rcases hdigit with hdigit | ⟨rfl, _⟩
    · refine ⟨?_, ?_, ?_⟩ <;> rintro rfl <;> exact absurd hdigit (by decide)
    · decide
  have hnumber := parseNumber_int i h
  rw [hc, List.cons_append] at hconstant hnumber ⊢
  rw [parseValue, hconstant, hnumber]
  · rfl
  · exact fun tail heq => hplain.1 (List.cons.inj heq).1
  · exact fun tail heq => hplain.2.1 (List.cons.inj heq).1
  · exact fun tail heq => hplain.2.2 (List.cons.inj heq).1

theorem parseValue_constant (n : Nat) {c : Char} {cs : List Char} {j : Json} {rest : List Char}
    (hc : c ≠ '"' ∧ c ≠ '\x7b' ∧ c ≠ '[')
    (h : parseConstant (c :: cs) = some (j, rest)) : parseValue (n + 1) (c :: cs) = some (j, rest) := by
  rw [parseValue, h]
  · rfl
  · exact fun tail heq => hc.1 (List.cons.inj heq).1
  · exact fun tail heq => hc.2.1 (List.cons.inj heq).1
  · exact fun tail heq => hc.2.2 (List.cons.inj heq).1

theorem parseValue_string (n : Nat) (s : String) (rest : List Char) :
    parseValue (n + 1) ((quote s).toList ++ rest) = some (.str s, rest) := by
  obtain ⟨body, hbody, hparse⟩ := parseString_quote s rest
  rw [hbody, parseValue, hparse]
  rfl

mutual

theorem parseValue_render : ∀ (j : Json) (n : Nat) (rest : List Char), j.Exact → j.depth ≤ n →
    Ends rest → parseValue n (j.render.toList ++ rest) = some (j, rest)
  | j, 0, _, _, hn, _ => by
    cases j <;> simp [Json.depth] at hn
  | .null, n + 1, rest, _, _, _ => parseValue_constant n (by decide) rfl
  | .bool true, n + 1, rest, _, _, _ => parseValue_constant n (by decide) rfl
  | .bool false, n + 1, rest, _, _, _ => parseValue_constant n (by decide) rfl
  | .int i, n + 1, rest, _, _, hrest => by
    rw [Json.render]
    exact parseValue_int n i hrest
  | .float _, _ + 1, _, h, _, _ => absurd h (by simp [Json.Exact])
  | .str s, n + 1, rest, _, _, _ => by
    rw [Json.render]
    exact parseValue_string n s rest
  | .arr [], n + 1, rest, _, _, _ => by
    have htext : (Json.arr []).render.toList ++ rest = '[' :: ']' :: rest := by
      simp [Json.render, renderItems, joinWith]
    rw [htext, parseValue, skipSpace_cons (by decide)]
    rfl
  | .arr (j :: items), n + 1, rest, h, hn, _ => by
    rw [Json.Exact] at h
    rw [Json.depth] at hn
    have hitems := parseItems_render j items n rest h (by omega)
    obtain ⟨c, cs, hc, hspace, hclose⟩ := head_items items h.1
    have htext : (Json.arr (j :: items)).render.toList ++ rest =
        '[' :: ((joinWith "," (renderItems (j :: items))).toList ++ ']' :: rest) := by
      simp [Json.render]
    rw [htext, parseValue]
    rw [hc, List.cons_append] at hitems ⊢
    rw [skipSpace_cons hspace]
    split
    · rename_i heq
      exact absurd (List.cons.inj heq).1 hclose
    · rw [hitems]
      rfl
  | .obj [], n + 1, rest, _, _, _ => by
    have htext : (Json.obj []).render.toList ++ rest = '\x7b' :: '\x7d' :: rest := by
      simp [Json.render, renderMembers, joinWith]
    rw [htext, parseValue, skipSpace_cons (by decide)]
    rfl
  | .obj (m :: members), n + 1, rest, h, hn, _ => by
    rw [Json.Exact] at h
    rw [Json.depth] at hn
    have hmembers := parseMembers_render m members n rest h.2 (by omega)
    obtain ⟨cs, hc⟩ := head_members m members
    have htext : (Json.obj (m :: members)).render.toList ++ rest =
        '\x7b' :: ((joinWith "," (renderMembers (m :: members))).toList ++ '\x7d' :: rest) := by
      simp [Json.render]
    rw [htext, parseValue]
    rw [hc, List.cons_append] at hmembers ⊢
    rw [skipSpace_cons (by decide)]
    split
    · rename_i heq
      exact absurd (List.cons.inj heq).1 (by decide)
    · rw [hmembers, Option.map_some, dictOf_eq_self h.1]

theorem parseItems_render : ∀ (j : Json) (items : List Json) (n : Nat) (rest : List Char),
    ExactItems (j :: items) → depthItems (j :: items) ≤ n →
    parseItems n ((joinWith "," (renderItems (j :: items))).toList ++ ']' :: rest) =
      some (j :: items, rest)
  | _, _, 0, _, _, hn => by simp [depthItems] at hn
  | j, [], n + 1, rest, h, hn => by
    rw [depthItems] at hn
    have hj := parseValue_render j n (']' :: rest) h.1 (by omega) (ends_cons (by decide))
    rw [toList_join_items, if_pos rfl, List.append_nil, parseItems, hj]
    dsimp only
    rw [skipSpace_cons (by decide)]
    rfl
  | j, k :: items, n + 1, rest, h, hn => by
    rw [depthItems] at hn
    have hj := parseValue_render j n (',' :: ((joinWith "," (renderItems (k :: items))).toList ++
      ']' :: rest)) h.1 (by omega) (ends_cons (by decide))
    have hitems := parseItems_render k items n rest h.2 (by omega)
    obtain ⟨c, cs, hc, hspace, _⟩ := head_items items h.2.1
    rw [toList_join_items, if_neg (by simp), List.append_assoc, List.cons_append, parseItems, hj]
    dsimp only
    rw [skipSpace_cons (by decide)]
    show (parseItems n (skipSpace _)).map (fun r => (j :: r.1, r.2)) = _
    rw [hc, List.cons_append] at hitems ⊢
    rw [skipSpace_cons hspace, hitems]
    rfl

theorem parseMembers_render : ∀ (m : String × Json) (members : List (String × Json)) (n : Nat)
    (rest : List Char), ExactMembers (m :: members) → depthMembers (m :: members) ≤ n →
    parseMembers n ((joinWith "," (renderMembers (m :: members))).toList ++ '\x7d' :: rest) =
      some (m :: members, rest)
  | _, _, 0, _, _, hn => by simp [depthMembers] at hn
  | (key, j), [], n + 1, rest, h, hn => by
    rw [depthMembers] at hn
    have hj := parseValue_render j n ('\x7d' :: rest) h.1 (by omega) (ends_cons (by decide))
    obtain ⟨c, cs, hc, hspace, _⟩ := head_render h.1
    obtain ⟨body, hbody, hparse⟩ :=
      parseString_quote key (':' :: (j.render.toList ++ '\x7d' :: rest))
    rw [toList_join_members, if_pos rfl, List.append_nil, List.append_assoc, List.cons_append,
      hbody, parseMembers, hparse]
    dsimp only
    rw [skipSpace_cons (by decide)]
    show (match parseValue n (skipSpace _) with | none => none | some (j, rest) => _) = _
    rw [hc, List.cons_append] at hj ⊢
    rw [skipSpace_cons hspace, hj]
    dsimp only
    rw [skipSpace_cons (by decide)]
    rfl
  | (key, j), k :: members, n + 1, rest, h, hn => by
    rw [depthMembers] at hn
    have hj := parseValue_render j n (',' :: ((joinWith "," (renderMembers (k :: members))).toList ++
      '\x7d' :: rest)) h.1 (by omega) (ends_cons (by decide))
    have hmembers := parseMembers_render k members n rest h.2 (by omega)
    obtain ⟨c, cs, hc, hspace, _⟩ := head_render h.1
    obtain ⟨ds, hd⟩ := head_members k members
    obtain ⟨body, hbody, hparse⟩ := parseString_quote key (':' :: (j.render.toList ++
      ',' :: ((joinWith "," (renderMembers (k :: members))).toList ++ '\x7d' :: rest)))
    rw [toList_join_members, if_neg (by simp), List.append_assoc, List.append_assoc,
      List.cons_append, List.cons_append, hbody, parseMembers, hparse]
    dsimp only
    rw [skipSpace_cons (by decide)]
    show (match parseValue n (skipSpace _) with | none => none | some (j, rest) => _) = _
    rw [hc, List.cons_append] at hj ⊢
    rw [skipSpace_cons hspace, hj]
    dsimp only
    rw [skipSpace_cons (by decide)]
    show (parseMembers n (skipSpace _)).map (fun r => ((key, j) :: r.1, r.2)) = _
    rw [hd, List.cons_append] at hmembers ⊢
    rw [skipSpace_cons (by decide), hmembers]
    rfl

end

/-! ## The depth is bounded by the text -/

mutual

theorem depth_le_length : ∀ j : Json, j.Exact → j.depth ≤ j.render.toList.length
  | .null, _ => by decide
  | .bool true, _ => by decide
  | .bool false, _ => by decide
  | .int i, _ => by
    obtain ⟨c, cs, hc, _⟩ := head_toString_int i
    rw [Json.depth, Json.render, hc, List.length_cons]
    · omega
    all_goals simp
  | .float _, h => absurd h (by simp [Json.Exact])
  | .str s, _ => by simp [Json.depth, Json.render, quote]
  | .arr items, h => by
    have hitems := depthItems_le_length items h
    simp only [Json.depth, Json.render, String.toList_append, List.length_append]
    have hopen : "[".toList.length = 1 := rfl
    have hclose : "]".toList.length = 1 := rfl
    omega
  | .obj members, h => by
    have hmembers := depthMembers_le_length members h.2
    simp only [Json.depth, Json.render, String.toList_append, List.length_append]
    have hopen : "\x7b".toList.length = 1 := rfl
    have hclose : "\x7d".toList.length = 1 := rfl
    omega

theorem depthItems_le_length : ∀ items : List Json, ExactItems items →
    depthItems items ≤ (joinWith "," (renderItems items)).toList.length + 1
  | [], _ => by simp [depthItems]
  | [j], h => by
    have hj := depth_le_length j h.1
    rw [toList_join_items, if_pos rfl, List.append_nil, depthItems, depthItems]
    omega
  | j :: k :: items, h => by
    have hj := depth_le_length j h.1
    have hitems := depthItems_le_length (k :: items) h.2
    rw [toList_join_items, if_neg (by simp), List.length_append, List.length_cons, depthItems]
    omega

theorem depthMembers_le_length : ∀ members : List (String × Json), ExactMembers members →
    depthMembers members ≤ (joinWith "," (renderMembers members)).toList.length + 1
  | [], _ => by simp [depthMembers]
  | [(key, j)], h => by
    have hj := depth_le_length j h.1
    rw [toList_join_members, if_pos rfl, List.append_nil, List.length_append, List.length_cons,
      depthMembers, depthMembers]
    omega
  | (key, j) :: k :: members, h => by
    have hj := depth_le_length j h.1
    have hmembers := depthMembers_le_length (k :: members) h.2
    rw [toList_join_members, if_neg (by simp), List.length_append, List.length_append,
      List.length_cons, List.length_cons, depthMembers]
    omega

end

theorem loads_render {j : Json} (h : j.Exact) : loads j.render = some j := by
  have hdepth := depth_le_length j h
  have hparse := parseValue_render j (j.render.toList.length + 1) [] h (by omega) ends_nil
  obtain ⟨c, cs, hc, hspace, _⟩ := head_render h
  rw [List.append_nil] at hparse
  rw [hc] at hparse
  rw [loads, hc, skipSpace_cons hspace, hparse]
  rfl

/-! ## Bytes -/

/-- `raw.decode("utf-8")` -/
def decodeUtf8 (raw : Bytes) : Option String := String.fromUTF8? ⟨raw.toArray⟩

theorem byteArray_loop (b : ByteArray) (n i : Nat) (done : List UInt8) (h : b.size - i = n) :
    ByteArray.toList.loop b i done = done.reverse ++ b.data.toList.drop i := by
  have hsize : b.data.toList.length = b.size := rfl
  induction n generalizing i done with
  | zero =>
    rw [ByteArray.toList.loop, if_neg (by omega), List.drop_eq_nil_of_le (by omega)]
    simp
  | succ n ih =>
    have hi : i < b.data.toList.length := by omega
    have hget : b.get! i = b.data.toList[i] := by
      have hi' : i < b.data.size := hi
      show b.data[i]! = _
      rw [getElem!_pos b.data i hi']
      rfl
    rw [ByteArray.toList.loop, if_pos (by omega), ih _ _ (by omega), hget,
      List.drop_eq_getElem_cons hi]
    simp

theorem utf8_eq (s : String) : utf8 s = s.toUTF8.data.toList := by
  rw [utf8, ByteArray.toList, byteArray_loop s.toUTF8 _ 0 [] rfl]
  simp

theorem decodeUtf8_utf8 (s : String) : decodeUtf8 (utf8 s) = some s := by
  have hbytes : (⟨(utf8 s).toArray⟩ : ByteArray) = s.toByteArray := by
    rw [utf8_eq, Array.toArray_toList]
    rfl
  rw [decodeUtf8, hbytes, String.fromUTF8?, dif_pos s.isValidUTF8]
  rfl

theorem length_le_utf8Encode (cs : List Char) : cs.length ≤ cs.utf8Encode.size := by
  induction cs with
  | nil => exact Nat.zero_le _
  | cons c cs ih =>
    have hsize : (List.utf8Encode [c]).size = c.utf8Size := by simp [List.utf8Encode_singleton]
    have hpos := c.utf8Size_pos
    rw [← List.singleton_append, List.utf8Encode_append, ByteArray.size_append, hsize,
      List.length_append, List.length_singleton]
    omega

theorem length_le_utf8 (s : String) : s.length ≤ (utf8 s).length := by
  have hbytes := length_le_utf8Encode s.toList
  rw [String.utf8Encode_toList, String.length_toList] at hbytes
  rw [utf8_eq]
  exact hbytes

theorem length_escapeChar_pos (c : Char) : 0 < (escapeChar c).length := by
  unfold escapeChar
  split_ifs <;> first | exact Nat.succ_pos _ | simp [unicodeEscape]

theorem length_le_quote (s : String) : s.length ≤ (quote s).length := by
  have hbody : ∀ cs : List Char,
      cs.length ≤ (cs.foldr (fun c text => escapeChar c ++ text) "").length := by
    intro cs
    induction cs with
    | nil => exact Nat.zero_le _
    | cons c cs ih =>
      have hpos := length_escapeChar_pos c
      rw [List.foldr_cons, String.length_append, List.length_cons]
      omega
  have hlen := hbody s.toList
  rw [String.length_toList] at hlen
  rw [quote, String.length_append, String.length_append]
  omega

theorem exactItems_iff {items : List Json} : ExactItems items ↔ ∀ j ∈ items, j.Exact := by
  induction items with
  | nil => simp [ExactItems]
  | cons j items ih => simp [ExactItems, ih]

mutual

theorem Json.Exact.sortKeys : ∀ {j : Json}, j.Exact → j.sortKeys.Exact
  | .null, h => h
  | .bool _, h => h
  | .int _, h => h
  | .float _, h => h
  | .str _, h => h
  | .arr _, h => exactItems_sortItems h
  | .obj members, h => by
    have hperm := List.perm_insertionSort keyLe (sortMembers members)
    have hkeys : (sortMembers members).map Prod.fst = members.map Prod.fst := by
      rw [sortMembers_eq_map, List.map_map]
      rfl
    rw [Json.sortKeys, Json.Exact, (hperm.map Prod.fst).nodup_iff, hkeys, exactMembers_iff]
    refine ⟨h.1, fun m hm => ?_⟩
    exact exactMembers_iff.mp (exactMembers_sortMembers h.2) m (hperm.mem_iff.mp hm)

theorem exactItems_sortItems : ∀ {items : List Json}, ExactItems items → ExactItems (sortItems items)
  | [], h => h
  | _ :: _, h => ⟨Json.Exact.sortKeys h.1, exactItems_sortItems h.2⟩

theorem exactMembers_sortMembers :
    ∀ {members : List (String × Json)}, ExactMembers members → ExactMembers (sortMembers members)
  | [], h => h
  | _ :: _, h => ⟨Json.Exact.sortKeys h.1, exactMembers_sortMembers h.2⟩

end

theorem loads_canonicalJson {j : Json} (h : j.Exact) : loads (canonicalJson j) = some j.sortKeys :=
  loads_render h.sortKeys

end EdgarSec.Foundation
