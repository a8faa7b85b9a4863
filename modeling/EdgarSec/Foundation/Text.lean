import EdgarSec.Foundation.Json

/-! Digests of texts and files, and the quoting Python uses inside its messages. -/

namespace EdgarSec.Foundation

abbrev Bytes := List UInt8

def utf8 (s : String) : Bytes := s.toUTF8.toList

/-! `sha256` stands for the digest function of the standard library. -/

section Digests
variable (sha256 : Bytes → String)

def sha256Text (text : String) : String := sha256 (utf8 text)

def canonicalHash (data : Json) : String := sha256Text sha256 (canonicalJson data)

/-- Two different texts with one digest. -/
def Collides (a b : String) : Prop := a ≠ b ∧ sha256Text sha256 a = sha256Text sha256 b

theorem sha256Text_eq_iff {a b : String} :
    sha256Text sha256 a = sha256Text sha256 b ↔ a = b ∨ Collides sha256 a b := by
  by_cases h : a = b <;> simp [Collides, h]

end Digests

/-! ## `repr` -/

def reprChar (q c : Char) : String :=
  if c = '\\' then "\\\\"
  else if c = q then String.ofList ['\\', q]
  else if c = '\n' then "\\n"
  else if c = '\r' then "\\r"
  else if c = '\t' then "\\t"
  else if c.toNat < 32 ∨ c.toNat = 127 then
    String.ofList ['\\', 'x', hexDigit (c.toNat / 16), hexDigit (c.toNat % 16)]
  else String.singleton c

/-- `repr` of a string: single quotes, unless only double quotes avoid an escape. -/
def pyRepr (s : String) : String :=
  let q := if s.toList.contains '\'' && !s.toList.contains '"' then '"' else '\''
  String.singleton q ++ s.toList.foldr (fun c text => reprChar q c ++ text) "" ++ String.singleton q

def pyReprOption : Option String → String
  | none => "None"
  | some s => pyRepr s

/-- `repr` of a float from the text `json.dumps` writes for it. -/
def pyReprFloat (r : String) : String :=
  if r = "NaN" then "nan" else if r = "Infinity" then "inf" else if r = "-Infinity" then "-inf" else r

mutual

def Json.pyRepr : Json → String
  | .null => "None"
  | .bool true => "True"
  | .bool false => "False"
  | .int n => toString n
  | .float r => pyReprFloat r
  | .str s => Foundation.pyRepr s
  | .arr items => "[" ++ joinWith ", " (pyReprItems items) ++ "]"
  | .obj members => "\x7b" ++ joinWith ", " (pyReprMembers members) ++ "\x7d"

def pyReprItems : List Json → List String
  | [] => []
  | j :: rest => j.pyRepr :: pyReprItems rest

def pyReprMembers : List (String × Json) → List String
  | [] => []
  | (k, j) :: rest => (Foundation.pyRepr k ++ ": " ++ j.pyRepr) :: pyReprMembers rest

end

def Json.pyStr : Json → String
  | .str s => s
  | j => j.pyRepr

def Json.truthy : Json → Bool
  | .null => false
  | .bool b => b
  | .int n => n ≠ 0
  | .float r => r ≠ "0.0" ∧ r ≠ "-0.0"
  | .str s => s ≠ ""
  | .arr items => !items.isEmpty
  | .obj members => !members.isEmpty

def pyReprList (xs : List String) : String := "[" ++ joinWith ", " (xs.map pyRepr) ++ "]"

end EdgarSec.Foundation
