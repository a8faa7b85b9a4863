import Mathlib

/-! JSON values and `canonical_json`: one input, one text, with the keys of every
object sorted by code point and compact separators. -/

namespace EdgarSec.Foundation

/-- A JSON value. A float is held by the `repr` Python prints for it, an object by its
members in insertion order. -/
inductive Json where
  | null
  | bool (b : Bool)
  | int (n : Int)
  | float (repr : String)
  | str (s : String)
  | arr (items : List Json)
  | obj (members : List (String × Json))

/-! ## Text -/

def hexDigit (n : Nat) : Char := ("0123456789abcdef".toList).getD n '0'

/-- `\uXXXX`, four lower-case hexadecimal digits. -/
def unicodeEscape (n : Nat) : String :=
  String.ofList ['\\', 'u', hexDigit (n / 4096 % 16), hexDigit (n / 256 % 16),
    hexDigit (n / 16 % 16), hexDigit (n % 16)]

def escapeChar (c : Char) : String :=
  if c = '"' then "\\\""
  else if c = '\\' then "\\\\"
  else if c = '\n' then "\\n"
  else if c = '\r' then "\\r"
  else if c = '\t' then "\\t"
  else if c.toNat = 8 then "\\b"
  else if c.toNat = 12 then "\\f"
  else if 32 ≤ c.toNat ∧ c.toNat < 127 then String.singleton c
  else if c.toNat < 65536 then unicodeEscape c.toNat
  -- beyond the basic plane `ensure_ascii` writes a surrogate pair
  else unicodeEscape (55296 + (c.toNat - 65536) / 1024) ++
    unicodeEscape (56320 + (c.toNat - 65536) % 1024)

def quote (s : String) : String :=
  "\"" ++ s.toList.foldr (fun c text => escapeChar c ++ text) "" ++ "\""

def joinWith (sep : String) : List String → String
  | [] => ""
  | [s] => s
  | s :: rest => s ++ sep ++ joinWith sep rest

mutual

def Json.render : Json → String
  | .null => "null"
  | .bool true => "true"
  | .bool false => "false"
  | .int n => toString n
  | .float r => r
  | .str s => quote s
  | .arr items => "[" ++ joinWith "," (renderItems items) ++ "]"
  | .obj members => "\x7b" ++ joinWith "," (renderMembers members) ++ "\x7d"

def renderItems : List Json → List String
  | [] => []
  | j :: rest => j.render :: renderItems rest

def renderMembers : List (String × Json) → List String
  | [] => []
  | (k, j) :: rest => (quote k ++ ":" ++ j.render) :: renderMembers rest

end

/-- The order `sort_keys` puts members in. -/
def keyLe {α : Type} (a b : String × α) : Prop := a.1 ≤ b.1

variable {α : Type}

instance : DecidableRel (keyLe (α := α)) := fun a b => inferInstanceAs (Decidable (a.1 ≤ b.1))
instance : Std.Total (keyLe (α := α)) := ⟨fun a b => le_total a.1 b.1⟩
instance : IsTrans (String × α) keyLe :=
  ⟨fun _ _ _ (hab : _ ≤ _) (hbc : _ ≤ _) => le_trans (α := String) hab hbc⟩

mutual

/-- Every object of the value with its members sorted by key. This is also what
`json.loads` gives back for `json.dumps(value, sort_keys=True)`. -/
def Json.sortKeys : Json → Json
  | .null => .null
  | .bool b => .bool b
  | .int n => .int n
  | .float r => .float r
  | .str s => .str s
  | .arr items => .arr (sortItems items)
  | .obj members => .obj ((sortMembers members).insertionSort keyLe)

def sortItems : List Json → List Json
  | [] => []
  | j :: rest => j.sortKeys :: sortItems rest

def sortMembers : List (String × Json) → List (String × Json)
  | [] => []
  | (k, j) :: rest => (k, j.sortKeys) :: sortMembers rest

end

def canonicalJson (j : Json) : String := j.sortKeys.render

/-! ## Sorting twice -/

theorem sortItems_eq_map (items : List Json) : sortItems items = items.map Json.sortKeys := by
  induction items with
  | nil => rfl
  | cons j rest ih => simp only [sortItems, List.map_cons, ih]

theorem sortMembers_eq_map (members : List (String × Json)) :
    sortMembers members = members.map (fun m => (m.1, m.2.sortKeys)) := by
  induction members with
  | nil => rfl
  | cons m rest ih => simp only [sortMembers, List.map_cons, ih]

theorem sortMembers_insertionSort (members : List (String × Json)) :
    sortMembers (members.insertionSort keyLe) = (sortMembers members).insertionSort keyLe := by
  simp only [sortMembers_eq_map]
  exact List.map_insertionSort keyLe keyLe _ members (fun _ _ _ _ => Iff.rfl)

mutual

theorem Json.sortKeys_sortKeys : ∀ j : Json, j.sortKeys.sortKeys = j.sortKeys
  | .null => rfl
  | .bool _ => rfl
  | .int _ => rfl
  | .float _ => rfl
  | .str _ => rfl
  | .arr items => by simp only [Json.sortKeys, sortItems_sortItems items]
  | .obj members => by
      simp only [Json.sortKeys, sortMembers_insertionSort, sortMembers_sortMembers members]
      rw [(List.pairwise_insertionSort keyLe (sortMembers members)).insertionSort_eq]

theorem sortItems_sortItems : ∀ items : List Json, sortItems (sortItems items) = sortItems items
  | [] => rfl
  | j :: rest => by simp only [sortItems, Json.sortKeys_sortKeys j, sortItems_sortItems rest]

theorem sortMembers_sortMembers :
    ∀ members : List (String × Json), sortMembers (sortMembers members) = sortMembers members
  | [] => rfl
  | (_, j) :: rest => by
      simp only [sortMembers, Json.sortKeys_sortKeys j, sortMembers_sortMembers rest]

end

/-! ## Length of the text

The length does not depend on the order of the members, so it is the length of the
canonical text too. -/

mutual

def Json.textLength : Json → Nat
  | .null => 4
  | .bool true => 4
  | .bool false => 5
  | .int n => (toString n).length
  | .float r => r.length
  | .str s => (quote s).length
  | .arr items => 2 + ((itemLengths items).sum + (itemLengths items).length - 1)
  | .obj members => 2 + ((memberLengths members).sum + (memberLengths members).length - 1)

def itemLengths : List Json → List Nat
  | [] => []
  | j :: rest => j.textLength :: itemLengths rest

def memberLengths : List (String × Json) → List Nat
  | [] => []
  | (k, j) :: rest => ((quote k).length + 1 + j.textLength) :: memberLengths rest

end

theorem length_joinWith (sep : String) (h : sep.length = 1) (texts : List String) :
    (joinWith sep texts).length = (texts.map String.length).sum + texts.length - 1 := by
  induction texts with
  | nil => rfl
  | cons s rest ih =>
    cases rest with
    | nil => simp [joinWith]
    | cons t rest =>
      simp only [joinWith, String.length_append, ih, h]
      simp only [List.map_cons, List.sum_cons, List.length_cons]
      omega

mutual

theorem Json.length_render : ∀ j : Json, j.render.length = j.textLength
  | .null => rfl
  | .bool true => rfl
  | .bool false => rfl
  | .int _ => rfl
  | .float _ => rfl
  | .str _ => rfl
  | .arr items => by
      have h := length_renderItems items
      have hn := congrArg List.length h
      simp only [List.length_map] at hn
      simp only [Json.render, String.length_append, length_joinWith "," rfl, h, hn, Json.textLength]
      show 1 + _ + 1 = _
      omega
  | .obj members => by
      have h := length_renderMembers members
      have hn := congrArg List.length h
      simp only [List.length_map] at hn
      simp only [Json.render, String.length_append, length_joinWith "," rfl, h, hn, Json.textLength]
      show 1 + _ + 1 = _
      omega

theorem length_renderItems :
    ∀ items : List Json, (renderItems items).map String.length = itemLengths items
  | [] => rfl
  | j :: rest => by
      simp only [renderItems, List.map_cons, itemLengths, Json.length_render j,
        length_renderItems rest]

theorem length_renderMembers : ∀ members : List (String × Json),
    (renderMembers members).map String.length = memberLengths members
  | [] => rfl
  | (k, j) :: rest => by
      simp only [renderMembers, List.map_cons, memberLengths, String.length_append,
        Json.length_render j, length_renderMembers rest]
      rfl

end

theorem memberLengths_eq_map (members : List (String × Json)) :
    memberLengths members = members.map (fun m => (quote m.1).length + 1 + m.2.textLength) := by
  induction members with
  | nil => rfl
  | cons m rest ih => simp only [memberLengths, List.map_cons, ih]

theorem Json.textLength_obj_perm {as bs : List (String × Json)} (h : as.Perm bs) :
    (Json.obj as).textLength = (Json.obj bs).textLength := by
  simp only [Json.textLength, memberLengths_eq_map, List.length_map, h.length_eq,
    (h.map (fun m => (quote m.1).length + 1 + m.2.textLength)).sum_eq]

mutual

theorem Json.textLength_sortKeys : ∀ j : Json, j.sortKeys.textLength = j.textLength
  | .null => rfl
  | .bool _ => rfl
  | .int _ => rfl
  | .float _ => rfl
  | .str _ => rfl
  | .arr items => by simp only [Json.sortKeys, Json.textLength, itemLengths_sortItems items]
  | .obj members => by
      rw [Json.sortKeys, Json.textLength_obj_perm (List.perm_insertionSort keyLe _)]
      simp only [Json.textLength, memberLengths_sortMembers members]

theorem itemLengths_sortItems :
    ∀ items : List Json, itemLengths (sortItems items) = itemLengths items
  | [] => rfl
  | j :: rest => by
      simp only [sortItems, itemLengths, Json.textLength_sortKeys j, itemLengths_sortItems rest]

theorem memberLengths_sortMembers :
    ∀ members : List (String × Json), memberLengths (sortMembers members) = memberLengths members
  | [] => rfl
  | (_, j) :: rest => by
      simp only [sortMembers, memberLengths, Json.textLength_sortKeys j,
        memberLengths_sortMembers rest]

end

theorem length_canonicalJson (j : Json) : (canonicalJson j).length = j.textLength := by
  rw [canonicalJson, Json.length_render, Json.textLength_sortKeys]

theorem Json.textLength_obj_filter_lt {members : List (String × Json)} {p : String × Json → Bool}
    {m : String × Json} (hm : m ∈ members) (hp : p m = false) :
    (Json.obj (members.filter p)).textLength < (Json.obj members).textLength := by
  simp only [Json.textLength, memberLengths_eq_map, List.length_map]
  have key : ((members.filter p).map fun m => (quote m.1).length + 1 + m.2.textLength).sum +
      (members.filter p).length < (members.map fun m => (quote m.1).length + 1 + m.2.textLength).sum +
        members.length ∧ 2 ≤ (members.map fun m => (quote m.1).length + 1 + m.2.textLength).sum +
        members.length := by
    induction members with
    | nil => simp at hm
    | cons a rest ih =>
      have hle : (rest.filter p).Sublist rest := List.filter_sublist
      have hlen := hle.length_le
      have hsum := (hle.map fun m => (quote m.1).length + 1 + m.2.textLength).sum_le_sum
        (fun _ _ => Nat.zero_le _)
      simp only [List.map_cons, List.sum_cons, List.length_cons]
      rcases List.mem_cons.mp hm with rfl | hm
      · simp only [List.filter_cons, hp, Bool.false_eq_true, if_false]
        omega
      · have h := ih hm
        by_cases ha : p a = true
        · simp only [List.filter_cons, ha, if_true, List.map_cons, List.sum_cons, List.length_cons]
          omega
        · simp only [List.filter_cons, ha, Bool.false_eq_true, if_false]
          omega
  omega

end EdgarSec.Foundation
