import EdgarSec.Dag.Resolution

/-! A plain engine over natural numbers, for runs that are to be computed: it keeps rows in
reading order and writes a table as groups of numbers, each number in unary. -/

namespace EdgarSec.Dag
open Foundation Lib

/-! ## Groups of numbers -/

def writeGroups (groups : List (List Nat)) : List Nat := groups.flatMap fun g => g.map (· + 1) ++ [0]

def readGroups : List Nat → List Nat → List (List Nat)
  | _, [] => []
  | g, 0 :: rest => g :: readGroups [] rest
  | g, (n + 1) :: rest => readGroups (g ++ [n]) rest

theorem readGroups_append (g h rest : List Nat) :
    readGroups g (h.map (· + 1) ++ 0 :: rest) = (g ++ h) :: readGroups [] rest := by
  induction h generalizing g with
  | nil => simp [readGroups]
  | cons n h ih =>
    rw [List.map_cons, List.cons_append, readGroups, ih]
    simp

theorem readGroups_writeGroups (groups : List (List Nat)) :
    readGroups [] (writeGroups groups) = groups := by
  induction groups with
  | nil => rfl
  | cons g groups ih =>
    have hsplit : writeGroups (g :: groups) = g.map (· + 1) ++ 0 :: writeGroups groups := by
      simp [writeGroups]
    rw [hsplit, readGroups_append, ih, List.nil_append]

/-! ## Bytes -/

def writeUnary (ns : List Nat) : Bytes := ns.flatMap fun n => List.replicate n 1 ++ [0]

def readUnary : Nat → Bytes → List Nat
  | _, [] => []
  | n, b :: rest => if b = 0 then n :: readUnary 0 rest else readUnary (n + 1) rest

theorem readUnary_replicate (m n : Nat) (rest : Bytes) :
    readUnary m (List.replicate n 1 ++ 0 :: rest) = (m + n) :: readUnary 0 rest := by
  induction n generalizing m with
  | zero => simp [readUnary]
  | succ n ih =>
    rw [List.replicate_succ, List.cons_append, readUnary, if_neg (by decide), ih]
    rw [Nat.add_right_comm, Nat.add_assoc]

theorem readUnary_writeUnary (ns : List Nat) : readUnary 0 (writeUnary ns) = ns := by
  induction ns with
  | nil => rfl
  | cons n ns ih =>
    have hsplit : writeUnary (n :: ns) = List.replicate n 1 ++ 0 :: writeUnary ns := by
      simp [writeUnary]
    rw [hsplit, readUnary_replicate, ih, Nat.zero_add]

/-! ## Tables -/

def cellNumber : Option Nat → Nat
  | none => 0
  | some n => n + 1

def numberCell : Nat → Option Nat
  | 0 => none
  | n + 1 => some n

theorem numberCell_cellNumber (c : Option Nat) : numberCell (cellNumber c) = c := by
  cases c <;> rfl

def tableGroups (p : Parquet Nat) : List (List Nat) :=
  [p.schema.names.length] :: (p.schema.names.map fun name => name.toList.map Char.toNat) ++
    p.rows.map fun row => row.map cellNumber

def groupsTable (groups : List (List Nat)) : Option (Parquet Nat) :=
  match groups with
  | [n] :: rest =>
    let names := (rest.take n).map fun codes => String.ofList (codes.map Char.ofNat)
    let rows : Table Nat := (rest.drop n).map fun row => row.map numberCell
    if h : names.Nodup ∧ ∀ row ∈ rows, row.length = names.length then
      some ⟨⟨names, h.1⟩, rows, h.2⟩
    else none
  | _ => none

theorem groupsTable_tableGroups (p : Parquet Nat) : groupsTable (tableGroups p) = some p := by
  have hnames : (p.schema.names.map fun name => name.toList.map Char.toNat).map
      (fun codes => String.ofList (codes.map Char.ofNat)) = p.schema.names := by
    simp [List.map_map, Function.comp_def]
  have hrows : (p.rows.map fun row => row.map cellNumber).map (fun row => row.map numberCell) =
      p.rows := by
    simp [List.map_map, Function.comp_def, numberCell_cellNumber]
  have hlen : (p.schema.names.map fun name => name.toList.map Char.toNat).length =
      p.schema.names.length := List.length_map _
  unfold groupsTable tableGroups
  simp only [List.cons_append, List.take_left' hlen, List.drop_left' hlen, hnames, hrows]
  rw [dif_pos ⟨p.schema.nodup, p.fits⟩]

def plainEngine : Engine Nat where
  toChoice := .first
  encode p := writeUnary (writeGroups (tableGroups p))
  decode content := groupsTable (readGroups [] (readUnary 0 content))
  decode_encode p := by
    rw [readUnary_writeUnary, readGroups_writeGroups, groupsTable_tableGroups]

end EdgarSec.Dag
