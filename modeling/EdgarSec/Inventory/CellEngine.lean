import EdgarSec.Dag.PlainEngine
import EdgarSec.Inventory.Outcomes

/-! A plain engine over texts and numbers, for runs that are to be computed: it keeps rows in
reading order and writes a table as groups of numbers, mostly one byte to a number. -/

namespace EdgarSec.Inventory
open Foundation Lib Dag

/-! ## Bytes -/

def writeNats (ns : List Nat) : Bytes :=
  ns.flatMap fun n => List.replicate (n / 255) 255 ++ [UInt8.ofNat (n % 255)]

def readNats : Nat → Bytes → List Nat
  | _, [] => []
  | n, b :: rest => if b = 255 then readNats (n + 255) rest else (n + b.toNat) :: readNats 0 rest

theorem readNats_replicate (m n : Nat) (rest : Bytes) :
    readNats m (List.replicate n 255 ++ rest) = readNats (m + n * 255) rest := by
  induction n generalizing m with
  | zero => simp
  | succ n ih =>
    rw [List.replicate_succ, List.cons_append, readNats, if_pos rfl, ih]
    congr 1
    omega

theorem readNats_last (m : Nat) {r : Nat} (hr : r < 255) (rest : Bytes) :
    readNats m (UInt8.ofNat r :: rest) = (m + r) :: readNats 0 rest := by
  have hvalue : (UInt8.ofNat r).toNat = r := by
    rw [UInt8.toNat_ofNat']
    omega
  have hne : UInt8.ofNat r ≠ 255 := by
    intro heq
    have hsame := congrArg UInt8.toNat heq
    rw [hvalue] at hsame
    simp at hsame
    omega
  rw [readNats, if_neg hne, hvalue]

theorem readNats_writeNats (ns : List Nat) : readNats 0 (writeNats ns) = ns := by
  induction ns with
  | nil => rfl
  | cons n ns ih =>
    have hsplit : writeNats (n :: ns) =
        List.replicate (n / 255) 255 ++ (UInt8.ofNat (n % 255) :: writeNats ns) := by
      simp [writeNats]
    have hlast := readNats_last (0 + n / 255 * 255) (Nat.mod_lt n (by decide)) (writeNats ns)
    rw [hsplit, readNats_replicate, hlast, ih, Nat.zero_add, Nat.div_add_mod']

/-! ## Tables -/

def textCodes (s : String) : List Nat := s.toList.map Char.toNat

def codesText (codes : List Nat) : String := String.ofList (codes.map Char.ofNat)

theorem codesText_textCodes (s : String) : codesText (textCodes s) = s := by
  simp [codesText, textCodes, List.map_map, Function.comp_def]

def cellCodes : Option Cell → List Nat
  | none => []
  | some (.text s) => 0 :: textCodes s
  | some (.int (.ofNat n)) => [1, n]
  | some (.int (.negSucc n)) => [2, n]

def codesCell : List Nat → Option Cell
  | [] => none
  | 0 :: codes => some (.text (codesText codes))
  | 1 :: codes => some (.int (.ofNat (codes.headD 0)))
  | _ :: codes => some (.int (.negSucc (codes.headD 0)))

theorem codesCell_cellCodes (c : Option Cell) : codesCell (cellCodes c) = c := by
  rcases c with _ | ⟨s | _ | _⟩
  · rfl
  · simp [codesCell, cellCodes, codesText_textCodes]
  · rfl
  · rfl

def rowCodes (row : Row Cell) : List Nat := writeGroups (row.map cellCodes)

def codesRow (codes : List Nat) : Row Cell := (readGroups [] codes).map codesCell

theorem codesRow_rowCodes (row : Row Cell) : codesRow (rowCodes row) = row := by
  simp [codesRow, rowCodes, readGroups_writeGroups, List.map_map, Function.comp_def,
    codesCell_cellCodes]

def cellGroups (p : Parquet Cell) : List (List Nat) :=
  [p.schema.names.length] :: p.schema.names.map textCodes ++ p.rows.map rowCodes

def groupsCells (groups : List (List Nat)) : Option (Parquet Cell) :=
  match groups with
  | [n] :: rest =>
    let names := (rest.take n).map codesText
    let rows : Table Cell := (rest.drop n).map codesRow
    if h : names.Nodup ∧ ∀ row ∈ rows, row.length = names.length then
      some ⟨⟨names, h.1⟩, rows, h.2⟩
    else none
  | _ => none

theorem groupsCells_cellGroups (p : Parquet Cell) : groupsCells (cellGroups p) = some p := by
  have hnames : (p.schema.names.map textCodes).map codesText = p.schema.names := by
    simp [List.map_map, Function.comp_def, codesText_textCodes]
  have hrows : (p.rows.map rowCodes).map codesRow = p.rows := by
    simp [List.map_map, Function.comp_def, codesRow_rowCodes]
  have hlength : (p.schema.names.map textCodes).length = p.schema.names.length := List.length_map _
  unfold groupsCells cellGroups
  simp only [List.cons_append, List.take_left' hlength, List.drop_left' hlength, hnames, hrows]
  rw [dif_pos ⟨p.schema.nodup, p.fits⟩]

def cellEngine : Engine Cell where
  toChoice := .first
  encode p := writeNats (writeGroups (cellGroups p))
  decode content := groupsCells (readGroups [] (readNats 0 content))
  decode_encode p := by
    rw [readNats_writeNats, readGroups_writeGroups, groupsCells_cellGroups]

end EdgarSec.Inventory
