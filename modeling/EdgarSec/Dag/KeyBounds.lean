import EdgarSec.Dag.PlainEngine
import EdgarSec.Dag.RangeQuery

/-! When a query for one key keeps a part that holds it: the bounds of a part are compared as
texts, its values in the order of the column. -/

namespace EdgarSec.Dag
open Foundation Lib

variable {V : Type}

/-! ## Bounds as texts -/

theorem foldl_least_le_iff {t x : String} {ts : List String} :
    ts.foldl (fun a b => if b < a then b else a) t ≤ x ↔ t ≤ x ∨ ∃ s ∈ ts, s ≤ x := by
  induction ts generalizing t with
  | nil => simp
  | cons s ts ih =>
    have hleast : (if s < t then s else t) ≤ x ↔ t ≤ x ∨ s ≤ x := by
      split
      · rename_i hlt
        exact ⟨Or.inr, fun h => h.elim hlt.le.trans id⟩
      · rename_i hnlt
        exact ⟨Or.inl, fun h => h.elim id (not_lt.mp hnlt).trans⟩
    rw [List.foldl_cons, ih, hleast, or_assoc]
    simp

theorem le_foldl_greatest_iff {t x : String} {ts : List String} :
    x ≤ ts.foldl (fun a b => if a < b then b else a) t ↔ x ≤ t ∨ ∃ s ∈ ts, x ≤ s := by
  induction ts generalizing t with
  | nil => simp
  | cons s ts ih =>
    have hgreatest : x ≤ (if t < s then s else t) ↔ x ≤ t ∨ x ≤ s := by
      split
      · rename_i hlt
        exact ⟨Or.inr, fun h => h.elim (fun h => h.trans hlt.le) id⟩
      · rename_i hnlt
        exact ⟨Or.inl, fun h => h.elim id fun h => h.trans (not_lt.mp hnlt)⟩
    rw [List.foldl_cons, ih, hgreatest, or_assoc]
    simp

theorem bothBefore_minText {ts : List String} (hne : ts ≠ []) {x : String} :
    bothBefore (some x) (minText ts) = false ↔ ∃ s ∈ ts, s ≤ x := by
  cases ts with
  | nil => exact absurd rfl hne
  | cons t ts =>
    have hleast := @foldl_least_le_iff t x ts
    rw [minText, bothBefore, decide_eq_false_iff_not, not_lt, hleast]
    simp

theorem bothBefore_maxText {ts : List String} (hne : ts ≠ []) {x : String} :
    bothBefore (maxText ts) (some x) = false ↔ ∃ s ∈ ts, x ≤ s := by
  cases ts with
  | nil => exact absurd rfl hne
  | cons t ts =>
    have hgreatest := @le_foldl_greatest_iff t x ts
    rw [maxText, bothBefore, decide_eq_false_iff_not, not_lt, hgreatest]
    simp

/-! ## The spans of a column -/

def columnValues (p : Parquet V) (column : String) : List V :=
  p.rows.filterMap fun row => p.schema.cell row column

theorem mem_names_of_mem_columnValues {p : Parquet V} {column : String} {v : V}
    (h : v ∈ columnValues p column) : column ∈ p.schema.names := by
  obtain ⟨row, hrow, hcell⟩ := List.mem_filterMap.mp h
  have hlength := p.fits row hrow
  by_contra hnot
  have hindex : p.schema.names.idxOf column = row.length := by
    rw [hlength]
    exact List.idxOf_eq_length hnot
  rw [Schema.cell, hindex, List.getElem?_eq_none (le_refl _)] at hcell
  cases hcell

section Spans
variable [LinearOrder V] {text : ValueText V} {p : Parquet V} {column : String} {v : V}

/-- The ranges the bounds are read from: those the footer has of its row groups, and where it
has none the range of the whole column. -/
def recordedSpans (text : ValueText V) (p : Parquet V) (column : String) : List (V × V) :=
  if (text.statistics p column).filterMap id ≠ [] then (text.statistics p column).filterMap id
  else ((columnValues p column).min?.bind fun lo =>
    (columnValues p column).max?.map fun hi => (lo, hi)).toList

/-- As text the value lies below no least and above no greatest value of the spans. -/
def TextCovers (text : ValueText V) (spans : List (V × V)) (v : V) : Prop :=
  (∃ span ∈ spans, text.str span.1 ≤ text.str v) ∧ ∃ span ∈ spans, text.str v ≤ text.str span.2

theorem overlaps_recorded_iff {part : PartDescriptor}
    (hbounds : (part.keyMin, part.keyMax) = readParquetKeyBounds text p column)
    (hv : v ∈ columnValues p column) :
    overlaps (some (text.str v)) (some (text.str v)) part = true ↔
      TextCovers text (recordedSpans text p column) v := by
  unfold readParquetKeyBounds at hbounds
  rw [if_neg (not_not.mpr (mem_names_of_mem_columnValues hv))] at hbounds
  rw [overlaps, Bool.and_eq_true, Bool.not_eq_true', Bool.not_eq_true', and_comm]
  unfold recordedSpans TextCovers
  by_cases hfound : (text.statistics p column).filterMap id ≠ []
  · simp only [if_pos hfound] at hbounds ⊢
    obtain ⟨hmin, hmax⟩ := Prod.mk.inj hbounds
    rw [hmin, hmax, bothBefore_minText (by simpa using hfound),
      bothBefore_maxText (by simpa using hfound)]
    simp
  · simp only [if_neg hfound] at hbounds ⊢
    obtain ⟨hmin, hmax⟩ := Prod.mk.inj hbounds
    -- the column has a value, so it has a least and a greatest one
    obtain ⟨lo, hlo⟩ := Option.isSome_iff_exists.mp (List.isSome_min?_of_mem hv)
    obtain ⟨hi, hhi⟩ := Option.isSome_iff_exists.mp (List.isSome_max?_of_mem hv)
    have hlo' : (p.rows.filterMap fun row => p.schema.cell row column).min? = some lo := hlo
    have hhi' : (p.rows.filterMap fun row => p.schema.cell row column).max? = some hi := hhi
    have hbelow := @bothBefore_minText [text.str lo] (List.cons_ne_nil _ _) (text.str v)
    have habove := @bothBefore_maxText [text.str hi] (List.cons_ne_nil _ _) (text.str v)
    rw [hmin, hmax, hlo', hhi', hlo, hhi]
    exact and_congr (hbelow.trans (by simp)) (habove.trans (by simp))

end Spans

/-! ## Keeping a part -/

theorem mem_keptParts {files : FileSystem} {lineage : LineageChain} {relationName : String}
    {keyMin keyMax : Option String} {root path : Path} {rank : Nat} {part : PartDescriptor} :
    (rank, part, path) ∈ keptParts files lineage relationName keyMin keyMax root ↔
      ∃ node, lineage.nodes[rank]? = some node ∧
        part ∈ (node.relations.get? relationName).getD [] ∧
        candidatePath files root keyMin keyMax node.snapshotId part = some path := by
  unfold keptParts
  simp only [List.mem_flatMap, List.mem_filterMap, Option.map_eq_some_iff, Prod.mk.injEq]
  constructor
  · intro ⟨⟨node, i⟩, hnode, part', hpart, path', hpath, hi, hp, hq⟩
    subst hi hp hq
    exact ⟨node, List.mem_zipIdx_iff_getElem?.mp hnode, hpart, hpath⟩
  · intro ⟨node, hnode, hpart, hpath⟩
    exact ⟨(node, rank), List.mem_zipIdx_iff_getElem?.mpr hnode, part, hpart, path, hpath, rfl, rfl, rfl⟩

theorem isFile_iff_exists_fileContent {files : FileSystem} {p : Path} :
    files.isFile p = true ↔ ∃ content, fileContent files p = some content := by
  unfold FileSystem.isFile fileContent
  cases files.stat p with
  | none => simp
  | some e => cases e <;> simp

theorem exists_resolve_of_isFile {files : FileSystem} {p : Path} (h : files.isFile p = true) :
    ∃ q, files.resolve p = some q ∧ fileContent files q = fileContent files p := by
  have hsome : (files.locate p).isSome := by
    cases hlocate : files.locate p with
    | none => simp [FileSystem.isFile, FileSystem.stat, hlocate] at h
    | some q => rfl
  obtain ⟨q, hq⟩ := Option.isSome_iff_exists.mp hsome
  refine ⟨q, FileSystem.resolve_of_locate hq, ?_⟩
  rw [fileContent, FileSystem.stat_of_locate hq, fileContent]

theorem exists_candidatePath_iff {files : FileSystem} {root : Path} {keyMin keyMax : Option String}
    {snapshotId : String} {part : PartDescriptor} {content : Bytes}
    (hfile : fileContent files (partPath files root snapshotId part.path) = some content) :
    (∃ path, candidatePath files root keyMin keyMax snapshotId part = some path) ↔
      overlaps keyMin keyMax part = true := by
  have hisFile := isFile_iff_exists_fileContent.mpr ⟨content, hfile⟩
  obtain ⟨q, hq, -⟩ := exists_resolve_of_isFile hisFile
  unfold candidatePath
  simp only [hisFile, and_true]
  constructor
  · intro ⟨path, hpath⟩
    by_contra hno
    rw [if_neg hno] at hpath
    cases hpath
  · intro hyes
    rw [if_pos hyes]
    exact ⟨q, hq⟩

/-- A part with the bounds that were recorded of it is kept for a value it holds exactly when
the spans cover the value as texts. -/
theorem keptParts_key_iff [LinearOrder V] {engine : Engine V} {text : ValueText V}
    {files : FileSystem} {root : Path} {lineage : LineageChain} {rank : Nat}
    {node : DAGNodeManifest} {spec : RelationSpec} {part : PartDescriptor} {p : Parquet V} {v : V}
    (hnode : lineage.nodes[rank]? = some node)
    (hpart : part ∈ (node.relations.get? spec.name).getD [])
    (hfile : fileContent files (partPath files root node.snapshotId part.path) =
      some (engine.encode p))
    (hbounds : (part.keyMin, part.keyMax) = readParquetKeyBounds text p (keyColumn spec))
    (hv : v ∈ columnValues p (keyColumn spec)) :
    (∃ path, (rank, part, path) ∈
        keptParts files lineage spec.name (some (text.str v)) (some (text.str v)) root) ↔
      TextCovers text (recordedSpans text p (keyColumn spec)) v := by
  have hkept := @exists_candidatePath_iff files root (some (text.str v)) (some (text.str v)) _ _ _ hfile
  rw [← overlaps_recorded_iff hbounds hv, ← hkept]
  constructor
  · intro ⟨path, hpath⟩
    obtain ⟨node', hnode', -, hcandidate⟩ := mem_keptParts.mp hpath
    obtain rfl := Option.some.inj (hnode.symm.trans hnode')
    exact ⟨path, hcandidate⟩
  · intro ⟨path, hcandidate⟩
    exact ⟨path, mem_keptParts.mpr ⟨node, hnode, hpart, hcandidate⟩⟩

/-! ## Columns ordered as their texts -/

section Monotone
variable [LinearOrder V] {text : ValueText V} {p : Parquet V} {column : String}

def groupValues (schema : Schema) (column : String) (group : Table V) : List V :=
  group.filterMap fun row => schema.cell row column

structure Describes (text : ValueText V) (p : Parquet V) (column : String)
    (groups : List (Table V)) : Prop where
  rows : groups.flatten = p.rows
  statistics : List.Forall₂ (fun group stat => ∀ span, stat = some span →
    ∀ v ∈ groupValues p.schema column group, span.1 ≤ v ∧ v ≤ span.2)
      groups (text.statistics p column)

theorem exists_group_of_mem {groups : List (Table V)} (h : Describes text p column groups) {v : V}
    (hv : v ∈ columnValues p column) : ∃ group ∈ groups, v ∈ groupValues p.schema column group := by
  obtain ⟨row, hrow, hcell⟩ := List.mem_filterMap.mp hv
  rw [← h.rows] at hrow
  obtain ⟨group, hgroup, hin⟩ := List.mem_flatten.mp hrow
  exact ⟨group, hgroup, List.mem_filterMap.mpr ⟨row, hin, hcell⟩⟩

theorem textCovers_of_monotone (hmono : ∀ a b, a ≤ b → text.str a ≤ text.str b)
    {groups : List (Table V)} (h : Describes text p column groups)
    (hall : List.Forall₂ (fun group stat => groupValues p.schema column group ≠ [] → stat ≠ none)
        groups (text.statistics p column) ∨ ∀ stat ∈ text.statistics p column, stat = none)
    {v : V} (hv : v ∈ columnValues p column) :
    TextCovers text (recordedSpans text p column) v := by
  have hbetween : ∃ span ∈ recordedSpans text p column, span.1 ≤ v ∧ v ≤ span.2 := by
    unfold recordedSpans
    rcases hall with hstats | hnone
    · obtain ⟨group, hgroup, hin⟩ := exists_group_of_mem h hv
      obtain ⟨i, hi, hgroup⟩ := List.getElem_of_mem hgroup
      have hlength := h.statistics.length_eq
      have hstat := (List.forall₂_iff_get.mp hstats).2 i hi (hlength ▸ hi)
      have hbound := (List.forall₂_iff_get.mp h.statistics).2 i hi (hlength ▸ hi)
      simp only [List.get_eq_getElem] at hstat hbound
      rw [hgroup] at hstat hbound
      obtain ⟨span, hspan⟩ := Option.ne_none_iff_exists'.mp (hstat (List.ne_nil_of_mem hin))
      have hmem : span ∈ (text.statistics p column).filterMap id := by
        rw [List.mem_filterMap]
        exact ⟨some span, hspan ▸ List.getElem_mem _, rfl⟩
      rw [if_pos (List.ne_nil_of_mem hmem)]
      exact ⟨span, hmem, hbound span hspan v hin⟩
    · have hempty : (text.statistics p column).filterMap id = [] := by
        rw [List.filterMap_eq_nil_iff]
        exact fun stat hstat => hnone stat hstat
      obtain ⟨lo, hlo⟩ := Option.isSome_iff_exists.mp (List.isSome_min?_of_mem hv)
      obtain ⟨hi, hhi⟩ := Option.isSome_iff_exists.mp (List.isSome_max?_of_mem hv)
      rw [if_neg (not_not.mpr hempty), hlo, hhi]
      refine ⟨(lo, hi), by simp, ?_, ?_⟩
      · exact (List.min?_eq_some_iff.mp hlo).2 v hv
      · exact (List.max?_eq_some_iff.mp hhi).2 v hv
  obtain ⟨span, hspan, hlow, hhigh⟩ := hbetween
  exact ⟨⟨span, hspan, hmono _ _ hlow⟩, ⟨span, hspan, hmono _ _ hhigh⟩⟩

end Monotone

/-! ## A column of numbers -/

def digitText (n : Nat) : String := String.ofList (Nat.toDigits 10 n)

def readDigits (s : String) : Option Nat :=
  if s.toList ≠ [] ∧ s.toList.all Char.isDigit then some (Nat.ofDigitChars 10 s.toList 0) else none

def natText : ValueText Nat where
  json n := .int n
  str := digitText
  cast := readDigits
  cast_str n := by
    have hdigits : (Nat.toDigits 10 n).all Char.isDigit = true :=
      List.all_eq_true.mpr fun c hc => Nat.isDigit_of_mem_toDigits (by decide) (by decide) hc
    have hne : Nat.toDigits 10 n ≠ [] := Nat.toDigits_ne_nil
    rw [readDigits, digitText, String.toList_ofList, if_pos ⟨hne, hdigits⟩, Nat.ofDigitChars_ten_toDigits]
  statistics p column := [(columnValues p column).min?.bind fun lo =>
    (columnValues p column).max?.map fun hi => (lo, hi)]

def numbersSpec : RelationSpec where
  name := "numbers"
  schema := ⟨["n"], by decide⟩
  primaryKey := ["n"]
  mergeStrategy := .upsert
  sortOrder := ["n"]
  valid := by decide +kernel

def numbersPart (ns : List Nat) : Parquet Nat where
  schema := numbersSpec.schema
  rows := ns.map fun n => [some n]
  fits := by simp [Schema.Fits, numbersSpec]

def numbersDescriptor (ns : List Nat) : PartDescriptor where
  path := "p"
  sha256 := ""
  rowCount := ns.length
  byteSize := (plainEngine.encode (numbersPart ns)).length
  keyMin := (readParquetKeyBounds natText (numbersPart ns) "n").1
  keyMax := (readParquetKeyBounds natText (numbersPart ns) "n").2

def numbersNode (ns : List Nat) : DAGNodeManifest where
  snapshotId := "a"
  kind := .checkpoint
  parents := []
  checkpointAnchorId := "a"
  lineageDepth := 0
  createdAt := ""
  relations := Dict.empty.set "numbers" [numbersDescriptor ns]
  logicalFingerprint := ""

def numbersLineage (ns : List Nat) : LineageChain := ⟨"a", "a", [numbersNode ns]⟩

def numbersFiles (ns : List Nat) : FileSystem where
  entries := ⟨[(["r"], .dir), (["r", "a"], .dir),
    (["r", "a", "p"], .file (plainEngine.encode (numbersPart ns)))], by simp⟩
  parents := by
    intro p hp
    have hcases : p = ["r"] ∨ p = ["r", "a"] ∨ p = ["r", "a", "p"] := by
      simpa [Dict.keys] using hp
    rcases hcases with rfl | rfl | rfl
    · exact ⟨by decide, Or.inl rfl⟩
    · exact ⟨by decide, Or.inr rfl⟩
    · exact ⟨by decide, Or.inr rfl⟩

theorem keptParts_key_seven :
    ∃ path, (0, numbersDescriptor [7, 9], path) ∈ keptParts (numbersFiles [7, 9])
      (numbersLineage [7, 9]) "numbers" (some "7") (some "7") ["r"] := by
  have hspan : recordedSpans natText (numbersPart [7, 9]) "n" = [(7, 9)] := by decide +kernel
  have hcovers : TextCovers natText (recordedSpans natText (numbersPart [7, 9]) "n") 7 := by
    rw [hspan]
    unfold TextCovers
    decide +kernel
  exact (@keptParts_key_iff _ _ plainEngine natText (numbersFiles [7, 9]) ["r"]
    (numbersLineage [7, 9]) 0 (numbersNode [7, 9]) numbersSpec (numbersDescriptor [7, 9])
    (numbersPart [7, 9]) 7 rfl (List.mem_singleton.mpr rfl) rfl rfl (by decide +kernel)).mpr hcovers

/-- The bounds of a part with 9 and 10 are the texts of these numbers, and the range asked for
from 10 to 10 lies before the first of them. -/
theorem keptParts_drops_ten :
    10 ∈ columnValues (numbersPart [9, 10]) (keyColumn numbersSpec) ∧
      ((numbersDescriptor [9, 10]).keyMin, (numbersDescriptor [9, 10]).keyMax) =
        readParquetKeyBounds natText (numbersPart [9, 10]) (keyColumn numbersSpec) ∧
      fileContent (numbersFiles [9, 10]) (partPath (numbersFiles [9, 10]) ["r"] "a" "p") =
        some (plainEngine.encode (numbersPart [9, 10])) ∧
      prunePartsForRange (numbersFiles [9, 10]) (numbersLineage [9, 10]) "numbers"
        (some (natText.str 10)) (some (natText.str 10)) ["r"] = [] := by
  refine ⟨by decide +kernel, rfl, rfl, ?_⟩
  decide +kernel

end EdgarSec.Dag
