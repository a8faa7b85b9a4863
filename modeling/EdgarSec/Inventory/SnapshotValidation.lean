import EdgarSec.Dag.Compaction
import EdgarSec.Inventory.Relations

/-! `validate_snapshot`: the versions, the parts and the rows a snapshot must have before it
is published or built on. -/

namespace EdgarSec.Inventory
open Foundation Lib Dag

structure ValidationFailed where
  message : String
  deriving DecidableEq, Repr

/-- Raises `ValidationFailedError` unless the condition holds. -/
def ensureValid (p : Prop) [Decidable p] (message : String) : Except ValidationFailed Unit :=
  ensure p ⟨message⟩

def snapshotRelationVersion : String := "2"

/-! ## Values -/

def cellText : Option Cell → Option String
  | some (.text s) => some s
  | _ => none

def cellInt : Option Cell → Option Int
  | some (.int n) => some n
  | _ => none

/-- `NULL` or the empty text. -/
def isBlank (c : Option Cell) : Bool := (cellText c).getD "" = ""

def allDigits (cs : List Char) : Bool := cs.all Char.isDigit

/-- `[0-9]{10}` -/
def isCik (s : String) : Bool := s.toList.length = 10 ∧ allDigits s.toList

/-- `[0-9]{10}-[0-9]{2}-[0-9]{6}` -/
def isAccession (s : String) : Bool :=
  let cs := s.toList
  cs.length = 20 ∧ allDigits (cs.take 10) ∧ cs[10]? = some '-' ∧ allDigits ((cs.drop 11).take 2) ∧
    cs[13]? = some '-' ∧ allDigits (cs.drop 14)

/-- `[0-9a-f]{64}` -/
def isSha256Hex (s : String) : Bool :=
  s.toList.length = 64 ∧ s.toList.all fun c => c.isDigit ∨ ('a' ≤ c ∧ c ≤ 'f')

def isNegative (c : Option Cell) : Bool := (cellInt c).any (· < 0)

section Rows
variable (isDate : String → Bool)

/-- `isDate` stands for `try_cast(… AS DATE) IS NOT NULL`. -/
def isInvalidAccession (row : Row Cell) : Bool :=
  let cell := snapshotAccessionsSchema.cell row
  let text := fun name => cellText (cell name)
  let accession := (text "accession").getD ""
  let filingCik := (text "filing_cik").getD ""
  !isAccession accession || filingCik ≠ String.ofList (accession.toList.take 10) || !isCik filingCik ||
    isBlank (cell "form") || !(text "filing_date").any isDate ||
    (text "report_date").any (fun date => !isDate date) || isBlank (cell "index_url") ||
    !isSha256Hex ((text "index_sha256").getD "") || isNegative (cell "bundle_size") ||
    isBlank (cell "first_indexed_by")

def isInvalidEntry (row : Row Cell) : Bool :=
  let cell := entrySchema.cell row
  isBlank (cell "entry_id") || (cell "accession").isNone ||
    (cellText (cell "table_kind")).any (fun kind => kind ∉ ["document_format", "data_file"]) ||
    isNegative (cell "row_ordinal") || isNegative (cell "byte_size")

def isInvalidSource (row : Row Cell) : Bool :=
  let cell := snapshotAccessionSourcesSchema.cell row
  (cell "accession").isNone || !isCik ((cellText (cell "source_cik")).getD "") ||
    isBlank (cell "first_seen_by")

end Rows

/-! ## Relations -/

/-- `_create_view`: of the rows with one key the one that is furthest down in its file. -/
def fileRowView (choice : Choice) (spec : RelationSpec) (parts : List (Table Cell)) : Table Cell :=
  (rowNumberOne choice (fun r => spec.keyCells r.2) ordDesc
    (parts.flatMap fun part => part.zipIdx.map fun row => (row.2, row.1))).map Prod.snd

def checkPartKeys (r : InventoryRelation) (parts : List (Table Cell)) : Except ValidationFailed Unit :=
  ensureValid (∀ part ∈ parts, (part.map r.spec.keyCells).Nodup)
    ("duplicate " ++ r.spec.name ++ " primary key in " ++ partFileName 0)

def ascends (schema : Schema) (columns : List String) : Table Cell → Bool
  | a :: b :: rows => !columnsBefore schema columns b a && ascends schema columns (b :: rows)
  | _ => true

def withAccession (entries accessions : Table Cell) : List (Row Cell × Row Cell) :=
  innerJoin entryAccession rowAccession entries accessions

def entryOrder (a b : Row Cell × Row Cell) : Bool :=
  thenBy
    (fun a b => columnsBefore snapshotAccessionsSchema ["form", "filing_date", "accession"] a.2 b.2)
    (fun a b => columnsBefore entrySchema ["row_ordinal", "table_kind", "entry_id"] a.1 b.1) a b

def entriesAscend : List (Row Cell × Row Cell) → Bool
  | a :: b :: rows => !entryOrder b a && entriesAscend (b :: rows)
  | _ => true

def sourceAccession (row : Row Cell) : Option Cell :=
  snapshotAccessionSourcesSchema.cell row "accession"

/-- `_validate_relations` of the parts of a node, with the parts of its ancestors in view. -/
def validateRelations (choice : Choice) (isDate : String → Bool) (node : SnapshotNode)
    (active : InventoryRelation → List (Table Cell)) : Except ValidationFailed Unit := do
  InventoryRelation.all.forM fun r => checkPartKeys r (active r)
  let view := fun r : InventoryRelation => fileRowView choice r.spec (active r)
  let known := (view .accessions).filterMap rowAccession
  ensureValid (∀ e ∈ view .entries, ∃ a ∈ known, entryAccession e = some a) "orphan entries"
  ensureValid (∀ s ∈ view .accessionSources, ∃ a ∈ known, sourceAccession s = some a)
    "orphan source edges"
  ensureValid (∀ row ∈ view .accessions, isInvalidAccession isDate row = false) "invalid accession rows"
  ensureValid (∀ row ∈ view .entries, isInvalidEntry row = false) "invalid entry rows"
  ensureValid (∀ row ∈ view .accessionSources, isInvalidSource row = false) "invalid source rows"
  ensureValid (∀ part ∈ node.parts .accessions,
      ascends snapshotAccessionsSchema ["form", "filing_date", "accession"] part = true)
    "snapshot rows are not sorted"
  ensureValid (∀ part ∈ node.parts .accessionSources,
      ascends snapshotAccessionSourcesSchema ["source_cik", "accession"] part = true)
    "snapshot rows are not sorted"
  ensureValid (∀ part ∈ node.parts .entries,
      entriesAscend (withAccession part (view .accessions)) = true)
    "entry part rows are not sorted"

def validateSnapshot (choice : Choice) (isDate : String → Bool) (ancestors : Lineage)
    (node : SnapshotNode) : Except ValidationFailed Unit := do
  ensureValid (node.schemaVersions.lookup "accessions" = some snapshotRelationVersion)
    "snapshot relation version mismatch"
  ensureValid (node.schemaVersions.lookup "entries" = some "1")
    "snapshot entry schema version mismatch"
  ensureValid (∀ r ∈ InventoryRelation.all, ∀ part ∈ node.parts r, part ≠ [])
    "snapshot part has no row groups"
  validateRelations choice isDate node fun r => (ancestors ++ [node]).flatMap fun n => n.parts r

/-! ## What an accepted snapshot has -/

theorem nodup_of_validate {choice : Choice} {isDate : String → Bool} {ancestors : Lineage}
    {node : SnapshotNode} (h : validateSnapshot choice isDate ancestors node = .ok ())
    {r : InventoryRelation} {part : Table Cell} (hpart : part ∈ node.parts r) :
    (part.map r.spec.keyCells).Nodup := by
  simp only [validateSnapshot, validateRelations, ensureValid, bind_eq_ok, ensure_eq_ok] at h
  obtain ⟨_, _, _, _, _, _, _, hkeys, _⟩ := h
  have hrelation := forM_eq_ok.mp hkeys r (InventoryRelation.mem_all r)
  simp only [checkPartKeys, ensureValid, ensure_eq_ok] at hrelation
  apply hrelation
  rw [List.flatMap_append]
  exact List.mem_append_right _ (by simpa using hpart)

end EdgarSec.Inventory
