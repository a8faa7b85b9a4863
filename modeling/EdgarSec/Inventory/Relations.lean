import EdgarSec.Dag.LosslessDelta
import EdgarSec.Inventory.Outcomes

/-! The relations of an inventory snapshot, and what the nodes of a lineage hold of them. -/

namespace EdgarSec.Inventory
open Foundation Lib Dag

/-! ## Schemas and specs -/

def snapshotAccessionsSchema : Schema where
  names := ["accession", "filing_cik", "form", "filing_date", "report_date", "bundle_url",
    "bundle_size", "index_url", "index_sha256", "first_indexed_by"]
  nodup := by decide

def snapshotAccessionSourcesSchema : Schema where
  names := ["accession", "source_cik", "first_seen_by"]
  nodup := by decide

def snapshotEnumerationSchema : Schema where
  names := ["accession", "vehicle", "source_url", "payload_sha256"]
  nodup := by decide

def cohortAccessionsSchema : Schema where
  names := ["accession", "filing_cik", "form", "filing_date", "report_date", "index_url"]
  nodup := by decide

def inventoryAccessionsSpec : RelationSpec where
  name := "accessions"
  schema := snapshotAccessionsSchema
  primaryKey := ["accession"]
  mergeStrategy := .upsert
  sortOrder := ["form", "filing_date", "accession"]
  entityKey := some "accession"
  valid := by decide +kernel

def inventoryEntriesSpec : RelationSpec where
  name := "entries"
  schema := entrySchema
  primaryKey := ["entry_id"]
  mergeStrategy := .scopedMask
  parentRelation := some "accessions"
  parentJoinKey := some ["accession"]
  sortOrder := ["accession", "sequence"]
  entityKey := some "accession"
  valid := by decide +kernel

def inventoryAccessionSourcesSpec : RelationSpec where
  name := "accession_sources"
  schema := snapshotAccessionSourcesSchema
  primaryKey := ["accession", "source_cik"]
  mergeStrategy := .upsert
  sortOrder := ["source_cik", "accession"]
  entityKey := some "source_cik"
  valid := by decide +kernel

def inventoryEnumerationSpec : RelationSpec where
  name := "accession_enumeration"
  schema := snapshotEnumerationSchema
  primaryKey := ["accession"]
  mergeStrategy := .upsert
  sortOrder := ["accession"]
  entityKey := some "accession"
  valid := by decide +kernel

inductive InventoryRelation where
  | accessions
  | entries
  | accessionSources
  | accessionEnumeration
  deriving DecidableEq, Repr

namespace InventoryRelation

def spec : InventoryRelation → RelationSpec
  | accessions => inventoryAccessionsSpec
  | entries => inventoryEntriesSpec
  | accessionSources => inventoryAccessionSourcesSpec
  | accessionEnumeration => inventoryEnumerationSpec

/-- `INVENTORY_RELATIONS` -/
def all : List InventoryRelation := [accessions, entries, accessionSources, accessionEnumeration]

theorem mem_all (r : InventoryRelation) : r ∈ all := by
  cases r <;> decide

end InventoryRelation

def inventoryRelations : List RelationSpec := InventoryRelation.all.map (·.spec)

/-! ## Columns -/

def rowAccession (row : Row Cell) : Option Cell := snapshotAccessionsSchema.cell row "accession"

def rowDigest (row : Row Cell) : Option Cell := snapshotAccessionsSchema.cell row "index_sha256"

def enumerationAccession (row : Row Cell) : Option Cell :=
  snapshotEnumerationSchema.cell row "accession"

def enumerationPayload (row : Row Cell) : Option Cell :=
  snapshotEnumerationSchema.cell row "payload_sha256"

def cohortAccession (row : Row Cell) : Option Cell := cohortAccessionsSchema.cell row "accession"

/-! ## The nodes of a lineage -/

structure SnapshotNode where
  schemaVersions : List (String × String)
  parts : InventoryRelation → List (Table Cell)

namespace SnapshotNode

def table (node : SnapshotNode) (r : InventoryRelation) : Table Cell := (node.parts r).flatten

def source (node : SnapshotNode) (r : InventoryRelation) : Option (Table Cell) :=
  if node.parts r = [] then none else some (node.table r)

@[simp] theorem getD_source (node : SnapshotNode) (r : InventoryRelation) :
    (node.source r).getD [] = node.table r := by
  unfold source
  split_ifs with hnone
  · simp [table, hnone]
  · rfl

end SnapshotNode

abbrev Lineage := List SnapshotNode

namespace Lineage

def raw (lineage : Lineage) (r : InventoryRelation) : RawView Cell :=
  ⟨r.spec, lineage.map fun node => node.source r⟩

def parentRows (lineage : Lineage) (r : InventoryRelation) : Table Cell :=
  lineage.flatMap fun node => node.table r

def activeAccessions (choice : Choice) (lineage : Lineage) : Table Cell :=
  rankedRows choice inventoryAccessionsSpec (lineage.raw .accessions).rows

def activeEnumeration (choice : Choice) (lineage : Lineage) : Table Cell :=
  rankedRows choice inventoryEnumerationSpec (lineage.raw .accessionEnumeration).rows

variable {lineage : Lineage} {node : SnapshotNode} {choice : Choice} {r : InventoryRelation}

theorem map_snd_raw : (lineage.raw r).rows.map Prod.snd = lineage.parentRows r := by
  have hrows : ∀ (sources : List (Option (Table Cell))) (k : Nat),
      ((sources.zipIdx k).flatMap fun source =>
        (source.1.getD []).map fun row => (source.2, row)).map Prod.snd =
      sources.flatMap fun source => source.getD [] := by
    intro sources
    induction sources with
    | nil => simp
    | cons source sources ih =>
      intro k
      simp [List.zipIdx_cons, Function.comp_def, ih (k + 1)]
  have hall := hrows (lineage.map fun node => node.source r) 0
  simpa [raw, RawView.rows, parentRows, List.flatMap_map] using hall

theorem mem_parentRows {row : Row Cell} :
    row ∈ lineage.parentRows r ↔ ∃ i, (i, row) ∈ (lineage.raw r).rows := by
  rw [← map_snd_raw, List.mem_map]
  constructor
  · intro ⟨⟨i, row'⟩, hmem, heq⟩
    obtain rfl : row' = row := heq
    exact ⟨i, hmem⟩
  · intro ⟨i, hmem⟩
    exact ⟨(i, row), hmem, rfl⟩

theorem rows_concat : (raw (lineage ++ [node]) r).rows =
    (lineage.raw r).rows ++ (node.table r).map (Prod.mk lineage.length) := by
  have happend := RawView.rows_append r.spec (lineage.map fun node => node.source r) (node.source r)
  rw [List.length_map, SnapshotNode.getD_source] at happend
  rw [raw, List.map_append]
  exact happend

theorem lt_length {x : Nat × Row Cell} (h : x ∈ (lineage.raw r).rows) : x.1 < lineage.length := by
  have hlt := RawView.lt_length_of_mem_rows h
  rwa [raw, List.length_map] at hlt

theorem keyCells_accessions (row : Row Cell) : inventoryAccessionsSpec.keyCells row = [rowAccession row] :=
  rfl

theorem keyCells_enumeration (row : Row Cell) :
    inventoryEnumerationSpec.keyCells row = [enumerationAccession row] := rfl

end Lineage

/-! ## On disk -/

section Disk
variable {engine : Engine Cell} {files : FileSystem} {root : Path} {chain : LineageChain}
  {lineage : Lineage}

def Stored (engine : Engine Cell) (files : FileSystem) (root : Path) (chain : LineageChain)
    (lineage : Lineage) : Prop :=
  ∀ r : InventoryRelation, chain.nodes.mapM (nodeRows engine files root r.spec) =
    .ok (lineage.map fun node => node.source r)

def orderedRelations : List InventoryRelation :=
  [.accessions, .accessionSources, .accessionEnumeration, .entries]

def sourcesOf (lineage : Lineage) (s : RelationSpec) : List (Option (Table Cell)) :=
  match InventoryRelation.all.find? (·.spec.name = s.name) with
  | none => []
  | some r => lineage.map fun node => node.source r

theorem sourcesOf_spec (lineage : Lineage) (r : InventoryRelation) :
    sourcesOf lineage r.spec = lineage.map fun node => node.source r := by
  cases r <;> rfl

theorem compileVirtualViews_of_stored (h : Stored engine files root chain lineage) :
    compileVirtualViews engine files root inventoryRelations chain =
      mergeViews engine.toChoice (orderedRelations.map lineage.raw) := by
  have hread : ∀ s ∈ inventoryRelations, chain.nodes.mapM (nodeRows engine files root s) =
      .ok (sourcesOf lineage s) := by
    intro s hs
    obtain ⟨r, -, rfl⟩ := List.mem_map.mp hs
    rw [sourcesOf_spec]
    exact h r
  have hordered : orderedSpecs inventoryRelations.length [] inventoryRelations =
      .ok (orderedRelations.map (·.spec)) := by rfl
  have hnames : checkViewNames (orderedRelations.map (·.spec)) = .ok () := by rfl
  rw [compileVirtualViews_eq hordered hnames hread, List.map_map]
  congr 1

end Disk

end EdgarSec.Inventory
