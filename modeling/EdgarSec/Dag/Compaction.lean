import EdgarSec.Dag.ActiveViews
import EdgarSec.Dag.Publication
import EdgarSec.Foundation.RealPaths
import EdgarSec.Lib.Chunks

/-! Compaction of a lineage into a checkpoint: parts cut at key boundaries, and the parity
of the logical fingerprints before and after. -/

namespace EdgarSec.Dag
open Foundation Lib

variable {V : Type}

/-- Cell values as Python and DuckDB write and read them, and the statistics the Parquet
writer keeps of a column, one pair for each row group. -/
structure ValueText (V : Type) where
  json : V → Json
  str : V → String
  cast : String → Option V
  cast_str : ∀ v, cast (str v) = some v
  statistics : Parquet V → String → List (Option (V × V))

/-! ## The logical fingerprint -/

/-- `canonical_json(list(row))`. -/
def rowText (text : ValueText V) (row : Row V) : String :=
  canonicalJson (.arr (row.map fun cell => (cell.map text.json).getD .null))

/-- `ORDER BY` of some columns, ascending. -/
def columnsBefore [LinearOrder V] (schema : Schema) : List String → Row V → Row V → Bool
  | [], _, _ => true
  | col :: cols, a, b =>
    thenBy (fun a b => cellAsc (schema.cell a col) (schema.cell b col)) (columnsBefore schema cols) a b

def fingerprintText [LinearOrder V] (choice : Choice) (text : ValueText V) (specs : List RelationSpec)
    (views : List (String × Table V)) : String :=
  joinWith "" (specs.flatMap fun spec =>
    (choice.sort (columnsBefore spec.schema spec.primaryKey) (viewRows views spec)).map (rowText text))

def computeLogicalFingerprint [LinearOrder V] (sha256 : Bytes → String) (choice : Choice)
    (text : ValueText V) (specs : List RelationSpec) (views : List (String × Table V)) : String :=
  sha256Text sha256 (fingerprintText choice text specs views)

/-! ## Parts -/

def partFileName (index : Nat) : String :=
  "part-" ++ String.ofList ((Nat.toDigits 10 index).leftpad 5 '0') ++ ".parquet"

/-- `(cur_keys[0], cur_keys[-1])`. -/
def ends (keys : List String) : String × String := (keys.headD "", keys.getLastD "")

def keyRanges (maxRows : Int) : List String → Nat → List (String × Nat) → List (String × String)
  | cur, _, [] => if cur = [] then [] else [ends cur]
  | cur, total, (key, count) :: rest =>
    if 0 < total ∧ maxRows < (total + count : Nat) then ends cur :: keyRanges maxRows [key] count rest
    else keyRanges maxRows (cur ++ [key]) (total + count) rest

def keyColumn (spec : RelationSpec) : String :=
  match spec.entityKey with
  | none => spec.primaryKey.headD ""
  | some key => if key = "" then spec.primaryKey.headD "" else key

/-- `SELECT key, count(*) … WHERE key IS NOT NULL GROUP BY key ORDER BY key`. -/
def keyCounts [LinearOrder V] (choice : Choice) (keys : List V) : List (V × Nat) :=
  (choice.sort (fun a b => decide (a ≤ b)) keys.dedup).map fun k => (k, keys.count k)

def partRanges [LinearOrder V] (choice : Choice) (text : ValueText V) (spec : RelationSpec)
    (active : Table V) : List (Option (String × String)) :=
  match spec.maxRowsPerPart with
  | none => [none]
  | some maxRows =>
    if active = [] ∨ (active.length : Int) ≤ maxRows then [none]
    else
      let counts := keyCounts choice (active.filterMap fun row => spec.schema.cell row (keyColumn spec))
      let ranges := keyRanges maxRows [] 0 (counts.map fun c => (text.str c.1, c.2))
      if ranges = [] then [none] else ranges.map some

def castParam (text : ValueText V) (param : String) : Except DagError V :=
  match text.cast param with
  | some v => .ok v
  | none => .error (.engineError "Conversion Error: Could not convert string")

def selectRange [LinearOrder V] (text : ValueText V) (spec : RelationSpec) (active : Table V) :
    Option (String × String) → Except DagError (Table V)
  | none => .ok active
  | some (lo, hi) => do
    let a ← castParam text lo
    let b ← castParam text hi
    .ok (active.filter fun row => (spec.schema.cell row (keyColumn spec)).any fun k =>
      if lo = hi then k = a else a ≤ k ∧ k ≤ b)

def minText : List String → Option String
  | [] => none
  | t :: ts => some (ts.foldl (fun a b => if b < a then b else a) t)

def maxText : List String → Option String
  | [] => none
  | t :: ts => some (ts.foldl (fun a b => if a < b then b else a) t)

def readParquetKeyBounds [LinearOrder V] (text : ValueText V) (p : Parquet V) (column : String) :
    Option String × Option String :=
  if column ∉ p.schema.names then (none, none)
  else
    let found := (text.statistics p column).filterMap id
    if found ≠ [] then
      (minText (found.map fun b => text.str b.1), maxText (found.map fun b => text.str b.2))
    else
      let keys := p.rows.filterMap fun row => p.schema.cell row column
      (keys.min?.map text.str, keys.max?.map text.str)

section Writing
variable [LinearOrder V] (sha256 : Bytes → String) (engine : Engine V) (text : ValueText V)

/-- `COPY` of one range to its file, under the schema of the spec. -/
def writePart (files : FileSystem) (relDir : Path) (spec : RelationSpec) (active : Table V)
    (range : Option (String × String)) (index : Nat) : Except DagError (FileSystem × PartDescriptor) := do
  let rows ← selectRange text spec active range
  let sorted := engine.sort (columnsBefore spec.schema spec.sortOrder) rows
  if h : spec.schema.Fits sorted then
    let part : Parquet V := ⟨spec.schema, sorted, h⟩
    let content := engine.encode part
    match files.writeFile (relDir ++ [partFileName index]) content with
    | none => .error (.osError ("cannot write " ++ partFileName index))
    | some files =>
      let bounds := readParquetKeyBounds text part (keyColumn spec)
      .ok (files, ⟨spec.name ++ "/" ++ partFileName index, sha256 content, sorted.length,
        content.length, bounds.1, bounds.2⟩)
  else .error (.engineError "Target schema's field names are not matching the table's field names")

def writeParts (relDir : Path) (spec : RelationSpec) (active : Table V) :
    List (Option (String × String)) → Nat → FileSystem →
      Except DagError (FileSystem × List PartDescriptor)
  | [], _, files => .ok (files, [])
  | range :: ranges, index, files => do
    let first ← writePart sha256 engine text files relDir spec active range index
    let rest ← writeParts relDir spec active ranges (index + 1) first.1
    .ok (rest.1, first.2 :: rest.2)

def compactRelation (files : FileSystem) (relDir : Path) (spec : RelationSpec) (active : Table V) :
    Except DagError (FileSystem × List PartDescriptor) :=
  writeParts sha256 engine text relDir spec active (partRanges engine.toChoice text spec active) 0 files

def compactRelations (staged : Path) (views : List (String × Table V)) :
    List RelationSpec → FileSystem × Dict String (List PartDescriptor) →
      Except DagError (FileSystem × Dict String (List PartDescriptor))
  | [], state => .ok state
  | spec :: specs, (files, relationParts) =>
    match files.mkdirs (staged ++ [spec.name]) with
    | none => .error (.osError ("cannot create " ++ spec.name))
    | some files => do
      let written ← compactRelation sha256 engine text files (staged ++ [spec.name]) spec
        (viewRows views spec)
      compactRelations staged views specs (written.1, relationParts.set spec.name written.2)

/-! ## `compact_lineage` -/

def checkpointManifest (cat : Catalog) (tipId newSnapshotId createdAt fingerprint : String)
    (relationParts : Dict String (List PartDescriptor)) : DAGNodeManifest where
  snapshotId := newSnapshotId
  kind := .checkpoint
  parents := [⟨tipId, (cat.getManifestSha256 tipId).getD ""⟩]
  checkpointAnchorId := newSnapshotId
  lineageDepth := 0
  createdAt := createdAt
  relations := relationParts
  logicalFingerprint := fingerprint

def checkpointAlone (m : DAGNodeManifest) : LineageChain := ⟨m.snapshotId, m.snapshotId, [m]⟩

def stageCheckpoint (repo : Repository) (specs : List RelationSpec) (tipId newSnapshotId : String)
    (staged : Path) (createdAt : String) : Except DagError (FileSystem × DAGNodeManifest) :=
  match repo.files.mkdirs staged with
  | none => .error (.osError "cannot create the staging directory")
  | some ready => do
    let lineage ← walkLineage repo.catalog tipId
    let views ← compileVirtualViews engine ready repo.root specs lineage
    let preFingerprint := computeLogicalFingerprint sha256 engine.toChoice text specs views
    let written ← compactRelations sha256 engine text staged views specs (ready, .empty)
    let manifest := checkpointManifest repo.catalog tipId newSnapshotId createdAt preFingerprint written.2
    let stagedViews ← compileVirtualViews engine written.1 staged specs (checkpointAlone manifest)
    let postFingerprint := computeLogicalFingerprint sha256 engine.toChoice text specs stagedViews
    if postFingerprint ≠ preFingerprint then
      .error (.compactionParityError ("compaction parity failure: expected " ++ preFingerprint ++
        ", got " ++ postFingerprint))
    else .ok (written.1, manifest)

def compactLineage (repo : Repository) (specs : List RelationSpec) (tipId newSnapshotId : String)
    (staged : Path) (publish : Bool) (branchName : Option String) (createdAt now : String) :
    Except DagError (Repository × DAGNodeManifest) := do
  let (files, manifest) ← stageCheckpoint sha256 engine text repo specs tipId newSnapshotId staged createdAt
  let repo := { repo with files := files }
  if publish then
    match repo.publishNode sha256 manifest (some staged) (some tipId) branchName now with
    | (next, .ok _) => .ok (next, manifest)
    | (_, .error e) => .error e
  else .ok (repo, manifest)

end Writing

end EdgarSec.Dag
