import EdgarSec.Dag.Spec
import EdgarSec.Dag.Traversal
import EdgarSec.Foundation.Files

/-! `compile_virtual_views`: from the part files of a lineage to the active view of every
relation. -/

namespace EdgarSec.Dag
open Foundation Lib

structure Parquet (V : Type) where
  schema : Schema
  rows : Table V
  fits : schema.Fits rows

/-- The parts of DuckDB and pyarrow the resolver rests on: the rows an ordering leaves
tied, and the Parquet format. -/
structure Engine (V : Type) extends Choice where
  encode : Parquet V → Bytes
  decode : Bytes → Option (Parquet V)
  decode_encode : ∀ p, decode (encode p) = some p

variable {V : Type}

/-! ## Reading the parts -/

/-- Where the resolver looks for a part: the path itself when it is absolute, below the
directory of its node, else below the root. -/
def partPath (files : FileSystem) (root : Path) (snapshotId path : String) : Path :=
  let own := joinPath (joinPath root snapshotId) path
  if isAbsolute path then splitPath path
  else if files.isFile own then own
  else if files.isFile (joinPath root path) then joinPath root path
  else own

def fileContent (files : FileSystem) (path : Path) : Option Bytes :=
  match files.stat path with
  | some (.file content) => some content
  | _ => none

/-- `read_parquet` of one file written under the schema of the relation. -/
def readPart (engine : Engine V) (schema : Schema) (content : Bytes) :
    Except DagError (Table V) :=
  match engine.decode content with
  | none => .error (.engineError "Invalid Input Error: No magic bytes found at end of file")
  | some p =>
    if p.schema = schema then .ok p.rows
    else .error (.engineError "Invalid Input Error: schema mismatch in Parquet file")

def nodeRows (engine : Engine V) (files : FileSystem) (root : Path) (spec : RelationSpec)
    (node : DAGNodeManifest) : Except DagError (Option (Table V)) :=
  let parts := (node.relations.get? spec.name).getD []
  let present := parts.filterMap fun part =>
    fileContent files (partPath files root node.snapshotId part.path)
  if present = [] then .ok none
  else (present.mapM (readPart engine spec.schema)).map fun tables => some tables.flatten

/-! ## The views -/

/-- `_raw_<name>`: for each node of the lineage the rows it adds, if it adds a subquery. -/
structure RawView (V : Type) where
  spec : RelationSpec
  sources : List (Option (Table V))

namespace RawView

def hasSubqueries (v : RawView V) : Bool := v.sources.any Option.isSome

/-- `SELECT rank AS _lineage_ord, *` of every node, under `UNION ALL`. -/
def rows (v : RawView V) : List (Nat × Row V) :=
  v.sources.zipIdx.flatMap fun source => (source.1.getD []).map fun row => (source.2, row)

end RawView

def ordAsc (a b : Nat × Row V) : Bool := a.1 ≤ b.1

def ordDesc (a b : Nat × Row V) : Bool := b.1 ≤ a.1

section Order
variable [LinearOrder V]

/-- `ASC`; nulls sort last. -/
def cellAsc : Option V → Option V → Bool
  | _, none => true
  | none, some _ => false
  | some a, some b => a ≤ b

/-- `DESC`; nulls sort last here too. -/
def cellDesc : Option V → Option V → Bool
  | _, none => true
  | none, some _ => false
  | some a, some b => b ≤ a

def cellBefore : TieBreakerOp → Option V → Option V → Bool
  | .min => cellAsc
  | .max => cellDesc

/-- `ORDER BY` of an append relation. -/
def appendOrder (spec : RelationSpec) : Nat × Row V → Nat × Row V → Bool :=
  match spec.tieBreaker? with
  | none => ordAsc
  | some tie =>
    thenBy (fun a b => cellBefore spec.tieBreakerOp (spec.schema.cell a.2 tie) (spec.schema.cell b.2 tie))
      (match spec.tieBreakerOp with
        | .min => ordAsc
        | .max => ordDesc)

def lineageOrder (spec : RelationSpec) : Nat × Row V → Nat × Row V → Bool :=
  match spec.mergeStrategy with
  | .append => appendOrder spec
  | _ => ordDesc

/-- The rows with `_rnk = 1`. -/
def rankedRows (choice : Choice) (spec : RelationSpec) (rows : List (Nat × Row V)) :
    Table V :=
  (rowNumberOne choice (fun r => spec.keyCells r.2) (lineageOrder spec) rows).map Prod.snd

/-- `winning_parent`: the newest node that wrote each join key. -/
def winningParent (choice : Choice) (schema : Schema) (cols : List String)
    (rows : List (Nat × Row V)) : List (List (Option V) × Nat) :=
  rowNumberOne choice Prod.fst (fun a b => decide (b.2 ≤ a.2))
    (rows.map fun r => (schema.cells cols r.2, r.1))

def maskedRows (choice : Choice) (spec parent : RelationSpec) (rows parentRows : List (Nat × Row V)) :
    Table V :=
  (innerJoin (fun c => (nonNull (spec.schema.cells spec.joinColumns c.2)).map (·, c.1))
    (fun p => (nonNull p.1).map (·, p.2)) rows
    (winningParent choice parent.schema spec.joinColumns parentRows)).map fun j => j.1.2

def binderError (column : String) : DagError :=
  .engineError ("Binder Error: Referenced column " ++ column ++ " not found")

/-- `active_<name>`. -/
def activeView (choice : Choice) (raws : List (RawView V)) (v : RawView V) :
    Except DagError (Table V) :=
  if v.hasSubqueries = false then .ok []
  else if v.spec.mergeStrategy ≠ .scopedMask then .ok (rankedRows choice v.spec v.rows)
  else
    match raws.find? fun p => p.spec.name = v.spec.parentName with
    | none => .error (.engineError "Catalog Error: parent view does not exist")
    | some p =>
      if p.hasSubqueries = false then .error (binderError "_lineage_ord")
      else if v.spec.joinColumns.all fun k => k ∈ v.spec.schema.names ∧ k ∈ p.spec.schema.names then
        .ok (maskedRows choice v.spec p.spec v.rows p.rows)
      else .error (binderError (joinWith ", " v.spec.joinColumns))

end Order

/-! ## Compiling a lineage -/

def isReady (names : List String) (s : RelationSpec) : Bool :=
  s.mergeStrategy ≠ .scopedMask ∨ s.parentRelation.any (· ∈ names)

def orderedSpecs : Nat → List String → List RelationSpec → Except DagError (List RelationSpec)
  | _, _, [] => .ok []
  | 0, _, _ :: _ => .error (.valueError "scoped-mask relations require an ordered parent spec")
  | n + 1, names, s :: specs =>
    let ready := (s :: specs).filter (isReady names)
    if ready = [] then .error (.valueError "scoped-mask relations require an ordered parent spec")
    else
      (orderedSpecs n (names ++ ready.map (·.name))
        ((s :: specs).filter fun t => !isReady names t)).map (ready ++ ·)

def checkViewNames (specs : List RelationSpec) : Except DagError Unit :=
  if (specs.map fun s => s.name.toList.map Char.toLower).Nodup then .ok ()
  else .error (.engineError "Catalog Error: view already exists")

def readRelation (engine : Engine V) (files : FileSystem) (root : Path) (nodes : List DAGNodeManifest)
    (spec : RelationSpec) : Except DagError (RawView V) :=
  (nodes.mapM (nodeRows engine files root spec)).map (RawView.mk spec)

def mergeViews [LinearOrder V] (choice : Choice) (raws : List (RawView V)) :
    Except DagError (List (String × Table V)) :=
  raws.mapM fun v => (activeView choice raws v).map fun rows => (v.spec.name, rows)

def compileVirtualViews [LinearOrder V] (engine : Engine V) (files : FileSystem) (root : Path)
    (specs : List RelationSpec) (lineage : LineageChain) :
    Except DagError (List (String × Table V)) := do
  let ordered ← orderedSpecs specs.length [] specs
  checkViewNames ordered
  let raws ← ordered.mapM (readRelation engine files root lineage.nodes)
  mergeViews engine.toChoice raws

def viewRows (views : List (String × Table V)) (spec : RelationSpec) : Table V :=
  (views.lookup spec.name).getD []

end EdgarSec.Dag
