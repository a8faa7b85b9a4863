import EdgarSec.Dag.Compaction

/-! Point queries: the parts whose key bounds meet the range asked for, the views over those
parts only, and what pruning leaves of the rows of a relation. -/

namespace EdgarSec.Dag
open Foundation Lib

variable {V : Type}

/-! ## The parts of a range -/

/-- `str.zfill`: the zeros go behind a sign. -/
def zfill (s : String) (width : Nat) : String :=
  match s.toList with
  | [] => String.ofList (List.replicate width '0')
  | c :: cs =>
    if c = '+' ∨ c = '-' then String.ofList (c :: cs.leftpad (width - 1) '0')
    else String.ofList ((c :: cs).leftpad width '0')

def deriveAccessionRange (cik : String) : String × String :=
  (zfill cik 10 ++ "-00-000000", zfill cik 10 ++ "-99-999999")

/-- `a is not None and b is not None and a < b` -/
def bothBefore : Option String → Option String → Bool
  | some a, some b => a < b
  | _, _ => false

def overlaps (keyMin keyMax : Option String) (part : PartDescriptor) : Bool :=
  !bothBefore part.keyMax keyMin && !bothBefore keyMax part.keyMin

def candidatePath (files : FileSystem) (root : Path) (keyMin keyMax : Option String)
    (snapshotId : String) (part : PartDescriptor) : Option Path :=
  let full := partPath files root snapshotId part.path
  if overlaps keyMin keyMax part ∧ files.isFile full then files.resolve full else none

def keptParts (files : FileSystem) (lineage : LineageChain) (relationName : String)
    (keyMin keyMax : Option String) (root : Path) : List (Nat × PartDescriptor × Path) :=
  lineage.nodes.zipIdx.flatMap fun node =>
    ((node.1.relations.get? relationName).getD []).filterMap fun part =>
      (candidatePath files root keyMin keyMax node.1.snapshotId part).map fun path =>
        (node.2, part, path)

def prunePartsForRange (files : FileSystem) (lineage : LineageChain) (relationName : String)
    (keyMin keyMax : Option String) (root : Path) : List (Nat × Path) :=
  (keptParts files lineage relationName keyMin keyMax root).map fun kept => (kept.1, kept.2.2)

/-! ## The views -/

/-- `_raw_<name>`: the rows of each part, under the rank of its node. -/
structure PrunedView (V : Type) where
  spec : RelationSpec
  parts : List (Nat × Table V)

def PrunedView.rows (v : PrunedView V) : List (Nat × Row V) :=
  v.parts.flatMap fun part => part.2.map fun row => (part.1, row)

def hasQuote (path : Path) : Bool := path.any fun name => name.toList.contains '\x27'

/-- `read_parquet('…')` of one part. The path stands between the quotes as it is: one with a
quote in it does not come through. -/
def scanPart (engine : Engine V) (files : FileSystem) (schema : Schema) (path : Path) :
    Except DagError (Table V) :=
  if hasQuote path then .error (.engineError "Parser Error: syntax error at or near a quote")
  else
    match fileContent files path with
    | none => .error (.engineError "IO Error: No files found that match the pattern")
    | some content => readPart engine schema content

section Views
variable [LinearOrder V]

/-- `active_<name>`, over the raw views there are. -/
def prunedActiveView (choice : Choice) (raws : List (PrunedView V)) (v : PrunedView V) :
    Except DagError (Table V) :=
  if v.parts.isEmpty then .ok []
  else if v.spec.mergeStrategy ≠ .scopedMask then .ok (rankedRows choice v.spec v.rows)
  else
    match raws.find? fun p => p.spec.name = v.spec.parentName with
    | none => .error (.engineError "Catalog Error: parent view does not exist")
    | some p =>
      if p.parts.isEmpty then .error (binderError "_lineage_ord")
      else if v.spec.joinColumns.all fun k => k ∈ v.spec.schema.names ∧ k ∈ p.spec.schema.names then
        .ok (maskedRows choice v.spec p.spec v.rows p.rows)
      else .error (binderError (joinWith ", " v.spec.joinColumns))

abbrev RelationRanges := List (String × (Option String × Option String))

def readPruned (engine : Engine V) (files : FileSystem) (root : Path) (lineage : LineageChain)
    (ranges : RelationRanges) (spec : RelationSpec) : Except DagError (PrunedView V) :=
  let range := (ranges.lookup spec.name).getD (none, none)
  ((prunePartsForRange files lineage spec.name range.1 range.2 root).mapM fun part =>
    (scanPart engine files spec.schema part.2).map fun table => (part.1, table)).map
      (PrunedView.mk spec)

def registerViews (engine : Engine V) (files : FileSystem) (root : Path) (lineage : LineageChain)
    (ranges : RelationRanges) : List (PrunedView V) → List RelationSpec →
      Except DagError (List (String × Table V))
  | _, [] => .ok []
  | raws, spec :: specs => do
    let view ← readPruned engine files root lineage ranges spec
    let rows ← prunedActiveView engine.toChoice (view :: raws) view
    let rest ← registerViews engine files root lineage ranges (view :: raws) specs
    .ok ((spec.name, rows) :: rest)

def maskedLast (specs : List RelationSpec) : List RelationSpec :=
  specs.filter (fun s => s.mergeStrategy ≠ .scopedMask) ++
    specs.filter fun s => s.mergeStrategy = .scopedMask

def compilePrunedViews (engine : Engine V) (files : FileSystem) (root : Path)
    (specs : List RelationSpec) (lineage : LineageChain) (ranges : RelationRanges) :
    Except DagError (List (String × Table V)) :=
  registerViews engine files root lineage ranges [] (maskedLast specs)

/-- `key_column or spec.entity_key or spec.primary_key[0]` -/
def queryColumn (spec : RelationSpec) : Option String → String
  | none => keyColumn spec
  | some col => if col = "" then keyColumn spec else col

def queryRange (spec : RelationSpec) (col keyValue : String) : String × String :=
  if col = "filing_cik" ∧ "accession" ∈ spec.schema.names then deriveAccessionRange keyValue
  else (keyValue, keyValue)

/-- `cast` reads the parameter as a value of the column. -/
def queryPoint (engine : Engine V) (cast : String → Option V) (files : FileSystem) (root : Path)
    (spec : RelationSpec) (lineage : LineageChain) (keyValue : String)
    (keyColumn : Option String := none) (allSpecs : Option (List RelationSpec) := none) :
    Except DagError (Table V) := do
  let col := queryColumn spec keyColumn
  let range := queryRange spec col keyValue
  let targets := allSpecs.getD [spec]
  let views ← compilePrunedViews engine files root targets lineage
    (targets.map fun s => (s.name, (some range.1, some range.2)))
  if isIdentifier col = false then
    .error (.valueError ("unsafe SQL identifier: " ++ pyRepr col))
  else
    match views.lookup spec.name with
    | none => .error (.engineError "Catalog Error: view does not exist")
    | some rows =>
      if col ∉ spec.schema.names then .error (binderError col)
      else
        match cast keyValue with
        | none => .error (.engineError "Conversion Error: Could not convert string")
        | some key => .ok (rows.filter fun row => spec.schema.cell row col = some key)

end Views

end EdgarSec.Dag
