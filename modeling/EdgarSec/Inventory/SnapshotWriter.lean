import EdgarSec.Inventory.SnapshotValidation

/-! `publish_committed_chunks`: the outcomes of a run are held against the rows of the parent
lineage, and what is new or has changed becomes the next node. -/

namespace EdgarSec.Inventory
open Foundation Lib Dag

structure RunInput where
  refresh : Bool
  sourceIdentity : String
  cohortAccessions : Table Cell
  cohortSources : Table Cell
  outcomes : Table Cell
  entries : Table Cell

/-! ## Columns -/

def outcomeCell (row : Row Cell) (column : String) : Option Cell := outcomeSchema.cell row column

def outcomeDigest (row : Row Cell) : Option Cell := outcomeCell row "page_sha256"

def outcomeVehicle (row : Row Cell) : Option Cell := outcomeCell row "vehicle"

def cohortCell (row : Row Cell) (column : String) : Option Cell := cohortAccessionsSchema.cell row column

def sourceEdge (row : Row Cell) : List (Option Cell) :=
  snapshotAccessionSourcesSchema.cells ["accession", "source_cik"] row

def publishedStatuses : List (Option Cell) := [text statusParsed, text statusParsedEmpty]

def enumeratingVehicles : List (Option Cell) := [text Vehicle.summary.text, text Vehicle.package.text]

/-- `EXISTS (SELECT 1 FROM current WHERE current.accession = …)` -/
def knownAccession (current : Table Cell) (accession : Option Cell) : Bool :=
  current.any fun p => (rowAccession p).isSome ∧ rowAccession p = accession

/-! ## `anti_join` -/

structure AntiJoinResult where
  newAccessions : Table Cell
  knownAccessions : Table Cell
  candidateEntries : Table Cell
  newSources : Table Cell

/-- `min(first_seen_by)` over the edges of one group. -/
def minFirstSeen (rows : Table Cell) : Option Cell :=
  (rows.filterMap fun row => snapshotAccessionSourcesSchema.cell row "first_seen_by").min?

def newSourceRows (current sources : Table Cell) : Table Cell :=
  let fresh := sources.filter fun s =>
    !(nonNull (sourceEdge s)).any fun edge => current.any fun c => sourceEdge c = edge
  (fresh.map sourceEdge).dedup.map fun edge =>
    edge ++ [minFirstSeen (fresh.filter fun s => sourceEdge s = edge)]

def antiJoin (parent : InventoryRelation → Table Cell) (input : RunInput) :
    Except ValidationFailed AntiJoinResult := do
  ensureValid (∀ o ∈ input.outcomes, outcomeCell o "status" ∈ publishedStatuses)
    "refusing snapshot outcome status"
  ensureValid (input.outcomes.map outcomeAccession).Nodup "duplicate staged outcome"
  let known := fun o => knownAccession (parent .accessions) (outcomeAccession o)
  let staged := innerJoin entryAccession outcomeAccession input.entries input.outcomes
  return {
    newAccessions := input.outcomes.filter fun o => !known o
    knownAccessions := input.outcomes.filter known
    candidateEntries := (staged.filter fun j => input.refresh || !known j.2).map Prod.fst
    newSources := newSourceRows (parent .accessionSources) input.cohortSources }

/-! ## `_create_merge_relations` -/

structure MergeRelations where
  deltaAccessions : Table Cell
  deltaEntries : Table Cell
  deltaSources : Table Cell
  deltaEnumeration : Table Cell

def checkStaged (parent : InventoryRelation → Table Cell) (input : RunInput) :
    Except ValidationFailed Unit := do
  let cohort := input.cohortAccessions
  let facts := innerJoin outcomeAccession cohortAccession input.outcomes cohort
  ensureValid (∀ o ∈ input.outcomes, outcomeCell o "status" ∈ publishedStatuses)
    "refusal outcome blocks publication"
  ensureValid (∀ o ∈ input.outcomes, matchRows outcomeAccession cohortAccession cohort o ≠ [])
    "an outcome is absent from the cohort projection"
  ensureValid (∀ j ∈ facts, outcomeCell j.1 "index_url" = cohortCell j.2 "index_url")
    "outcome URL differs from its projected accession"
  ensureValid (cohort.map cohortAccession).Nodup
    "cohort accession projection contains duplicate accessions"
  ensureValid (input.cohortSources.map sourceEdge).Nodup
    "cohort source projection contains duplicate edges"
  ensureValid (∀ o ∈ input.outcomes, outcomeCell o "entry_count" =
      number (((matchRows outcomeAccession entryAccession input.entries o).countP fun e =>
        (entrySchema.cell e "entry_id").isSome) : Nat))
    "outcome entry count differs from its entry rows"
  ensureValid (∀ j ∈ innerJoin cohortAccession rowAccession cohort (parent .accessions),
      ∀ column ∈ ["form", "filing_date", "report_date"],
        cohortCell j.1 column = snapshotAccessionsSchema.cell j.2 column)
    "cohort metadata conflicts with the current snapshot"
  ensureValid (∀ s ∈ input.cohortSources,
      matchRows sourceAccession rowAccession (parent .accessions) s ≠ [] ∨
        matchRows sourceAccession outcomeAccession input.outcomes s ≠ [])
    "cohort source edge has no accession facts"

/-- `SELECT c.accession, …, coalesce(p.first_indexed_by, ?)` -/
def deltaAccessionRow (sourceIdentity : String) (c o : Row Cell) (p : Option (Row Cell)) : Row Cell :=
  [cohortCell c "accession", cohortCell c "filing_cik", cohortCell c "form",
    cohortCell c "filing_date", cohortCell c "report_date", outcomeCell o "bundle_url",
    outcomeCell o "bundle_size", cohortCell c "index_url", outcomeDigest o,
    ((p.bind fun p => snapshotAccessionsSchema.cell p "first_indexed_by").orElse
      fun _ => text sourceIdentity)]

/-- `p.accession IS NULL OR p.index_sha256 IS DISTINCT FROM o.page_sha256` -/
def isChanged (o : Row Cell) : Option (Row Cell) → Bool
  | none => true
  | some p => rowDigest p ≠ outcomeDigest o

/-- The cohort row, the outcome and the parent row of every row of `delta_accessions`. -/
def deltaAccessionJoin (parent : Table Cell) (refresh : Bool) (cohort eligible : Table Cell) :
    List ((Row Cell × Row Cell) × Option (Row Cell)) :=
  (leftJoin (fun j => cohortAccession j.1) rowAccession
    (innerJoin cohortAccession outcomeAccession cohort eligible) parent).filter fun j =>
      outcomeCell j.1.2 "status" ∈ publishedStatuses ∧ (refresh = true → isChanged j.1.2 j.2 = true)

def enumerationRow (d o : Row Cell) : Row Cell :=
  [rowAccession d, outcomeVehicle o, outcomeCell o "source_url", outcomeDigest o]

def createMergeRelations (parent : InventoryRelation → Table Cell) (input : RunInput)
    (eligible candidates newSources : Table Cell) : Except ValidationFailed MergeRelations := do
  checkStaged parent input
  let delta := (deltaAccessionJoin (parent .accessions) input.refresh input.cohortAccessions
    eligible).map fun j => deltaAccessionRow input.sourceIdentity j.1.1 j.1.2 j.2
  return {
    deltaAccessions := delta
    deltaEntries := (innerJoin entryAccession rowAccession candidates delta).map Prod.fst
    deltaSources := newSources
    deltaEnumeration := ((innerJoin rowAccession outcomeAccession delta input.outcomes).filter
      fun j => outcomeVehicle j.2 ∈ enumeratingVehicles).map fun j => enumerationRow j.1 j.2 }

def mergeRelations (lineage : Lineage) (input : RunInput) : Except ValidationFailed MergeRelations := do
  let parent := fun r => lineage.parentRows r
  let joined ← antiJoin parent input
  let eligible := joined.newAccessions ++ if input.refresh then joined.knownAccessions else []
  createMergeRelations parent input eligible joined.candidateEntries joined.newSources

/-! ## Publishing -/

def relationPart (rows : Table Cell) : List (Table Cell) := if rows = [] then [] else [rows]

section Publishing
variable (choice : Choice)

def sortedBy (schema : Schema) (columns : List String) (rows : Table Cell) : Table Cell :=
  choice.sort (columnsBefore schema columns) rows

def writtenParts (merge : MergeRelations) : InventoryRelation → List (Table Cell)
  | .accessions => relationPart
    (sortedBy choice snapshotAccessionsSchema ["form", "filing_date", "accession"] merge.deltaAccessions)
  | .entries => relationPart
    ((choice.sort entryOrder (withAccession merge.deltaEntries merge.deltaAccessions)).map Prod.fst)
  | .accessionSources => relationPart
    (sortedBy choice snapshotAccessionSourcesSchema ["source_cik", "accession"] merge.deltaSources)
  | .accessionEnumeration => relationPart
    (sortedBy choice snapshotEnumerationSchema ["accession"] merge.deltaEnumeration)

def publishedVersions : List (String × String) :=
  [("accessions", snapshotRelationVersion), ("entries", "1"),
    ("accession_enumeration", snapshotRelationVersion)]

def publishedNode (merge : MergeRelations) : SnapshotNode := ⟨publishedVersions, writtenParts choice merge⟩

inductive SnapshotPublication where
  | noOp
  | published (node : SnapshotNode)

variable (isDate : String → Bool)

def validateTip (lineage : Lineage) : Except ValidationFailed Unit :=
  match lineage.getLast? with
  | none => .ok ()
  | some tip => validateSnapshot choice isDate lineage.dropLast tip

def publishCommittedChunks (lineage : Lineage) (input : RunInput) :
    Except ValidationFailed SnapshotPublication := do
  ensureValid (cohortAccessionsSchema.Fits input.cohortAccessions) "cohort accessions schema mismatch"
  ensureValid (snapshotAccessionSourcesSchema.Fits input.cohortSources) "cohort sources schema mismatch"
  validateTip choice isDate lineage
  let merge ← mergeRelations lineage input
  if lineage ≠ [] ∧ merge.deltaAccessions = [] ∧ merge.deltaSources = [] then return .noOp
  else
    let node := publishedNode choice merge
    validateSnapshot choice isDate lineage node
    return .published node

end Publishing

end EdgarSec.Inventory
