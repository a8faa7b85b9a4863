import EdgarSec.Dag.Compaction
import EdgarSec.Inventory.Outcomes

/-! The journal of a chunk attempt: a database that takes an accession with its outcome and
its entries in one transaction. -/

namespace EdgarSec.Inventory
open Foundation Lib Dag

inductive InventoryError where
  | constraintError (message : String)
  | valueError (message : String)
  | attemptValidationError (message : String)
  | osError (message : String)
  | keyError (key : String)
  deriving DecidableEq, Repr

def InventoryError.message : InventoryError → String
  | constraintError message => message
  | valueError message => message
  | attemptValidationError message => message
  | osError message => message
  | keyError key => pyRepr key

/-! ## The chunk -/

structure IndexWorkItem where
  accession : String
  indexUrl : String
  deriving DecidableEq, Repr

def accessions (members : List IndexWorkItem) : List String := members.map (·.accession)

/-- `_url_index`: of members with one accession the last one counts. -/
def urlIndex (members : List IndexWorkItem) (accession : String) : Option String :=
  (members.reverse.find? (·.accession = accession)).map (·.indexUrl)

structure InventoryRunManifest where
  runId : String
  workOrderVersion : String
  parserVersion : String
  deriving DecidableEq, Repr

structure ChunkIdentity where
  chunkId : String
  membershipDigest : String
  membershipCount : Nat
  deriving DecidableEq, Repr

def outcomeSchemaVersion : Nat := 2
def entrySchemaVersion : Nat := 1
def progressSchemaVersion : Nat := 2

section Digest
variable (sha256 : Bytes → String)

def membershipDigest (membership : List String) : String :=
  sha256Text sha256 (canonicalJson (.arr ((membership.insertionSort (· ≤ ·)).map .str)))

def sixDigits (n : Nat) : String := String.ofList ((Nat.toDigits 10 n).leftpad 6 '0')

def computeChunkId (workOrderVersion : String) (ordinal : Nat) (digest : String) (count : Nat) :
    String :=
  let hash := sha256Text sha256 (workOrderVersion ++ ":" ++ toString ordinal ++ ":" ++ digest ++ ":" ++
    toString count)
  "chunk-" ++ sixDigits ordinal ++ "-" ++ String.ofList (hash.toList.take 8)

/-- The identity `iter_work_order_chunks` gives the members of one batch. -/
def chunkIdentity (workOrderVersion : String) (ordinal : Nat) (members : List IndexWorkItem) :
    ChunkIdentity :=
  let digest := membershipDigest sha256 (accessions members)
  { chunkId := computeChunkId sha256 workOrderVersion ordinal digest members.length
    membershipDigest := digest
    membershipCount := members.length }

end Digest

/-! ## The store -/

inductive Purpose where
  | fresh
  | retry
  deriving DecidableEq, Repr

structure ProgressMetadata where
  runId : String
  chunkId : String
  attemptId : String
  workOrderVersion : String
  membershipDigest : String
  membershipCount : Nat
  parserVersion : String
  outcomeSchemaVersion : Nat
  entrySchemaVersion : Nat
  progressVersion : Nat
  purpose : Purpose
  sourceAttemptId : Option String
  deriving DecidableEq, Repr

def progressMetadata (run : InventoryRunManifest) (chunk : ChunkIdentity) (attemptId : String)
    (purpose : Purpose) (sourceAttemptId : Option String) : ProgressMetadata where
  runId := run.runId
  chunkId := chunk.chunkId
  attemptId := attemptId
  workOrderVersion := run.workOrderVersion
  membershipDigest := chunk.membershipDigest
  membershipCount := chunk.membershipCount
  parserVersion := run.parserVersion
  outcomeSchemaVersion := outcomeSchemaVersion
  entrySchemaVersion := entrySchemaVersion
  progressVersion := progressSchemaVersion
  purpose := purpose
  sourceAttemptId := sourceAttemptId

structure ProgressDatabase where
  payload : ProgressMetadata
  outcomes : Table Cell
  entries : Table Cell
  completed : List (Option Cell)

namespace ProgressDatabase

def create (metadata : ProgressMetadata) : ProgressDatabase := ⟨metadata, [], [], []⟩

def Consistent (db : ProgressDatabase) : Prop :=
  db.completed.length = db.outcomes.length ∧
    (∀ o ∈ db.outcomes, outcomeAccession o ∈ db.completed) ∧
    (∀ c ∈ db.completed, c ∈ db.outcomes.map outcomeAccession) ∧
    ∀ e ∈ db.entries, entryAccession e ∈ db.completed

instance (db : ProgressDatabase) : Decidable db.Consistent := inferInstanceAs (Decidable (_ ∧ _))

def validate (db : ProgressDatabase) (metadata : ProgressMetadata) : Except InventoryError Unit :=
  if db.payload ≠ metadata then .error (.valueError "progress metadata mismatch")
  else if ¬ db.Consistent then .error (.valueError "progress relations are inconsistent")
  else .ok ()

def completedAccessions (db : ProgressDatabase) (members : List IndexWorkItem) :
    Except InventoryError (List String) :=
  let expected := (accessions members).map text
  if (∀ o ∈ db.outcomes, outcomeAccession o ∈ expected) ∧
      ∀ e ∈ db.entries, entryAccession e ∈ expected then
    .ok (((accessions members).filter (text · ∉ db.completed)).insertionSort (· ≤ ·))
  else .error (.valueError "progress rows fall outside chunk membership")

def hasCompleted (db : ProgressDatabase) (accession : Option Cell) : Bool :=
  decide (accession ∈ db.completed)

/-- One transaction; `accession` is a primary key of `outcomes` and of `completed`. -/
def importAccession (db : ProgressDatabase) (outcome : Row Cell) (entries : Table Cell) :
    Except InventoryError ProgressDatabase :=
  let accession := outcomeAccession outcome
  if accession = none then .error (.constraintError "NOT NULL constraint failed: outcomes.accession")
  else if accession ∈ db.outcomes.map outcomeAccession ∨ accession ∈ db.completed then
    .error (.constraintError "Duplicate key violates primary key constraint")
  else .ok { db with
    outcomes := db.outcomes ++ [outcome]
    entries := db.entries ++ entries
    completed := db.completed ++ [accession] }

def record (db : ProgressDatabase) (result : WorkerResult) (indexUrl : String) :
    Except InventoryError ProgressDatabase :=
  db.importAccession (outcomeRow result indexUrl).row (result.entries.map entryValues)

section Order
variable (choice : Choice)

/-- `SELECT * FROM outcomes ORDER BY accession` -/
def exportOutcomes (db : ProgressDatabase) : Table Cell :=
  choice.sort (columnsBefore outcomeSchema ["accession"]) db.outcomes

/-- `SELECT * FROM entries ORDER BY accession, entry_id` -/
def exportEntries (db : ProgressDatabase) : Table Cell :=
  choice.sort (columnsBefore entrySchema ["accession", "entry_id"]) db.entries

def carriedEntries (entries : Table Cell) (accession : Option Cell) : Table Cell :=
  choice.sort (columnsBefore entrySchema ["entry_id"]) (entries.filter fun e =>
    (entryAccession e).isSome ∧ entryAccession e = accession)

/-- One turn of the loop of `seed_carry`. -/
def seedCarry (db : ProgressDatabase) (entries : Table Cell) (outcome : Row Cell) :
    Except InventoryError ProgressDatabase :=
  if isRetryable outcome then .ok db
  else if db.hasCompleted (outcomeAccession outcome) then .ok db
  else db.importAccession outcome (carriedEntries choice entries (outcomeAccession outcome))

end Order

end ProgressDatabase
end EdgarSec.Inventory
