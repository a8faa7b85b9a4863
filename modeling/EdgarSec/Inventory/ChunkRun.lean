import EdgarSec.Inventory.Attempts
import EdgarSec.Lib.Transition

/-! The coordinator at work on one chunk: every durable write is a step of its own, and
the process may die before each of them. -/

namespace EdgarSec.Inventory
open Foundation Lib Dag

structure ChunkWork where
  run : InventoryRunManifest
  chunkDir : String
  ordinal : Nat
  members : List IndexWorkItem
  deriving DecidableEq, Repr

/-- How `_decide_chunk` wants a chunk processed, when it is not to be skipped. -/
inductive Mode where
  | fresh
  | freshReset
  | retry (priorAttemptId : String)
  deriving DecidableEq, Repr

namespace Mode

def purpose : Mode → Purpose
  | fresh => .fresh
  | freshReset => .fresh
  | retry _ => .retry

def sourceAttemptId : Mode → Option String
  | fresh => none
  | freshReset => none
  | retry prior => some prior

def forceNew : Mode → Bool
  | freshReset => true
  | _ => false

end Mode

inductive Phase where
  | idle
  | created (mode : Mode) (attemptId : String)
  | seeding (attemptId prior : String) (rest : Table Cell)
  | recording (attemptId : String) (pending : List IndexWorkItem)
  | exporting (attemptId : String)
  | exportingEntries (attemptId : String)
  | finalizing (attemptId : String)
  | pointing (attemptId : String)
  deriving DecidableEq, Repr

structure Recorded where
  result : TypedResult
  indexUrl : String

namespace Recorded

def row (x : Recorded) : Row Cell := (outcomeRow x.result.result x.indexUrl).row

def entryRows (x : Recorded) : Table Cell := x.result.result.entries.map entryValues

def accession (x : Recorded) : Option Cell := text x.result.result.accession

end Recorded

/-- The state of a chunk. `journal` has for each attempt the results that were recorded in it
or carried into it, and `committed` the attempts the pointer has named. -/
structure ChunkState where
  store : ChunkStore
  phase : Phase
  journal : String → List Recorded
  committed : List String

def ChunkState.start : ChunkState := ⟨.empty, .idle, fun _ => [], []⟩

inductive Event where
  | call (retryFailures : Bool) (random : List.Vector UInt8 8)
  | advance (now : String)
  | result (r : TypedResult)
  | crash (outcomes entries : Leftover)

section Step
variable (engine : Engine Cell) (sha256 : Bytes → String) (work : ChunkWork)

def ChunkWork.identity : ChunkIdentity :=
  chunkIdentity sha256 work.run.workOrderVersion work.ordinal work.members

def ChunkWork.metadata (mode : Mode) (attemptId : String) : ProgressMetadata :=
  progressMetadata work.run (work.identity sha256) attemptId mode.purpose mode.sourceAttemptId

/-- `_decide_chunk`: nothing for a chunk that is skipped. -/
def decideChunk (store : ChunkStore) (retryFailures : Bool) : Except InventoryError (Option Mode) :=
  let validation := validateCommittedChunk engine sha256 store work.run (work.identity sha256)
  match validation.valid, validation.attemptId, validation.manifest with
  | true, some attemptId, some _ =>
    (readParquet engine (store.attempts attemptId).outcomes).map fun outcomes =>
      let retryCount := outcomes.rows.countP fun row => isRetryable row
      if retryCount ≠ 0 ∧ retryFailures = true then some (.retry attemptId) else none
  | _, _, _ => .ok (some (if store.chunkPointer.isSome then .freshReset else .fresh))

/-- The attempt `open_progress` goes on with. -/
def resumable (store : ChunkStore) (mode : Mode) : Option String :=
  match store.progressPointer with
  | none => none
  | some pointer =>
    if mode.forceNew = true then none
    else if pointer.chunkId ≠ (work.identity sha256).chunkId then none
    else
      match (store.attempts pointer.attemptId).database with
      | none => none
      | some db =>
        match db.validate (work.metadata sha256 mode pointer.attemptId) with
        | .ok () => some pointer.attemptId
        | .error _ => none

def fetchPhase (store : ChunkStore) (attemptId : String) : Phase :=
  match (store.attempts attemptId).database with
  | none => .idle
  | some db =>
    match db.completedAccessions work.members with
    | .error _ => .idle
    | .ok missing => .recording attemptId (work.members.filter (·.accession ∈ missing))

def openedPhase (store : ChunkStore) (mode : Mode) (attemptId : String) : Phase :=
  match mode with
  | .retry prior =>
    match readParquet engine (store.attempts prior).outcomes with
    | .error _ => .idle
    | .ok outcomes =>
      .seeding attemptId prior
        (engine.sort (columnsBefore outcomeSchema ["accession"]) outcomes.rows)
  | _ => fetchPhase work store attemptId

end Step

namespace ChunkState

def setPhase (s : ChunkState) (phase : Phase) : ChunkState := { s with phase := phase }

def put (s : ChunkState) (attemptId : String) (attempt : Attempt) (journal : List Recorded) :
    ChunkState :=
  { s with
    store := { s.store with attempts := Function.update s.store.attempts attemptId attempt }
    journal := Function.update s.journal attemptId journal }

def setProgressPointer (s : ChunkState) (pointer : ProgressPointer) : ChunkState :=
  { s with store := { s.store with progressPointer := pointer } }

def advancePointer (s : ChunkState) (pointer : ChunkPointer) : ChunkState :=
  { s with
    store := { s.store with chunkPointer := pointer }
    committed := s.committed ++ [pointer.attemptId] }

def attempt (s : ChunkState) (attemptId : String) : Attempt := s.store.attempts attemptId

section Step
variable (engine : Engine Cell) (sha256 : Bytes → String) (work : ChunkWork)

def call (s : ChunkState) (retryFailures : Bool) (random : List.Vector UInt8 8) : ChunkState :=
  match decideChunk engine sha256 work s.store retryFailures with
  | .error _ => s
  | .ok none => s
  | .ok (some mode) =>
    match resumable sha256 work s.store mode with
    | some attemptId => s.setPhase (openedPhase engine work s.store mode attemptId)
    | none =>
      let attemptId := newAttemptId random
      -- the tables of an older database of that name are in the way
      if (s.attempt attemptId).database.isSome then s
      else
        (s.put attemptId { s.attempt attemptId with
          database := some (.create (work.metadata sha256 mode attemptId)) } []).setPhase
          (.created mode attemptId)

/-- One turn of `seed_carry`. -/
def seed (s : ChunkState) (attemptId prior : String) (outcome : Row Cell) (rest : Table Cell) :
    ChunkState :=
  match (s.attempt attemptId).database, readParquet engine (s.attempt prior).entries with
  | some db, .ok entries =>
    match db.seedCarry engine.toChoice entries.rows outcome with
    | .error _ => s.setPhase .idle
    | .ok seeded =>
      let carried := if isRetryable outcome ∨ db.hasCompleted (outcomeAccession outcome) then []
        else (s.journal prior).filter (·.accession = outcomeAccession outcome)
      (s.put attemptId { s.attempt attemptId with database := some seeded }
        (s.journal attemptId ++ carried)).setPhase (.seeding attemptId prior rest)
  | _, _ => s.setPhase .idle

def exportTo (s : ChunkState) (attemptId : String) : ChunkState :=
  match (s.attempt attemptId).database with
  | none => s.setPhase .idle
  | some db =>
    match commitStaged engine outcomeSchema (db.exportOutcomes engine.toChoice)
        (s.attempt attemptId).outcomes with
    | .error _ => s.setPhase .idle
    | .ok file =>
      (s.put attemptId { s.attempt attemptId with outcomes := file }
        (s.journal attemptId)).setPhase (.exportingEntries attemptId)

def exportEntriesTo (s : ChunkState) (attemptId : String) : ChunkState :=
  match (s.attempt attemptId).database with
  | none => s.setPhase .idle
  | some db =>
    match commitStaged engine entrySchema (db.exportEntries engine.toChoice)
        (s.attempt attemptId).entries with
    | .error _ => s.setPhase .idle
    | .ok file =>
      (s.put attemptId { s.attempt attemptId with entries := file }
        (s.journal attemptId)).setPhase (.finalizing attemptId)

def finalize (s : ChunkState) (attemptId now : String) : ChunkState :=
  match finalizeAttempt engine sha256 work.chunkDir (work.identity sha256).chunkId attemptId
      (accessions work.members) work.run now (s.attempt attemptId) with
  | .error _ => s.setPhase .idle
  | .ok manifest =>
    (s.put attemptId { s.attempt attemptId with manifest := some manifest }
      (s.journal attemptId)).setPhase (.pointing attemptId)

/-- The next thing the call does by itself. Recording ends when the results are in or a stop
is requested. -/
def advance (s : ChunkState) (now : String) : Option ChunkState :=
  match s.phase with
  | .idle => none
  | .created mode attemptId =>
    let pointed := s.setProgressPointer ⟨(work.identity sha256).chunkId, attemptId⟩
    some (pointed.setPhase (openedPhase engine work pointed.store mode attemptId))
  | .seeding attemptId _ [] => some (s.setPhase (fetchPhase work s.store attemptId))
  | .seeding attemptId prior (outcome :: rest) => some (s.seed engine attemptId prior outcome rest)
  | .recording attemptId _ =>
    match fetchPhase work s.store attemptId with
    | .recording _ [] => some (s.setPhase (.exporting attemptId))
    | _ => some (s.setPhase .idle)
  | .exporting attemptId => some (s.exportTo engine attemptId)
  | .exportingEntries attemptId => some (s.exportEntriesTo engine attemptId)
  | .finalizing attemptId => some (s.finalize engine sha256 work attemptId now)
  | .pointing attemptId =>
    some ((s.advancePointer ⟨(work.identity sha256).chunkId, attemptId, now⟩).setPhase .idle)

def recordResult (s : ChunkState) (r : TypedResult) : Option ChunkState :=
  match s.phase with
  | .recording attemptId pending =>
    match (s.attempt attemptId).database, urlIndex work.members r.result.accession with
    | some db, some indexUrl =>
      if r.result.accession ∈ accessions pending then
        match db.record r.result indexUrl with
        | .error _ => some (s.setPhase .idle)
        | .ok recorded =>
          some ((s.put attemptId { s.attempt attemptId with database := some recorded }
            (s.journal attemptId ++ [⟨r, indexUrl⟩])).setPhase
            (.recording attemptId (pending.eraseP (·.accession = r.result.accession))))
      else none
    | _, _ => none
  | _ => none

def crash (s : ChunkState) (outcomes entries : Leftover) : ChunkState :=
  match s.phase with
  | .exporting attemptId =>
    match (s.attempt attemptId).database with
    | none => s.setPhase .idle
    | some db =>
      (s.put attemptId { s.attempt attemptId with
        outcomes := leave engine outcomeSchema (db.exportOutcomes engine.toChoice)
          (s.attempt attemptId).outcomes outcomes
        entries := leave engine entrySchema (db.exportEntries engine.toChoice)
          (s.attempt attemptId).entries entries } (s.journal attemptId)).setPhase .idle
  | .exportingEntries attemptId =>
    match (s.attempt attemptId).database with
    | none => s.setPhase .idle
    | some db =>
      (s.put attemptId { s.attempt attemptId with
        entries := leave engine entrySchema (db.exportEntries engine.toChoice)
          (s.attempt attemptId).entries entries } (s.journal attemptId)).setPhase .idle
  | _ => s.setPhase .idle

def step (s : ChunkState) : Event → Option ChunkState
  | .call retryFailures random =>
    if s.phase = .idle then some (s.call engine sha256 work retryFailures random) else none
  | .advance now => s.advance engine sha256 work now
  | .result r => s.recordResult work r
  | .crash outcomes entries => some (s.crash engine outcomes entries)

end Step
end ChunkState
end EdgarSec.Inventory
