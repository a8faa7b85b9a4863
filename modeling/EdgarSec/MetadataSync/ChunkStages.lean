import EdgarSec.MetadataSync.Checkpoints
import EdgarSec.Lib.Transition

/-! `run_chunk` on one chunk and the staged writer under it, cut at its file operations: any
number of calls one after the other, each of which may raise or be killed at any of them. -/

namespace EdgarSec.MetadataSync
open Lib

variable {ρ : Type}

/-- The arguments of one `run_chunk` call. `CarryProvider` keys the carried rows by their CIK. -/
structure ChunkCall (ρ : Type) where
  plan : Plan
  snapshotId : Option String
  force : Bool
  fingerprints : Option (Dict String String)
  carryRows : Dict String (Row ρ)
  carryRows_keyed : ∀ e ∈ carryRows.items, e.2.cik = e.1

structure ChunkResult where
  chunkId : Nat
  rowCount : Nat
  skippedExisting : Bool
  statuses : Dict String Nat
  historicalFiles : Nat

structure Fetched (ρ : Type) where
  fetchedAt : String
  status : String
  historicalFilesTotal : Nat
  columns : ρ

namespace ChunkCall

def inspect (call : ChunkCall ρ) (fileSha256 : ParquetFile ρ → String) (chunkId : Nat)
    (file : Option (ParquetFile ρ)) : Option ChunkInfo :=
  inspectChunk fileSha256 chunkId file (some (call.plan.chunkCiks chunkId))
    (orNone call.plan.inputFingerprint) call.fingerprints

def fingerprintFor (call : ChunkCall ρ) (cik : String) : String :=
  match call.fingerprints with
  | none => call.plan.inputFingerprint
  | some fingerprints => (fingerprints.get? cik).getD call.plan.inputFingerprint

/-- `normalize_one_cik`: the row of what was fetched. -/
def normalizeOneCik (call : ChunkCall ρ) (cik : String) (fetched : Fetched ρ) : Row ρ where
  cik := cik
  snapshotId := call.snapshotId
  fetchedAt := some fetched.fetchedAt
  status := fetched.status
  inputFingerprint := some (call.fingerprintFor cik)
  historicalFilesTotal := some fetched.historicalFilesTotal
  columns := fetched.columns

def carried (call : ChunkCall ρ) (ciks : List String) : List (Row ρ) := ciks.filterMap call.carryRows.get?

def uncarried (call : ChunkCall ρ) (ciks : List String) : List String :=
  ciks.filter fun cik => !call.carryRows.contains cik

end ChunkCall

/-- `StagedParquetWriter`: the rows read back from the stage, and those given to an open
Parquet writer. -/
structure StagedParquetWriter (ρ : Type) where
  preloaded : Option (List (Row ρ))
  written : Option (List (Row ρ))

inductive ChunkPhase (ρ : Type) where
  | idle
  | starting (call : ChunkCall ρ)
  | staging (call : ChunkCall ρ)
  | carrying (call : ChunkCall ρ) (remaining : List String)
  | fetching (call : ChunkCall ρ) (remaining : List String)
  | committing (call : ChunkCall ρ)
  | closing (call : ChunkCall ρ)
  | counting (call : ChunkCall ρ)
  | replacing (call : ChunkCall ρ) (totalRows : Nat)
  | summarizing (call : ChunkCall ρ) (totalRows : Nat)
  | returned (call : ChunkCall ρ) (result : ChunkResult)

structure ChunkFiles (ρ : Type) where
  file : Option (ParquetFile ρ)
  tmp : Option (ParquetFile ρ)
  writer : StagedParquetWriter ρ
  phase : ChunkPhase ρ

/-- `advance` takes the next operation, `fetched` completes the fetch of one CIK. An exception
leaves through `__exit__`, which closes an open Parquet writer where that succeeds. -/
inductive ChunkAction (ρ : Type) where
  | call (call : ChunkCall ρ)
  | advance
  | fetched (cik : String) (fetched : Fetched ρ)
  | raise (closes : Bool)
  | kill

def countRows : ParquetFile ρ → Option Nat
  | .table rows => some rows.length
  | .otherSchema rowCount => some rowCount
  | .unreadable => none

def countStatuses (rows : List (Row ρ)) : Dict String Nat :=
  rows.foldl (fun statuses row => statuses.set row.status ((statuses.get? row.status).getD 0 + 1)) .empty

namespace ChunkFiles

def initial (file : Option (ParquetFile ρ)) : ChunkFiles ρ := ⟨file, none, ⟨none, none⟩, .idle⟩

def become (s : ChunkFiles ρ) (phase : ChunkPhase ρ) : ChunkFiles ρ := { s with phase }

/-- `_ensure_writer`: the stage is truncated, and no Parquet file until the writer is closed. -/
def ensureWriter (s : ChunkFiles ρ) : ChunkFiles ρ :=
  match s.writer.written with
  | some _ => s
  | none => { s with tmp := some .unreadable, writer := ⟨none, some (s.writer.preloaded.getD [])⟩ }

def writeBatch (s : ChunkFiles ρ) (rows : List (Row ρ)) : ChunkFiles ρ :=
  let s := s.ensureWriter
  { s with writer := { s.writer with written := s.writer.written.map (· ++ rows) } }

def closeWriter (s : ChunkFiles ρ) : ChunkFiles ρ :=
  match s.writer.written with
  | some rows => { s with tmp := some (.table rows), writer := { s.writer with written := none } }
  | none => s

/-- `get_existing_ids`; a stage that cannot be used is removed. -/
def loadStage (s : ChunkFiles ρ) : ChunkFiles ρ :=
  match s.tmp with
  | none => s
  | some (.table rows) => { s with writer := ⟨some rows, none⟩ }
  | some _ => { s with tmp := none, writer := ⟨none, none⟩ }

def existingIds (s : ChunkFiles ρ) : List String := (s.writer.preloaded.getD []).map Row.cik

section
variable (fileSha256 : ParquetFile ρ → String) (chunkId : Nat)

def advance (s : ChunkFiles ρ) : ChunkPhase ρ → ChunkFiles ρ
  | .idle => s
  | .starting call =>
    match call.plan.requireChunk chunkId with
    | .error _ => s.become .idle
    | .ok () =>
      if call.force then s.become (.staging call)
      else
        match call.inspect fileSha256 chunkId s.file with
        | some existing => s.become (.returned call ⟨chunkId, existing.rowCount, true, .empty, 0⟩)
        | none => s.become (.staging call)
  | .staging call =>
    let s := { s with writer := ⟨none, none⟩ }
    let s := if call.force then s else s.loadStage
    s.become (.carrying call ((call.plan.chunkCiks chunkId).filter (· ∉ s.existingIds)))
  | .carrying call remaining =>
    if call.carried remaining = [] then s.become (.fetching call remaining)
    else (s.writeBatch (call.carried remaining)).become (.fetching call (call.uncarried remaining))
  | .fetching call remaining => if remaining = [] then s.become (.committing call) else s
  | .committing call =>
    match s.writer.written, s.writer.preloaded, s.tmp with
    | none, none, some _ => s.become (.closing call)
    | _, _, _ => s.ensureWriter.become (.closing call)
  | .closing call => s.closeWriter.become (.counting call)
  | .counting call =>
    match s.tmp.bind countRows with
    | none => s.become .idle
    | some actualRows =>
      if actualRows = (call.plan.chunkCiks chunkId).length then s.become (.replacing call actualRows)
      else s.become .idle
  | .replacing call totalRows => { s with file := s.tmp, tmp := none, phase := .summarizing call totalRows }
  | .summarizing call totalRows =>
    match s.file with
    | some (.table rows) =>
      s.become (.returned call ⟨chunkId, totalRows, false, countStatuses rows,
        (rows.filterMap Row.historicalFilesTotal).sum⟩)
    | _ => s.become .idle
  | .returned call result => s.become (.returned call result)

def raise (s : ChunkFiles ρ) (closes : Bool) : ChunkFiles ρ :=
  let s := if closes then s.closeWriter else s
  { s with writer := ⟨none, none⟩, phase := .idle }

def kill (s : ChunkFiles ρ) : ChunkFiles ρ := { s with writer := ⟨none, none⟩, phase := .idle }

def step (s : ChunkFiles ρ) : ChunkAction ρ → Option (ChunkFiles ρ)
  | .call call =>
    match s.phase with
    | .idle | .returned _ _ => some (s.become (.starting call))
    | _ => none
  | .advance => some (s.advance fileSha256 chunkId s.phase)
  | .fetched cik fetched =>
    match s.phase with
    | .fetching call remaining =>
      if cik ∈ remaining then
        some ((s.writeBatch [call.normalizeOneCik cik fetched]).become
          (.fetching call (remaining.erase cik)))
      else none
    | _ => none
  | .raise closes =>
    match s.phase with
    | .idle | .returned _ _ => none
    | _ => some (s.raise closes)
  | .kill => some s.kill

end
end ChunkFiles
end EdgarSec.MetadataSync
