import EdgarSec.Lib.Transition

/-! `StagedParquetWriter`: a stage that is written lazily, and its promotion to the final file. -/

namespace EdgarSec.Storage
open Lib

/-! ## Files and handles -/

inductive Content (S R : Type) where
  | table (schema : S) (rows : List R)
  | broken
deriving DecidableEq

/-- The final file and its sibling `.tmp`. -/
structure Disk (S R : Type) where
  final : Option (Content S R)
  stage : Option (Content S R)
deriving DecidableEq

/-- An open `pq.ParquetWriter`: the rows its file will have, or one whose footer could not be
written, which a second `close` does not try again. -/
inductive Handle (R : Type) where
  | writing (rows : List R)
  | spoiled
deriving DecidableEq

structure Settings (S R : Type) where
  schema : S
  columns : S → List String
  idColumn : Option String
  idOf : R → Option String
  preserveOnError : Bool

structure StagedParquetWriter (R : Type) where
  writer : Option (Handle R)
  rowCount : Nat
  closed : Bool
  preloaded : Option (List R)
deriving DecidableEq

inductive Failure where
  | closedWriter
  | arrow
  | missingStage
  | rowCount (expected actual : Nat)
deriving DecidableEq

inductive Outcome where
  | returned (rows : Nat)
  | raised (failure : Failure)
deriving DecidableEq

/-- `pq.ParquetWriter(...)` raises, before or after it has emptied the file, or the preloaded rows
cannot be written: `left` are those the file has then. -/
inductive EnsureFault (R : Type) where
  | openFails (truncated : Bool)
  | preloadFails (left : List R)

/-- The batch cannot be written: `left` are the rows of it that the file has then. -/
inductive WriteFault (R : Type) where
  | ensure (fault : EnsureFault R)
  | batchFails (left : List R)

def ensureFault {R : Type} : Option (WriteFault R) → Option (EnsureFault R)
  | some (.ensure fault) => some fault
  | _ => none

structure CommitFaults (R : Type) where
  ensure : Option (EnsureFault R)
  closeFails : Bool
  countFails : Bool
  replaceFails : Bool

section Writer
variable {S R : Type}

structure State (S R : Type) where
  disk : Disk S R
  object : StagedParquetWriter R
deriving DecidableEq

namespace State
variable (s : State S R) (cfg : Settings S R)

/-- `self._writer.close()`, which writes the footer. -/
def closeHandle (handle : Handle R) (fails : Bool) : State S R × Bool :=
  match handle with
  | .spoiled => (s, true)
  | .writing rows =>
    if fails then
      ({ s with disk.stage := some .broken, object.writer := some .spoiled }, false)
    else ({ s with disk.stage := some (.table cfg.schema rows) }, true)

def reset (closeFails unlinkFails : Bool) : State S R :=
  let closed :=
    match s.object.writer with
    | some handle => (s.closeHandle cfg handle closeFails).1
    | none => s
  { disk := if unlinkFails then closed.disk else { closed.disk with stage := none }
    object := ⟨none, 0, false, none⟩ }

def getExistingIds [DecidableEq S] (readFails unlinkFails : Bool) : State S R × List String :=
  match s.disk.stage, cfg.idColumn with
  | some content, some column =>
    if column = "" then (s, [])
    else
      match content, readFails with
      | .table schema rows, false =>
        if column ∉ cfg.columns schema ∨ schema ≠ cfg.schema then
          (s.reset cfg false unlinkFails, [])
        else ({ s with object.preloaded := some rows }, rows.filterMap cfg.idOf)
      | _, _ => (s.reset cfg false unlinkFails, [])
  | _, _ => (s, [])

/-- `_ensure_writer`: opening the file empties it, and the preloaded rows go in first. -/
def ensureWriter (fault : Option (EnsureFault R)) : State S R × Bool :=
  match s.object.writer with
  | some _ => (s, true)
  | none =>
    match fault with
    | some (.openFails truncated) =>
      (if truncated then { s with disk.stage := some .broken } else s, false)
    | fault =>
      match s.object.preloaded with
      | some (row :: rows) =>
        match fault with
        | some (.preloadFails left) =>
          ({ s with disk.stage := some .broken, object.writer := some (.writing left) }, false)
        | _ =>
          ({ disk := { s.disk with stage := some .broken }
             object := ⟨some (.writing (row :: rows)), s.object.rowCount + (row :: rows).length,
              s.object.closed, none⟩ }, true)
      | _ => ({ s with disk.stage := some .broken, object.writer := some (.writing []) }, true)

def appendBatch (batch : List R) (fault : Option (WriteFault R)) : State S R × Outcome :=
  match s.object.writer with
  | some (.writing rows) =>
    match fault with
    | some (.batchFails left) =>
      ({ s with object.writer := some (.writing (rows ++ left)) }, .raised .arrow)
    | _ =>
      ({ disk := s.disk
         object := ⟨some (.writing (rows ++ batch)), s.object.rowCount + batch.length,
          s.object.closed, s.object.preloaded⟩ }, .returned batch.length)
  | _ => (s, .raised .arrow)

def writeBatch (batch : List R) (fault : Option (WriteFault R)) : State S R × Outcome :=
  if s.object.closed then (s, .raised .closedWriter)
  else
    let ensured := s.ensureWriter (ensureFault fault)
    if !ensured.2 then (ensured.1, .raised .arrow) else ensured.1.appendBatch batch fault

def createStage (faults : CommitFaults R) : State S R × Bool :=
  if s.object.writer.isNone && s.disk.stage.isNone then s.ensureWriter faults.ensure else (s, true)

def openPreloaded (faults : CommitFaults R) : State S R × Bool :=
  match s.object.writer, s.object.preloaded with
  | none, some _ => s.ensureWriter faults.ensure
  | _, _ => (s, true)

def closeStage (faults : CommitFaults R) : State S R × Bool :=
  match s.object.writer with
  | some handle =>
    let closed := s.closeHandle cfg handle faults.closeFails
    if closed.2 then ({ closed.1 with object.writer := none }, true) else closed
  | none => (s, true)

/-- The first half of `commit`: every row is on the stage, and no file is open. -/
def settle (faults : CommitFaults R) : State S R × Bool :=
  let created := s.createStage faults
  if !created.2 then created
  else
    let opened := created.1.openPreloaded faults
    if !opened.2 then opened else opened.1.closeStage cfg faults

def promote (expected : Option Nat) (faults : CommitFaults R) : State S R × Outcome :=
  match s.disk.stage with
  | none => (s, .raised .missingStage)
  | some .broken => (s, .raised .arrow)
  | some (.table schema rows) =>
    if faults.countFails then (s, .raised .arrow)
    else if expected.any (· ≠ rows.length) then
      (s, .raised (.rowCount (expected.getD 0) rows.length))
    else if faults.replaceFails then (s, .raised .arrow)
    else ({ s with disk := ⟨some (.table schema rows), none⟩ }, .returned rows.length)

def commit (expected : Option Nat) (faults : CommitFaults R) : State S R × Outcome :=
  if s.object.closed then (s, .returned s.object.rowCount)
  else
    let settled := s.settle cfg faults
    if !settled.2 then (settled.1, .raised .arrow)
    else
      -- closed from here on, whatever happens to the stage
      { settled.1 with object.closed := true }.promote expected faults

/-- `__exit__`, with an exception on its way or without one. -/
def exit (error closeFails unlinkFails : Bool) : State S R :=
  if error then
    if cfg.preserveOnError then
      match s.object.writer with
      | some handle =>
        { (s.closeHandle cfg handle closeFails).1 with object.writer := none }
      | none => s
    else s.reset cfg closeFails unlinkFails
  else
    match s.object.closed, s.object.writer with
    | false, some handle =>
      let closed := s.closeHandle cfg handle closeFails
      if closed.2 then { closed.1 with object.writer := none } else closed.1
    | _, _ => s

end State

/-! ## Runs of one writer -/

inductive Operation (R : Type) where
  | writeBatch (batch : List R) (fault : Option (WriteFault R))
  | commit (expected : Option Nat) (faults : CommitFaults R)
  | exit (error closeFails unlinkFails : Bool)

/-- What a call of `write_batch` has added to the rows that were given. -/
def givenAfter (given batch : List R) : Outcome → List R
  | .returned _ => given ++ batch
  | .raised _ => given

/-- The state with what the writer was given, whether it has opened its file, and whether a
`commit` has raised. -/
structure Session (S R : Type) where
  state : State S R
  given : List R
  opened : Bool
  raised : Bool

namespace Session
variable (cfg : Settings S R)

def start [DecidableEq S] (disk : Disk S R) (preload : Option (Bool × Bool)) : Session S R :=
  let created : State S R := ⟨disk, ⟨none, 0, false, none⟩⟩
  let state :=
    match preload with
    | some (readFails, unlinkFails) => (created.getExistingIds cfg readFails unlinkFails).1
    | none => created
  ⟨state, state.object.preloaded.getD [], false, false⟩

def step (s : Session S R) : Operation R → Session S R
  | .writeBatch batch fault =>
    let written := s.state.writeBatch batch fault
    { state := written.1
      given := givenAfter s.given batch written.2
      opened := s.opened || written.1.object.writer.isSome
      raised := s.raised }
  | .commit expected faults =>
    let committed := s.state.commit cfg expected faults
    { state := committed.1
      given := s.given
      opened := s.opened || committed.1.object.writer.isSome
      raised := match committed.2 with
        | .returned _ => s.raised
        | .raised _ => true }
  | .exit error closeFails unlinkFails =>
    { s with state := s.state.exit cfg error closeFails unlinkFails }

end Session
end Writer
end EdgarSec.Storage
