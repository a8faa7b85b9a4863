import EdgarSec.Dag.StagedParts
import EdgarSec.MetadataSync.Checkpoints

/-! Publication of a metadata snapshot: the merge of a plan's chunk files, and the
augmentation of a published base with the chunks of a delta. -/

namespace EdgarSec.MetadataSync
open Foundation Lib Dag

/-- A row of `SUBMISSION_METADATA_SCHEMA` as a merge reads it: any column may be null. -/
structure DatasetRow (ρ : Type) where
  cik : Option String
  inputFingerprint : Option String
  status : Option String
  columns : ρ
  deriving DecidableEq

inductive DatasetFile (ρ : Type) where
  | table (rows : List (DatasetRow ρ))
  | otherSchema (rowCount : Nat)
  | unreadable
  deriving DecidableEq

structure PartPath where
  snapshotId : String
  name : String
  deriving DecidableEq

abbrev PartFiles (ρ : Type) := PartPath → Option (DatasetFile ρ)

structure RosterDataset (roster : Roster) where
  rows : List (String × Nat)
  perm : rows.Perm roster.ciks.zipIdx

structure PublishedPart where
  path : PartPath
  partIndex : Nat
  source : String
  rowCount : Nat
  sha256 : String
  deriving DecidableEq

structure MergeReport where
  snapshotId : String
  planId : String
  kind : String
  parentSnapshotId : String
  rosterId : String
  chunkCount : Nat
  rowCount : Nat
  parts : List PublishedPart
  cikIndex : List (Option String)
  deriving DecidableEq

/-- What `publish_parts` is given: a part of the base, or a chunk file to copy. -/
inductive PartSource (ρ : Type) where
  | base (label : String) (path : PartPath)
  | chunk (label : String) (file : DatasetFile ρ)

/-! ## Queries -/

section Queries
variable {ρ : Type}

def unreadable : String := "cannot read a Parquet file"

def readRows : DatasetFile ρ → Except String (List (DatasetRow ρ))
  | .table rows => .ok rows
  | _ => .error unreadable

def countParquetRows : DatasetFile ρ → Except String Nat
  | .table rows => .ok rows.length
  | .otherSchema rowCount => .ok rowCount
  | .unreadable => .error unreadable

/-- `SELECT cik FROM read_parquet([…])`. -/
def readCiks (files : List (DatasetFile ρ)) : Except String (List (Option String)) := do
  let tables ← files.mapM readRows
  .ok (tables.flatten.map DatasetRow.cik)

/-- `SELECT count(*) FROM (SELECT … EXCEPT SELECT …)`. -/
def exceptCount (a b : List (Option String)) : Nat := (a.filter fun cik => decide (cik ∉ b)).dedup.length

def findNullKeys (ciks : List (Option String)) : Nat := ciks.count none

def findDuplicateKeys (ciks : List (Option String)) : List (Option String) :=
  (ciks.filter fun cik => decide (1 < ciks.count cik)).dedup.take 100

/-- `SELECT DISTINCT cik … ORDER BY cik`. -/
def distinctCiks (ciks : List (Option String)) : List (Option String) :=
  ciks.dedup.insertionSort fun a b => a.getD "" ≤ b.getD ""

def pyReprInts (ids : List Int) : String := "[" ++ joinWith ", " (ids.map toString) ++ "]"

def pyReprCiks (ciks : List (Option String)) : String :=
  "[" ++ joinWith ", " (ciks.map pyReprOption) ++ "]"

end Queries

/-! ## Validation of the chunks -/

section Chunks
variable {ρ : Type} (chunkIdOf : String → Option Int)

def foundChunks (chunkDir : List (String × DatasetFile ρ)) : Dict Int (String × DatasetFile ρ) :=
  chunkDir.foldl (fun found (stem, file) =>
    match chunkIdOf stem with
    | none => found
    | some chunkId => found.set chunkId (stem, file)) .empty

def rejectChunk (chunkId : Nat) (reason : String) : String :=
  "merge rejected: chunk " ++ toString chunkId ++ " " ++ reason

def checkChunkRows (plan : Plan) (chunkId : Nat) : Option (String × DatasetFile ρ) → Except String Unit
  | some (_, .table rows) =>
    ensure (rows.length = plan.chunkLength chunkId) (rejectChunk chunkId
      ("row count " ++ toString rows.length ++ " != planned " ++ toString (plan.chunkLength chunkId)))
  | some (_, .otherSchema _) => .error (rejectChunk chunkId "schema drifted from the dataset contract")
  | _ => .error unreadable

def expectedCiks {roster : Roster} (dataset : RosterDataset roster) (start stop : Nat) :
    List (Option String) :=
  (dataset.rows.filter fun (_, ordinal) => decide (start ≤ ordinal ∧ ordinal < stop)).map fun (cik, _) => some cik

def foreignFingerprints (plan : Plan) (fingerprintsFile : Option (List (String × String)))
    (rows : List (DatasetRow ρ)) : Nat :=
  match fingerprintsFile with
  | none =>
    rows.countP fun row => row.inputFingerprint.any fun fingerprint =>
      decide (fingerprint ≠ "" ∧ fingerprint ≠ plan.inputFingerprint)
  | some recorded =>
    (rows.map fun row => recorded.countP fun (cik, fingerprint) =>
      decide (row.cik = some cik ∧ row.inputFingerprint ≠ some fingerprint)).sum

def isTerminal (status : Option String) : Bool :=
  status = some "ok" || status = some "partial" || status = some "failed"

def checkChunkContents (plan : Plan) (dataset : RosterDataset plan.roster)
    (fingerprintsFile : Option (List (String × String))) (chunkId : Nat) :
    Option (String × DatasetFile ρ) → Except String Unit
  | some (_, .table rows) => do
    let start := chunkId * plan.chunkSize
    let expected := expectedCiks dataset start (start + plan.chunkLength chunkId)
    let actual := rows.map DatasetRow.cik
    ensure (exceptCount expected actual + exceptCount actual expected = 0)
      (rejectChunk chunkId "CIK coverage differs from the plan")
    ensure (plan.inputFingerprint = "" ∨ foreignFingerprints plan fingerprintsFile rows = 0)
      (rejectChunk chunkId "carries a foreign input fingerprint")
    ensure (rows.all fun row => isTerminal row.status) (rejectChunk chunkId "contains non-terminal statuses")
  | _ => .error unreadable

def validateChunks (plan : Plan) (dataset : Option (RosterDataset plan.roster))
    (fingerprintsFile : Option (List (String × String))) (chunkDir : List (String × DatasetFile ρ)) :
    Except String (List (String × DatasetFile ρ)) := do
  let chunkIds := plan.chunkIds
  ensure ((chunkIds.map plan.chunkLength).sum = plan.roster.rowCount)
    "plan chunks do not cover the planned CIK count"
  let found := foundChunks chunkIdOf chunkDir
  let foreign := found.keys.filter fun chunkId => decide (chunkId ∉ chunkIds.map Int.ofNat)
  ensure (foreign = []) ("merge rejected: chunk files outside the plan: " ++
    pyReprInts (foreign.insertionSort (· ≤ ·)))
  let missing := (chunkIds.map Int.ofNat).filter fun chunkId => decide (chunkId ∉ found.keys)
  ensure (missing = []) ("merge rejected: missing chunk checkpoints: " ++ pyReprInts missing)
  chunkIds.forM fun chunkId => checkChunkRows plan chunkId (found.get? chunkId)
  match dataset with
  | none => .error "merge rejected: planned roster dataset is missing"
  | some dataset =>
    ensure (plan.isArchivePlan = true → fingerprintsFile.isSome = true)
      "merge rejected: archive plan is missing its fingerprint dataset"
    let fingerprints := if plan.isArchivePlan then fingerprintsFile else none
    chunkIds.forM fun chunkId => checkChunkContents plan dataset fingerprints chunkId (found.get? chunkId)
    .ok ((found.keys.insertionSort (· ≤ ·)).filterMap found.get?)

end Chunks

/-! ## Publication -/

section Publication
variable {ρ : Type} (chunkIdOf : String → Option Int) (fileSha256 : DatasetFile ρ → String)

def publishParts (snapshotId : String) (index chunkIndex : Nat) (files : PartFiles ρ) :
    List (PartSource ρ) → Except String (List PublishedPart × PartFiles ρ)
  | [] => .ok ([], files)
  | .base label path :: rest =>
    match files path with
    | none => .error ("ancestor part missing: " ++ path.snapshotId ++ "/parts/" ++ path.name)
    | some file => do
      let rowCount ← countParquetRows file
      let (parts, files) ← publishParts snapshotId (index + 1) chunkIndex files rest
      .ok (⟨path, index, label, rowCount, fileSha256 file⟩ :: parts, files)
  | .chunk label file :: rest =>
    let name := partFileName chunkIndex
    match file with
    | .table rows => do
      let (parts, files) ← publishParts snapshotId (index + 1) (chunkIndex + 1)
        (Function.update files ⟨snapshotId, name⟩ (some file)) rest
      .ok (⟨⟨snapshotId, name⟩, index, label, rows.length, fileSha256 file⟩ :: parts, files)
    | _ => .error ("merge rejected: published part " ++ name ++ " (from " ++ label ++
        ") schema drifted from the dataset contract")

def readPart (files : PartFiles ρ) (path : PartPath) : Except String (DatasetFile ρ) :=
  match files path with
  | some file => .ok file
  | none => .error unreadable

def readPartCiks (files : PartFiles ρ) (paths : List PartPath) : Except String (List (Option String)) := do
  readCiks (← paths.mapM (readPart files))

def publishCikIndex (files : PartFiles ρ) (paths : List PartPath) : Except String (List (Option String)) := do
  ensure (paths ≠ []) "published snapshot has no submissions parts"
  let ciks ← readPartCiks files paths
  ensure (distinctCiks ciks ≠ []) "a published CIK index must not be empty"
  .ok (distinctCiks ciks)

def sumRows (parts : List PublishedPart) : Nat := (parts.map PublishedPart.rowCount).sum

def chunkSources (chunks : List (String × DatasetFile ρ)) : List (PartSource ρ) :=
  chunks.map fun (stem, file) => .chunk ("chunk:" ++ stem) file

def mergeChunks (plan : Plan) (dataset : Option (RosterDataset plan.roster))
    (fingerprintsFile : Option (List (String × String))) (chunkDir : List (String × DatasetFile ρ))
    (snapshotId : String) (files : PartFiles ρ) : Except String (MergeReport × PartFiles ρ) := do
  ensure (plan.kind ≠ "delta") ("plan " ++ plan.planId ++ " is a delta plan over base " ++
    (if plan.parentId = "" then "?" else plan.parentId) ++
    " and cannot be merged on its own: a plain merge would publish only the delta and drop the base" ++
    " rows. Publish it with 'metadata augment --base-snapshot-id <base>'")
  let chunks ← validateChunks chunkIdOf plan dataset fingerprintsFile chunkDir
  let ciks ← readCiks (chunks.map Prod.snd)
  ensure (findNullKeys ciks = 0) ("merge rejected: " ++ toString (findNullKeys ciks) ++ " rows have a null CIK")
  ensure (findDuplicateKeys ciks = []) ("merge rejected: duplicate CIK rows across chunks: " ++
    pyReprCiks (findDuplicateKeys ciks))
  let (parts, files) ← publishParts fileSha256 snapshotId 0 0 files (chunkSources chunks)
  ensure (sumRows parts = plan.roster.rowCount) ("merge rejected: published row count " ++
    toString (sumRows parts) ++ " != planned " ++ toString plan.roster.rowCount)
  let cikIndex ← publishCikIndex files (parts.map PublishedPart.path)
  .ok (⟨snapshotId, plan.planId, plan.kind, plan.parentId, plan.roster.rosterId, chunks.length,
    sumRows parts, parts, cikIndex⟩, files)

end Publication

/-! ## Augmentation -/

section Augmentation
variable {ρ : Type} (fileSha256 : DatasetFile ρ → String) (sha256 : Bytes → String)

def resolvePart (files : PartFiles ρ) (part : PublishedPart) : Except String PartPath :=
  match files part.path with
  | none => .error ("DAG part is missing: " ++ part.path.name)
  | some file => do
    ensure (part.sha256 ≠ "" ∧ fileSha256 file = part.sha256) ("DAG part digest mismatch: " ++ part.path.name)
    .ok part.path

def resolveSnapshotParts (files : PartFiles ρ) (snapshot : MergeReport) : Except String (List PartPath) := do
  ensure (snapshot.parts ≠ []) ("snapshot " ++ pyRepr snapshot.snapshotId ++ " has no 'submissions' relation")
  snapshot.parts.mapM (resolvePart fileSha256 files)

def baseCiks (files : PartFiles ρ) (base : MergeReport) (resolvedIndex : Option (List (Option String))) :
    Except String (List (Option String)) :=
  match resolvedIndex with
  | some index => .ok index
  | none => do readPartCiks files (← resolveSnapshotParts fileSha256 files base)

def deltaRows (requested : Roster) (carried : List (Option String)) : List (String × String) :=
  requested.rows.filter fun row => decide (some row.1 ∉ carried)

def deriveDeltaRoster (rosterId : List (String × String) → String) (requested : Roster)
    (carried : List (Option String)) : Roster where
  rosterId := rosterId (deltaRows requested carried)
  rows := deltaRows requested carried
  nodup := requested.nodup.sublist (List.filter_sublist.map Prod.fst)

def deltaPlan (delta : Roster) (chunkSize : Nat) (hpos : 0 < chunkSize) (baseSnapshotId inputName
    inputFingerprint : String) : Plan where
  planId := derivePlanId sha256 delta.rosterId chunkSize "delta" baseSnapshotId ""
  roster := delta
  chunkSize := chunkSize
  kind := "delta"
  parentId := baseSnapshotId
  inputName := inputName
  inputFingerprint := inputFingerprint
  archiveSourceId := ""
  archiveSha256 := ""
  chunkSize_pos := hpos

/-- What an augmentation is asked to do, and what it finds: the requested roster, the base's
record and what its CIK index resolves to, and the settings of the delta plan. -/
structure AugmentCall where
  requested : Roster
  base : MergeReport
  resolvedIndex : Option (List (Option String))
  newSnapshotId : String
  chunkSize : Nat
  chunkSize_pos : 0 < chunkSize
  inputName : String
  inputFingerprint : String

structure AugmentResult where
  newSnapshotId : String
  baseRowCount : Nat
  deltaRowCount : Nat
  report : Option MergeReport
  deriving DecidableEq

/-- `chunk_{chunk_id:04d}` -/
def chunkStem (chunkId : Nat) : String :=
  "chunk_" ++ String.ofList ((Nat.toDigits 10 chunkId).leftpad 4 '0')

def baseSources (base : MergeReport) (paths : List PartPath) : List (PartSource ρ) :=
  paths.zipIdx.map fun (path, index) => .base ("base:" ++ base.snapshotId ++ "#" ++ toString index) path

def deltaChunks (plan : Plan) (chunkFile : Nat → Option (DatasetFile ρ)) :
    Except String (List (String × DatasetFile ρ)) :=
  plan.chunkIds.mapM fun chunkId =>
    match chunkFile chunkId with
    | some file => .ok (chunkStem chunkId, file)
    | none => .error unreadable

/-- `publishSnapshot` records the report in the catalog and moves the branch, or raises. -/
def augment (rosterId : List (String × String) → String) (publishSnapshot : MergeReport → Except String Unit)
    (call : AugmentCall) (chunkFile : Nat → Option (DatasetFile ρ)) (files : PartFiles ρ) :
    Except String (AugmentResult × PartFiles ρ) := do
  let carried ← baseCiks fileSha256 files call.base call.resolvedIndex
  let paths ← resolveSnapshotParts fileSha256 files call.base
  let baseRows := sumRows call.base.parts
  let delta := deriveDeltaRoster rosterId call.requested carried
  if delta.rowCount = 0 then .ok (⟨"", baseRows, 0, none⟩, files)
  else
    let plan := deltaPlan sha256 delta call.chunkSize call.chunkSize_pos call.base.snapshotId call.inputName
      call.inputFingerprint
    let snapshotId := if call.newSnapshotId = "" then plan.planId else call.newSnapshotId
    let chunks ← deltaChunks plan chunkFile
    let inputs ← paths.mapM (readPart files)
    let ciks ← readCiks (inputs ++ chunks.map Prod.snd)
    ensure (findNullKeys ciks = 0) "augmentation rejected: null CIK in merged inputs"
    ensure (findDuplicateKeys ciks = []) ("augmentation rejected: CIKs appear in both base and delta: " ++
      pyReprCiks (findDuplicateKeys ciks))
    let (parts, files) ← publishParts fileSha256 snapshotId 0 0 files
      (baseSources call.base paths ++ chunkSources chunks)
    ensure (sumRows parts = baseRows + plan.roster.rowCount) ("augmentation rejected: published row count " ++
      toString (sumRows parts) ++ " != expected " ++ toString (baseRows + plan.roster.rowCount) ++ " (" ++
      toString baseRows ++ " base + " ++ toString plan.roster.rowCount ++ " delta)")
    let merged ← readPartCiks files (parts.map PublishedPart.path)
    let carriedNow ← baseCiks fileSha256 files call.base call.resolvedIndex
    let expected := carriedNow ++ plan.roster.ciks.map some
    let stray := exceptCount merged expected + exceptCount expected merged
    ensure (stray = 0) ("augmentation rejected: merged CIK set differs from base plus delta by " ++
      toString stray ++ " CIKs")
    let cikIndex ← publishCikIndex files (parts.map PublishedPart.path)
    let report : MergeReport := ⟨snapshotId, plan.planId, plan.kind, call.base.snapshotId, plan.roster.rosterId,
      plan.chunkCount, sumRows parts, parts, cikIndex⟩
    publishSnapshot report
    .ok (⟨snapshotId, baseRows, plan.roster.rowCount, some report⟩, files)

end Augmentation
end EdgarSec.MetadataSync
