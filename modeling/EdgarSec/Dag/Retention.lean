import EdgarSec.Dag.Publication
import EdgarSec.Dag.Traversal
import EdgarSec.Lib.Settle

/-! Retention: which snapshots the roots reach, and the removal of the others. -/

namespace EdgarSec.Dag
open Foundation Lib

structure RetentionReport where
  rootSnapshots : List String
  retainedSnapshots : List String
  prunableSnapshots : List String
  prunableByteSize : Nat
  deriving DecidableEq, Repr

def sortedIds (ids : List String) : List String := ids.insertionSort (· ≤ ·)

def discoverRoots (cat : Catalog) (extraPinnedIds : List String) : List String :=
  (cat.branches.items.map (·.2.snapshotId) ++ cat.tags.items.map (·.2.snapshotId) ++
    extraPinnedIds).dedup

def pinnedIds (m : DAGNodeManifest) : List String :=
  [m.snapshotId] ++ (if m.checkpointAnchorId ≠ "" then [m.checkpointAnchorId] else []) ++
    (match m.metadata.get? "base_snapshot_id" with
      | some pin => if pin.truthy then [pin.pyStr] else []
      | none => [])

def retainedIds (cat : Catalog) (roots : List String) : Except DagError (List String) := do
  let chains ← roots.mapM cat.walkLineage
  .ok (chains.flatten.flatMap pinnedIds).dedup

/-- `".", "parts", "branches", "current"` are not snapshot directories. -/
def isSnapshotDirName (name : String) : Bool :=
  name.toList.head? ≠ some '.' ∧ name ∉ ["parts", "branches", "current"]

namespace Repository

def unreferencedNodes (repo : Repository) (retained : List String) : List String :=
  (repo.catalog.listSnapshots.map (·.snapshotId)).filter (· ∉ retained)

def unreferencedDirs (repo : Repository) (retained prunable : List String) : List String :=
  (repo.files.iterdir repo.root).filter fun name =>
    repo.files.isDir (repo.root ++ [name]) ∧ isSnapshotDirName name ∧ name ∉ retained ∧
      name ∉ prunable

def analyzeRetention (repo : Repository) (extraPinnedIds : List String) (minAgeSeconds : Int := 0) :
    Except DagError RetentionReport :=
  if minAgeSeconds < 0 then .error (.valueError "min_age_seconds cannot be negative")
  else if minAgeSeconds ≠ 0 then
    .error (.valueError "minimum-age retention is not defined by the DAG contract")
  else do
    let roots := discoverRoots repo.catalog extraPinnedIds
    let retained ← retainedIds repo.catalog roots
    let nodes := repo.unreferencedNodes retained
    let dirs := repo.unreferencedDirs retained nodes
    .ok {
      rootSnapshots := sortedIds roots
      retainedSnapshots := sortedIds retained
      prunableSnapshots := sortedIds (nodes ++ dirs)
      prunableByteSize := ((nodes.map repo.snapshotDir ++ dirs.map fun name => repo.root ++ [name]).map
        repo.files.treeSize).sum }

/-! ## Purging -/

/-- `Path.resolve` raises on a loop of links. -/
def resolvePath (repo : Repository) (p : Path) : Except DagError Path :=
  match repo.files.resolve p with
  | some q => .ok q
  | none => .error (.osError "Symlink loop")

def resolvePartPath (repo : Repository) (snapshotId partPath : String) : Except DagError Path :=
  if isAbsolute partPath then repo.resolvePath (splitPath partPath)
  else
    let nodePath := joinPath (repo.snapshotDir snapshotId) partPath
    let rootPath := joinPath repo.root partPath
    if repo.files.isFile nodePath then repo.resolvePath nodePath
    else if repo.files.isFile rootPath then repo.resolvePath rootPath
    else repo.resolvePath nodePath

def ownedSnapshotDir (repo : Repository) (snapshotId : String) : Except DagError (Option Path) :=
  let target := repo.snapshotDir snapshotId
  if repo.files.isSymlink target ∨ ¬ repo.files.isDir target then .ok none
  else do
    let resolvedRoot ← repo.resolvePath repo.root
    let resolvedTarget ← repo.resolvePath target
    .ok (if resolvedTarget.dropLast = resolvedRoot then some resolvedTarget else none)

def partPaths (repo : Repository) : Except DagError (List (String × List Path)) :=
  repo.catalog.listSnapshots.mapM fun s => do
    let parts := ((repo.catalog.getManifest s.snapshotId).map (·.allParts)).getD []
    let paths ← parts.mapM fun part => repo.resolvePartPath s.snapshotId part.path
    .ok (s.snapshotId, paths)

def removalTarget (repo : Repository) (snapshotId : String) :
    Except DagError (Option (Option Path)) := do
  let target ← repo.ownedSnapshotDir snapshotId
  let present := repo.files.pathExists (repo.snapshotDir snapshotId) ∨
    repo.files.isSymlink (repo.snapshotDir snapshotId)
  .ok (if present ∧ target = none then none else some target)

def isProtected (parts : List (String × List Path)) (target : String → Option Path)
    (removable : List String) (snapshotId : String) : Bool :=
  match target snapshotId with
  | none => false
  | some dir => parts.any fun other => other.1 ∉ removable ∧ other.2.any fun p => dir <+: p

/-- The removable ones among `ids`, each with what it is removed with. -/
def removalCandidates (repo : Repository) (ids : List String) :
    Except DagError (List (String × Option Path)) := do
  let targets ← ids.mapM fun s => do .ok (s, ← repo.removalTarget s)
  .ok (targets.filterMap fun t => t.2.map fun target => (t.1, target))

/-- The decisions of `purge_unreferenced`, in removal order. -/
def removalPlan (repo : Repository) (report : RetentionReport) (extraPinnedIds : List String) :
    Except DagError (List (String × Option Path)) := do
  let rechecked ← repo.analyzeRetention extraPinnedIds
  let safe := (report.prunableSnapshots.filter (· ∈ rechecked.prunableSnapshots)).dedup
  let parts ← repo.partPaths
  let candidates ← repo.removalCandidates safe
  let target := fun s => (candidates.lookup s).getD none
  let removable := settle (isProtected parts target) candidates.length (candidates.map Prod.fst)
  .ok ((sortedIds removable).map fun s => (s, target s))

/-- `rmtree` of the directory, then `DELETE FROM nodes`. -/
def removeOne (repo : Repository) (snapshotId : String) (target : Option Path) :
    Except DagError Repository :=
  match target with
  | none => .ok { repo with catalog := repo.catalog.deleteNode snapshotId }
  | some dir =>
    match repo.files.rmtree dir with
    | none => .error (.fileNotFoundError "No such file or directory")
    | some files => .ok { repo with files := files, catalog := repo.catalog.deleteNode snapshotId }

def removeAll (repo : Repository) : List (String × Option Path) → Repository × Except DagError Unit
  | [] => (repo, .ok ())
  | (s, target) :: rest =>
    match repo.removeOne s target with
    | .error e => (repo, .error e)
    | .ok next => removeAll next rest

/-- `purge_unreferenced` alone on the repository: the state it leaves, and what it returns. -/
def purgeUnreferenced (repo : Repository) (report : RetentionReport) (dryRun : Bool)
    (extraPinnedIds : List String) : Repository × Except DagError (List String) :=
  match repo.removalPlan report extraPinnedIds with
  | .error e => (repo, .error e)
  | .ok plan =>
    if dryRun then (repo, .ok (plan.map Prod.fst))
    else
      match repo.removeAll plan with
      | (next, .error e) => (next, .error e)
      | (next, .ok ()) => (next, .ok (plan.map Prod.fst))

end Repository
end EdgarSec.Dag
