import EdgarSec.Dag.Catalog
import EdgarSec.Foundation.Files
import EdgarSec.Lib.Outcome

/-! Publication: the guarded move of a staged directory and of a branch pointer, and the
operations that move a pointer on their own. -/

namespace EdgarSec.Dag
open Foundation Lib

/-- A snapshot repository: its root directory, the files below and around it, and its
catalog. The database and the lock files are not among the files. -/
structure Repository where
  root : Path
  files : FileSystem
  catalog : Catalog

/-- `branch_name or "main"`. -/
def targetBranch : Option String → String
  | none => "main"
  | some name => if name = "" then "main" else name

namespace Repository

/-- `root / snapshot_id`. -/
def snapshotDir (repo : Repository) (snapshotId : String) : Path := joinPath repo.root snapshotId

/-! ## The steps of `publish_node` -/

def checkTip (repo : Repository) (branchName : String) (expected : Option String) :
    Except DagError Unit :=
  let current := repo.catalog.tipId branchName
  if current ≠ expected then
    .error (.staleParentError ("expected parent " ++ pyReprOption expected ++ ", current is " ++
      pyReprOption current))
  else .ok ()

def moveStaged (repo : Repository) (snapshotId : String) (staged : Option Path) :
    Except DagError (Repository × Option Path) :=
  match staged with
  | none => .ok (repo, none)
  | some staged =>
    if repo.files.pathExists staged ∧ ¬ repo.files.pathExists (repo.snapshotDir snapshotId) then
      match repo.files.move staged (repo.snapshotDir snapshotId) with
      | some (files, place) => .ok ({ repo with files := files }, some place)
      | none => .error (.osError ("cannot move to " ++ snapshotId))
    else .ok (repo, none)

section
variable (sha256 : Bytes → String)

/-- Insert and pointer move, in one transaction at the time `now`. -/
def commit (repo : Repository) (m : DAGNodeManifest) (branchName now : String) :
    Except DagError Repository :=
  (repo.catalog.publishNode sha256 m branchName now).map fun cat => { repo with catalog := cat }

/-- `publish_node` alone on the repository: the state it leaves, and what it returns. -/
def publishNode (repo : Repository) (m : DAGNodeManifest) (staged : Option Path)
    (expected branchName : Option String) (now : String) : Repository × Except DagError Path :=
  match repo.checkTip (targetBranch branchName) expected with
  | .error e => (repo, .error e)
  | .ok () =>
    match repo.moveStaged m.snapshotId staged with
    | .error e => (repo, .error e)
    | .ok (moved, _) =>
      match moved.commit sha256 m (targetBranch branchName) now with
      | .error e => (moved, .error e)
      | .ok done => (done, .ok (repo.snapshotDir m.snapshotId))

end

/-! ## Pointers -/

def checkoutTip (repo : Repository) (target : String) (branchName : Option String) (now : String) :
    Except DagError Repository :=
  if repo.catalog.hasSnapshot target = false then
    .error (.fileNotFoundError ("target snapshot missing from catalog: " ++ target))
  else .ok { repo with catalog := repo.catalog.writePointer (targetBranch branchName) target now }

def createBranch (repo : Repository) (branchName target now : String) : Except DagError Repository :=
  if branchName = "current" ∨ branchName = "" then
    .error (.valueError "branch name cannot be 'current' or empty")
  else repo.checkoutTip target (some branchName) now

def deleteBranch (repo : Repository) (branchName : String) : Except DagError (Repository × Bool) :=
  if branchName = "current" ∨ branchName = "main" ∨ branchName = "" then
    .error (.valueError ("cannot delete protected branch " ++ pyRepr branchName))
  else .ok ({ repo with catalog := repo.catalog.deleteBranch branchName },
    repo.catalog.branches.contains branchName)

/-! ## Tags -/

def createTag (repo : Repository) (name target message now : String) : Except DagError Repository :=
  if name = "" ∨ '/' ∈ name.toList then .error (.valueError ("invalid tag name: " ++ pyRepr name))
  else if repo.catalog.hasSnapshot target = false then
    .error (.fileNotFoundError ("snapshot manifest missing: " ++ target))
  else if repo.catalog.tags.contains name then
    .error (.fileExistsError ("tag already exists: " ++ name))
  else (repo.catalog.createTag name target message now).map fun cat => { repo with catalog := cat }

def deleteTag (repo : Repository) (name : String) : Repository × Bool :=
  ({ repo with catalog := repo.catalog.deleteTag name }, repo.catalog.tags.contains name)

end Repository
end EdgarSec.Dag
