import EdgarSec.Cohort.Layout
import EdgarSec.Lib.Outcome

/-! The catalog of cohorts and the cleaner of stale staging directories. -/

namespace EdgarSec.Cohort
open Foundation Lib

structure CohortRow where
  pinned : Bool
deriving DecidableEq

structure CohortTag where
  cohortId : String
  tag : String
deriving DecidableEq

structure SourcePointer where
  sourceName : String
  activeSnapshotId : String
deriving DecidableEq

structure SessionAlias where
  sessionId : String
  aliasName : String
  targetId : String
deriving DecidableEq

structure FamilyIndex where
  universeCohortId : String
  familyIndexId : String
deriving DecidableEq

structure Catalog where
  cohorts : Dict CohortId CohortRow
  cohortTags : List CohortTag
  sourceActivePointers : Option (List SourcePointer)
  objectSessionAliases : Option (List SessionAlias)
  activeFamilyIndices : List FamilyIndex
deriving DecidableEq

namespace Catalog

/-- `SELECT … FROM cohorts WHERE cohort_id = ?` -/
def row? (cat : Catalog) (id : String) : Option CohortRow :=
  (cat.cohorts.items.find? fun e => decide (e.1.text = id)).map Prod.snd

def hasRow (cat : Catalog) (id : String) : Bool := (cat.row? id).isSome

theorem hasRow_iff {cat : Catalog} {id : String} :
    cat.hasRow id = true ↔ ∃ e ∈ cat.cohorts.items, e.1.text = id := by
  simp [hasRow, row?]

end Catalog

structure World where
  catalog : Catalog
  root : Root

/-- What `datetime.fromisoformat` reads: an instant, and whether it carries a timezone. -/
structure DateTime where
  instant : Int
  aware : Bool

structure Machine where
  hostname : String
  pidExists : Int → Bool
  fromisoformat : String → Option DateTime

def member (j : Json) (name : String) : Option Json :=
  match j with
  | .obj members => members.lookup name
  | _ => none

def heartbeatIsUnexpired (machine : Machine) (now : Int) (lease : Json) : Option Bool :=
  match member lease "created_at", member lease "heartbeat" with
  | some (.str createdAt), some (.str heartbeat) =>
    match machine.fromisoformat createdAt, machine.fromisoformat heartbeat with
    | some created, some beat =>
      if created.aware && beat.aware then some (decide (now - beat.instant ≤ maxStagingLease))
      else none
    | _, _ => none
  | _, _ => none

/-- `none` stands for a lease that cannot be parsed. -/
def stagingLeaseIsUnexpired (machine : Machine) (now : Int) (stage : Folder) : Option Bool :=
  match stage.files.get? stagingLeaseName with
  | some (.file (some lease)) =>
    match member lease "host", member lease "pid" with
    | some (.str host), some (.int pid) =>
      if host = "" ∨ pid ≤ 0 then none
      else if host = machine.hostname then some (machine.pidExists pid)
      else heartbeatIsUnexpired machine now lease
    | _, _ => none
  | _ => none

namespace Root

def listStagingDirs (root : Root) : List String :=
  (root.keys.filter fun name => root.isDir name && startsWith name stagingPrefix).mergeSort
    fun a b => decide (a ≤ b)

theorem mem_listStagingDirs {root : Root} {name : String} :
    name ∈ root.listStagingDirs ↔ root.IsDir name ∧ startsWith name stagingPrefix = true := by
  rw [listStagingDirs, List.mem_mergeSort, List.mem_filter, Bool.and_eq_true, isDir_iff]
  refine ⟨And.right, fun h => ⟨?_, h⟩⟩
  obtain ⟨folder, hfolder⟩ := h.1
  exact List.mem_map.mpr ⟨_, Dict.get?_eq_some_iff.mp hfolder, rfl⟩

def removeStagingDir (root : Root) (stage : String) : Root :=
  if root.isDir stage then root.erase stage else root

end Root

/-- One cleaning run: the clock, the `force` flag, the identifiers drawn, and the rows it read. -/
structure Cleaning where
  machine : Machine
  now : Int
  force : Bool
  uuid : String → Uuid
  known : String → Bool

namespace Cleaning

variable (run : Cleaning)

def isExpired (stage : Folder) : Bool :=
  run.force || decide (run.now - stage.mtime > stagingQuarantineExpiry)

def quarantineName (stage : String) : String :=
  stagingQuarantinePrefix ++ (run.uuid stage).hex ++ "-" ++ stage

/-- The body of the loop of `_clean_staging`. -/
def cleanStage (state : Root × Nat) (stage : String) : Except Error (Root × Nat) :=
  let (root, removed) := state
  match root.get? stage with
  | some (.directory folder) =>
    if startsWith stage stagingQuarantinePrefix then
      if run.isExpired folder then .ok (root.removeStagingDir stage, removed + 1)
      else .ok (root, removed)
    else if startsWith stage stagingPurgePrefix then
      let id := beforeLastDash (removePrefix stage stagingPurgePrefix)
      if !isCohortDir id then .ok (root, removed)
      else do
        root.cohortDir id
        if run.known id && !(root.get? id).isSome then
          let root ← root.rename stage id
          return (root, removed)
        else return (root.removeStagingDir stage, removed + 1)
    else
      match stagingLeaseIsUnexpired run.machine run.now folder with
      | some true => .ok (root, removed)
      | none => do
        let root ← root.rename stage (run.quarantineName stage)
        if run.isExpired folder then
          return (root.removeStagingDir (run.quarantineName stage), removed + 1)
        else return (root, removed)
      | some false => .ok (root.removeStagingDir stage, removed + 1)
  -- The listing was made under the same lock, and only an emptied name can have gone since.
  | _ => .error ⟨.os, "No such file or directory"⟩

def cleanStaging (root : Root) : Except Error (Root × Nat) :=
  root.listStagingDirs.foldlM run.cleanStage (root, 0)

end Cleaning

/-- `maintain_cohort_store(clean_stale_staging=True)` -/
def maintainCohortStore (world : World) (machine : Machine) (now : Int) (force : Bool)
    (uuid : String → Uuid) : Except Error (World × Nat) := do
  let (root, removed) ← Cleaning.cleanStaging ⟨machine, now, force, uuid, world.catalog.hasRow⟩ world.root
  return (⟨world.catalog, root⟩, removed)

namespace Cleaning

variable {run : Cleaning} {root root' : Root} {removed removed' : Nat} {stage : String} {id : CohortId}

theorem startsWith_quarantineName : startsWith (run.quarantineName stage) stagingPrefix = true := by
  rw [quarantineName, stagingQuarantinePrefix, String.append_assoc, String.append_assoc,
    String.append_assoc]
  exact startsWith_append _ _

theorem get?_removeStagingDir_of_ne {name : String} (h : id.text ≠ name) :
    (root.removeStagingDir name).get? id.text = root.get? id.text := by
  rw [Root.removeStagingDir]
  split
  · rw [Dict.get?_erase, if_neg h]
  · rfl

theorem get?_rename_of_ne {source target : String} (h : root.rename source target = .ok root')
    (hs : id.text ≠ source) (ht : id.text ≠ target) : root'.get? id.text = root.get? id.text := by
  obtain ⟨item, _, rfl⟩ := Root.rename_ok h
  rw [Dict.get?_set, if_neg ht, Dict.get?_erase, if_neg hs]

theorem cleanStage_place (id : CohortId) (hstage : startsWith stage stagingPrefix = true)
    (h : run.cleanStage (root, removed) stage = .ok (root', removed')) :
    root'.get? id.text =
      if run.known id.text = true ∧ root.get? id.text = none ∧ purgeTarget stage = some id.text then
        root.get? stage
      else root.get? id.text := by
  have hne : id.text ≠ stage := id.ne_of_startsWith hstage
  have hquarantine : id.text ≠ run.quarantineName stage :=
    id.ne_of_startsWith startsWith_quarantineName
  simp only [cleanStage] at h
  split at h
  next folder hfolder =>
    split at h
    next hq =>
      -- quarantined staging is removed when it is old, and never moved
      have hnone : purgeTarget stage = none := by rw [purgeTarget, if_pos hq]
      rw [if_neg (by simp [hnone])]
      split at h <;> cases h
      · exact get?_removeStagingDir_of_ne hne
      · rfl
    next hq =>
      split at h
      next hp =>
        have htarget : purgeTarget stage =
            if isCohortDir (beforeLastDash (removePrefix stage stagingPurgePrefix)) then
              some (beforeLastDash (removePrefix stage stagingPurgePrefix)) else none := by
          rw [purgeTarget, if_neg hq, if_pos hp]
        generalize beforeLastDash (removePrefix stage stagingPurgePrefix) = target at h htarget
        by_cases hdir : isCohortDir target = true
        · rw [if_neg (by simp [hdir])] at h
          rw [if_pos hdir] at htarget
          obtain ⟨_, _, h⟩ := bind_eq_ok.mp h
          by_cases hback : (run.known target && !(root.get? target).isSome) = true
          · rw [if_pos hback] at h
            obtain ⟨moved, hmoved, h⟩ := bind_eq_ok.mp h
            cases h
            obtain ⟨item, hitem, rfl⟩ := Root.rename_ok hmoved
            obtain ⟨hknown, hfree⟩ : run.known target = true ∧ root.get? target = none := by
              simpa using hback
            by_cases hid : id.text = target
            · rw [Dict.get?_set, if_pos hid, if_pos ⟨hid ▸ hknown, hid ▸ hfree, hid ▸ htarget⟩, hitem]
            · rw [if_neg (by rw [htarget]; intro hc; exact hid (Option.some.inj hc.2.2).symm),
                Dict.get?_set, if_neg hid, Dict.get?_erase, if_neg hne]
          · rw [if_neg hback] at h
            cases h
            rw [get?_removeStagingDir_of_ne hne, if_neg]
            rintro ⟨hknown, hfree, hid⟩
            obtain rfl : target = id.text := Option.some.inj (htarget.symm.trans hid)
            exact hback (by simp [hknown, hfree])
        · rw [if_pos (by simpa using hdir)] at h
          cases h
          rw [if_neg (by simp [htarget, hdir])]
      next hp =>
        have hnone : purgeTarget stage = none := by rw [purgeTarget, if_neg hq, if_neg hp]
        rw [if_neg (by simp [hnone])]
        split at h
        · cases h
          rfl
        · obtain ⟨moved, hmoved, h⟩ := bind_eq_ok.mp h
          have hkept := get?_rename_of_ne hmoved hne hquarantine
          split at h <;> cases h
          · rw [get?_removeStagingDir_of_ne hquarantine, hkept]
          · exact hkept
        · cases h
          exact get?_removeStagingDir_of_ne hne
  next => cases h

theorem isDir_of_cleanStage (h : run.cleanStage (root, removed) stage = .ok (root', removed')) :
    root.IsDir stage := by
  simp only [cleanStage] at h
  split at h
  · rename_i folder hfolder
    exact ⟨folder, hfolder⟩
  · cases h

theorem isDir_cleanStage (id : CohortId) (hstage : startsWith stage stagingPrefix = true)
    (h : run.cleanStage (root, removed) stage = .ok (root', removed')) :
    root'.IsDir id.text ↔ root.IsDir id.text ∨
      (run.known id.text = true ∧ root.get? id.text = none ∧ purgeTarget stage = some id.text) := by
  have hplace := cleanStage_place id hstage h
  have hdir := isDir_of_cleanStage h
  split at hplace
  · rename_i hback
    simp only [Root.IsDir, hplace]
    exact ⟨fun _ => Or.inr hback, fun _ => hdir⟩
  · rename_i hback
    simp only [Root.IsDir, hplace]
    exact ⟨Or.inl, fun hor => hor.resolve_right hback⟩

theorem isDir_foldlM (id : CohortId) {stages : List String}
    (hstages : ∀ s ∈ stages, startsWith s stagingPrefix = true)
    (h : stages.foldlM run.cleanStage (root, removed) = .ok (root', removed')) :
    root'.IsDir id.text ↔ root.IsDir id.text ∨ (run.known id.text = true ∧ root.get? id.text = none ∧
      ∃ s ∈ stages, purgeTarget s = some id.text) := by
  induction stages generalizing root removed with
  | nil =>
    cases h
    simp
  | cons s stages ih =>
    obtain ⟨⟨mid, count⟩, hs, hrest⟩ := bind_eq_ok.mp h
    have hsp : startsWith s stagingPrefix = true := hstages s List.mem_cons_self
    have hplace := cleanStage_place id hsp hs
    rw [ih (fun t ht => hstages t (List.mem_cons_of_mem _ ht)) hrest, isDir_cleanStage id hsp hs]
    by_cases hback : run.known id.text = true ∧ root.get? id.text = none ∧
        purgeTarget s = some id.text
    · refine ⟨fun _ => Or.inr ⟨hback.1, hback.2.1, s, List.mem_cons_self, hback.2.2⟩,
        fun _ => Or.inl (Or.inr hback)⟩
    · rw [if_neg hback] at hplace
      rw [hplace]
      grind

theorem isDir_cleanStaging (id : CohortId) (h : run.cleanStaging root = .ok (root', removed')) :
    root'.IsDir id.text ↔
      if run.known id.text = true then root.Recoverable id.text else root.IsDir id.text := by
  have hfold := isDir_foldlM id (fun s hs => (Root.mem_listStagingDirs.mp hs).2) h
  have hlisted : (∃ s ∈ root.listStagingDirs, purgeTarget s = some id.text) ↔
      root.HasPurgeStage id.text := by
    constructor
    · rintro ⟨s, hs, htarget⟩
      exact ⟨s, (Root.mem_listStagingDirs.mp hs).1, htarget⟩
    · rintro ⟨s, hs, htarget⟩
      exact ⟨s, Root.mem_listStagingDirs.mpr ⟨hs, startsWith_of_purgeTarget htarget⟩, htarget⟩
  rw [hfold, hlisted]
  split
  · rename_i hknown
    simp [hknown, Root.Recoverable]
  · rename_i hknown
    simp [hknown]

end Cleaning
end EdgarSec.Cohort
