import EdgarSec.Cohort.Maintenance

/-! Deleting a cohort with its dataset, stopped at any step, and the cleaning run after it. -/

namespace EdgarSec.Cohort
open Foundation Lib

namespace Catalog

/-- What `delete_cohort` reads before it touches a file: no row, a refusal, or the row. -/
def select (cat : Catalog) (id : String) (force : Bool) : Except Error (Option CohortRow) :=
  match cat.row? id with
  | none => .ok none
  | some row =>
    if row.pinned then .error ⟨.cohortPinned, "Cohort " ++ pyRepr id ++ " is pinned"⟩
    else
      match (cat.sourceActivePointers.getD []).find? fun p => decide (p.activeSnapshotId = id) with
      | some active =>
        .error ⟨.cohortActiveSource,
          "Cohort " ++ pyRepr id ++ " is active for source " ++ pyRepr active.sourceName⟩
      | none =>
        if (cat.objectSessionAliases.getD []).any (fun a => decide (a.targetId = id)) && !force then
          .error ⟨.cohortInUse, "Cohort " ++ pyRepr id ++ " is referenced by a workspace alias"⟩
        else .ok (some row)

/-- The statements of the transaction: the aliases go with `force`, the tags with the row, and an
active family index keeps the row. -/
def deleteRows (cat : Catalog) (id : String) (force : Bool) : Except Error Catalog :=
  if cat.activeFamilyIndices.any fun f => decide (f.universeCohortId = id) then
    .error ⟨.integrity, "FOREIGN KEY constraint failed"⟩
  else
    .ok { cat with
      cohorts := cat.cohorts.filter fun e => decide (e.1.text ≠ id)
      cohortTags := cat.cohortTags.filter fun t => decide (t.cohortId ≠ id)
      objectSessionAliases :=
        if force then cat.objectSessionAliases.map (·.filter fun a => decide (a.targetId ≠ id))
        else cat.objectSessionAliases }

end Catalog

inductive Interruption where
  | crash
  | exception
deriving DecidableEq

/-- Where an execution can be stopped. A removal that is stopped has emptied its directory down to
the entries named in `left`. -/
inductive Point where
  | entered
  | moved
  | deleted
  | committed
  | purging (mtime : Int) (left : List String)
deriving DecidableEq

structure Stop where
  point : Point
  interruption : Interruption
deriving DecidableEq

inductive Outcome where
  | returned (deleted : Bool)
  | raised (error : Error)
  | crashed
deriving DecidableEq

/-- How a call ended, what it left, and whether `connection.commit()` had returned. -/
structure Execution where
  outcome : Outcome
  world : World
  committed : Bool

def interruptedAt (stop : Option Stop) (point : Point) : Option Interruption :=
  match stop with
  | some s => if s.point = point then some s.interruption else none
  | none => none

namespace Root

/-- The handler of `_delete_cohort_locked`. -/
def restore (root : Root) (id : String) (quarantined : Option String) : Root :=
  match quarantined with
  | none => root
  | some stage =>
    if (root.get? stage).isSome && !(root.get? id).isSome then
      match root.rename stage id with
      | .ok root => root
      | .error _ => root
    else root

/-- `shutil.rmtree` stopped on its way. -/
def emptied (root : Root) (stage : String) (mtime : Int) (left : List String) : Root :=
  match root.get? stage with
  | some (.directory folder) =>
    root.set stage (.directory ⟨mtime, folder.files.filter fun e => decide (e.1 ∈ left)⟩)
  | _ => root

end Root

def Execution.raising (world : World) (committed : Bool) (id : String) (quarantined : Option String)
    (error : Error) : Execution :=
  ⟨.raised error, { world with root := world.root.restore id quarantined }, committed⟩

def Execution.interrupted (world : World) (committed : Bool) (id : String)
    (quarantined : Option String) : Interruption → Execution
  | .crash => ⟨.crashed, world, committed⟩
  | .exception => raising world committed id quarantined ⟨.interrupted, ""⟩

def purge (world : World) (quarantined : Option String) (stop : Option Stop) : Execution :=
  match quarantined with
  | none => ⟨.returned true, world, true⟩
  | some stage =>
    match stop with
    | some ⟨.purging mtime left, i⟩ =>
      ⟨if i = .crash then .crashed else .raised ⟨.interrupted, ""⟩,
        { world with root := world.root.emptied stage mtime left }, true⟩
    | _ => ⟨.returned true, { world with root := world.root.erase stage }, true⟩

def deleteSelected (world : World) (id : String) (force : Bool) (quarantined : Option String)
    (stop : Option Stop) : Execution :=
  match interruptedAt stop .moved with
  | some i => .interrupted world false id quarantined i
  | none =>
    match world.catalog.deleteRows id force with
    | .error e => .raising world false id quarantined e
    | .ok catalog =>
      match interruptedAt stop .deleted with
      -- nothing is committed, so the catalog on disk is the old one
      | some i => .interrupted world false id quarantined i
      | none =>
        match interruptedAt stop .committed with
        | some i => .interrupted { world with catalog := catalog } true id quarantined i
        | none => purge { world with catalog := catalog } quarantined stop

/-- `_delete_cohort_locked(cohort_id, purge_dataset=True)` -/
def deleteCohort (world : World) (id : String) (force : Bool) (uuid : Uuid) (stop : Option Stop) :
    Execution :=
  match world.root.cohortDir id with
  | .error e => ⟨.raised e, world, false⟩
  | .ok _ =>
    match interruptedAt stop .entered with
    | some i => .interrupted world false id none i
    | none =>
      match world.catalog.select id force with
      | .error e => .raising world false id none e
      | .ok none => ⟨.returned false, world, false⟩
      | .ok (some _) =>
        if (world.root.get? id).isSome then
          match world.root.rename id (purgeStage id uuid) with
          | .error e => .raising world false id (some (purgeStage id uuid)) e
          | .ok root =>
            deleteSelected { world with root := root } id force (some (purgeStage id uuid)) stop
        else deleteSelected world id force none stop

def Catalog.Deletable (cat : Catalog) (id : String) (force : Bool) : Prop :=
  (∃ row, cat.row? id = some row ∧ row.pinned = false) ∧
  (∀ p ∈ cat.sourceActivePointers.getD [], p.activeSnapshotId ≠ id) ∧
  (force = true ∨ ∀ a ∈ cat.objectSessionAliases.getD [], a.targetId ≠ id) ∧
  ∀ f ∈ cat.activeFamilyIndices, f.universeCohortId ≠ id

def Root.Movable (root : Root) (id : String) (uuid : Uuid) : Prop :=
  root.get? id = none ∨
    (root.IsDir id ∧ ∀ item, root.get? (purgeStage id uuid) = some item →
      ∃ folder, item = .directory folder ∧ folder.files.items = [])

def ReachesCommit (stop : Option Stop) : Prop :=
  ∀ s, stop = some s → s.point ≠ .entered ∧ s.point ≠ .moved ∧ s.point ≠ .deleted

def Commits (world : World) (id : String) (force : Bool) (uuid : Uuid) (stop : Option Stop) : Prop :=
  world.catalog.Deletable id force ∧ world.root.Movable id uuid ∧ ReachesCommit stop

section Steps
variable {world : World} {root : Root} {id : CohortId} {force : Bool} {uuid : Uuid} {stop : Option Stop}

theorem interruptedAt_none_iff {point : Point} :
    interruptedAt stop point = none ↔ ∀ s, stop = some s → s.point ≠ point := by
  cases stop with
  | none => simp [interruptedAt]
  | some s => simp [interruptedAt]

theorem CohortId.isSafeId (id : CohortId) : Cohort.isSafeId id.text = true := by
  have h := id.wellFormed
  rw [isCohortDir] at h
  split at h
  next digits hname =>
    rw [Bool.and_eq_true, beq_iff_eq] at h
    have hhex : ∀ c ∈ digits, (c.isAlphanum || c == '_' || c == '.' || c == '-') = true := by
      intro c hc
      have hall : "0123456789abcdef".toList.all Char.isAlphanum = true := by decide
      have hdigit : c ∈ "0123456789abcdef".toList := by
        simpa [isHex] using List.all_eq_true.mp h.2 c hc
      simp [List.all_eq_true.mp hall c hdigit]
    simp only [Cohort.isSafeId, hname, List.length_cons, h.1, List.all_cons, Bool.and_eq_true,
      decide_eq_true_eq, List.all_eq_true]
    exact ⟨⟨by omega, by omega⟩, by decide, by decide, hhex⟩
  next => cases h

theorem CohortId.no_dots (id : CohortId) :
    id.text.toList.tails.any ("..".toList.isPrefixOf ·) = false := by
  have hdot : '.' ∉ id.text.toList := by
    have h := id.wellFormed
    rw [isCohortDir] at h
    split at h
    next digits hname =>
      rw [hname]
      rw [Bool.and_eq_true] at h
      have hhex : '.' ∉ digits := fun hc => absurd (List.all_eq_true.mp h.2 _ hc) (by decide)
      simp [hhex]
    next => cases h
  rw [List.any_eq_false]
  intro tail htail hstart
  have hmem : '.' ∈ tail := (List.isPrefixOf_iff_prefix.mp hstart).subset (by decide)
  exact hdot ((List.mem_tails _ _).mp htail |>.subset hmem)

theorem cohortDir_ok_iff : (∃ u, root.cohortDir id.text = .ok u) ↔ root.get? id.text ≠ some .symlink := by
  rw [Root.cohortDir, id.isSafeId, id.no_dots, if_neg (by simp)]
  split
  · rename_i h
    simp [h]
  · rename_i h
    exact ⟨fun _ => h, fun _ => ⟨(), rfl⟩⟩

theorem select_eq_some_iff {cat : Catalog} {row : CohortRow} :
    cat.select id.text force = .ok (some row) ↔ cat.row? id.text = some row ∧ row.pinned = false ∧
      (∀ p ∈ cat.sourceActivePointers.getD [], p.activeSnapshotId ≠ id.text) ∧
      (force = true ∨ ∀ a ∈ cat.objectSessionAliases.getD [], a.targetId ≠ id.text) := by
  rw [Catalog.select]
  split
  next hrow => simp [hrow]
  next r hrow =>
    split
    next hpinned =>
      have hne : r = row → ¬row.pinned = false := fun h => h ▸ by simp [hpinned]
      simp only [reduceCtorEq, hrow, Option.some.injEq, false_iff]
      exact fun h => hne h.1 h.2.1
    next hpinned =>
      split
      next active hactive =>
        have hmem := List.mem_of_find?_eq_some hactive
        have htarget : active.activeSnapshotId = id.text := by
          simpa using List.find?_some hactive
        simp only [reduceCtorEq, false_iff]
        exact fun h => h.2.2.1 active hmem htarget
      next hactive =>
        have hfree : ∀ p ∈ cat.sourceActivePointers.getD [], p.activeSnapshotId ≠ id.text := by
          intro p hp
          simpa using List.find?_eq_none.mp hactive p hp
        split
        next halias =>
          simp only [reduceCtorEq, false_iff]
          rintro ⟨_, _, _, hforce | hnone⟩
          · simp [hforce] at halias
          · simp only [Bool.and_eq_true, List.any_eq_true, decide_eq_true_eq] at halias
            obtain ⟨⟨a, ha, hid⟩, _⟩ := halias
            exact hnone a ha hid
        next halias =>
          have hforce : force = true ∨ ∀ a ∈ cat.objectSessionAliases.getD [], a.targetId ≠ id.text := by
            cases force with
            | true => exact Or.inl rfl
            | false => simpa using halias
          simp only [Except.ok.injEq, Option.some.injEq, hrow]
          constructor
          · rintro rfl
            exact ⟨rfl, by simpa using hpinned, hfree, hforce⟩
          · exact And.left

theorem select_of_deletable {cat : Catalog} (h : cat.Deletable id.text force) :
    ∃ row, cat.select id.text force = .ok (some row) := by
  obtain ⟨⟨row, hrow, hpinned⟩, hactive, halias, _⟩ := h
  exact ⟨row, select_eq_some_iff.mpr ⟨hrow, hpinned, hactive, halias⟩⟩

theorem hasRow_deleteRows {cat cat' : Catalog} (h : cat.deleteRows id.text force = .ok cat') :
    cat'.hasRow id.text = false := by
  rw [Catalog.deleteRows] at h
  split at h
  · cases h
  · cases h
    rw [Bool.eq_false_iff, ne_eq, Catalog.hasRow_iff]
    rintro ⟨e, he, hid⟩
    simp only [Dict.filter, List.mem_filter, decide_eq_true_eq] at he
    exact he.2 hid

theorem deleteRows_ok_iff (cat : Catalog) (id : CohortId) (force : Bool) : (∃ cat', cat.deleteRows id.text force = .ok cat') ↔
    ∀ f ∈ cat.activeFamilyIndices, f.universeCohortId ≠ id.text := by
  rw [Catalog.deleteRows]
  split
  next h => simpa using h
  next h => simpa using h

inductive SetAside (root : Root) (id : CohortId) : Root → Option String → Prop where
  | free : root.get? id.text = none → SetAside root id root none
  | moved (stage : String) (folder : Folder) :
      root.get? id.text = some (.directory folder) → purgeTarget stage = some id.text →
      SetAside root id ((root.erase id.text).set stage (.directory folder)) (some stage)

structure Uncommitted (world : World) (id : CohortId) (e : Execution) : Prop where
  committed : e.committed = false
  catalog : e.world.catalog = world.catalog
  recoverable : e.world.root.Recoverable id.text ↔ world.root.Recoverable id.text
  absent : world.catalog.hasRow id.text = false → e.world.root = world.root
  raised : ∀ error, e.outcome = .raised error →
    e.world.root.get? id.text = world.root.get? id.text

structure Committed (world : World) (id : CohortId) (stop : Option Stop) (e : Execution) : Prop where
  committed : e.committed = true
  hasRow : e.world.catalog.hasRow id.text = false
  isDir : e.world.root.IsDir id.text ↔
    stop = some ⟨.committed, .exception⟩ ∧ world.root.IsDir id.text

theorem Uncommitted.unchanged (outcome : Outcome) : Uncommitted world id ⟨outcome, world, false⟩ :=
  ⟨rfl, rfl, Iff.rfl, fun _ => rfl, fun _ _ => rfl⟩

variable {quarantined : Option String} {after : Root}

theorem SetAside.get?_stage_ne {stage : String} (h : purgeTarget stage = some id.text) :
    id.text ≠ stage :=
  id.ne_of_startsWith (startsWith_of_purgeTarget h)

theorem SetAside.recoverable (h : SetAside root id after quarantined) :
    after.Recoverable id.text ↔ root.Recoverable id.text := by
  cases h with
  | free => rfl
  | moved stage folder hdir htarget =>
    have hne := SetAside.get?_stage_ne htarget
    refine iff_of_true (Or.inr ⟨?_, stage, ⟨folder, ?_⟩, htarget⟩) (Or.inl ⟨folder, hdir⟩)
    · rw [Dict.get?_set, if_neg hne, Dict.get?_erase, if_pos rfl]
    · rw [Dict.get?_set, if_pos rfl]

theorem SetAside.get?_restore (h : SetAside root id after quarantined) :
    (after.restore id.text quarantined).get? id.text = root.get? id.text := by
  cases h with
  | free => rfl
  | moved stage folder hdir htarget =>
    have hne := SetAside.get?_stage_ne htarget
    have hstage : ((root.erase id.text).set stage (.directory folder)).get? stage =
        some (.directory folder) := by
      rw [Dict.get?_set, if_pos rfl]
    have hplace : ((root.erase id.text).set stage (.directory folder)).get? id.text = none := by
      rw [Dict.get?_set, if_neg hne, Dict.get?_erase, if_pos rfl]
    rw [Root.restore, hstage, hplace, if_pos (by simp), Root.rename_free hstage hplace, hdir]
    simp

theorem SetAside.recoverable_restore (h : SetAside root id after quarantined) :
    (after.restore id.text quarantined).Recoverable id.text ↔ root.Recoverable id.text := by
  have hback := h.get?_restore
  cases h with
  | free => rfl
  | moved stage folder hdir htarget =>
    rw [hdir] at hback
    exact iff_of_true (Or.inl ⟨folder, hback⟩) (Or.inl ⟨folder, hdir⟩)

theorem SetAside.raising (h : SetAside world.root id after quarantined)
    (hrow : world.catalog.hasRow id.text = true) (error : Error) :
    Uncommitted world id
      (.raising { world with root := after } false id.text quarantined error) where
  committed := rfl
  catalog := rfl
  recoverable := h.recoverable_restore
  absent hno := by rw [hrow] at hno; cases hno
  raised _ _ := h.get?_restore

theorem SetAside.interrupted (h : SetAside world.root id after quarantined)
    (hrow : world.catalog.hasRow id.text = true) (i : Interruption) :
    Uncommitted world id
      (.interrupted { world with root := after } false id.text quarantined i) := by
  cases i with
  | crash =>
    have habsent : ¬world.catalog.hasRow id.text = false := by simp [hrow]
    exact ⟨rfl, rfl, h.recoverable, fun hno => absurd hno habsent, fun _ he => absurd he (by simp [Execution.interrupted])⟩
  | exception => exact h.raising hrow _

theorem SetAside.not_isDir (h : SetAside root id after quarantined) : ¬after.IsDir id.text := by
  rintro ⟨folder, hdir⟩
  cases h with
  | free hfree =>
    rw [hfree] at hdir
    cases hdir
  | moved stage _ _ htarget =>
    rw [Dict.get?_set, if_neg (SetAside.get?_stage_ne htarget), Dict.get?_erase, if_pos rfl] at hdir
    cases hdir

theorem SetAside.isDir_restore (h : SetAside root id after quarantined) :
    (after.restore id.text quarantined).IsDir id.text ↔ root.IsDir id.text := by
  simp only [Root.IsDir, h.get?_restore]

theorem SetAside.not_isDir_purge {catalog : Catalog} (h : SetAside root id after quarantined) :
    ¬(purge ⟨catalog, after⟩ quarantined stop).world.root.IsDir id.text := by
  have hno := h.not_isDir
  cases h with
  | free => exact hno
  | moved stage folder _ htarget =>
    have hne := SetAside.get?_stage_ne htarget
    simp only [purge]
    split
    · rw [Root.emptied, Dict.get?_set, if_pos rfl]
      simp [Root.IsDir, hne]
    · simp [Root.IsDir, hne]

theorem purge_committed : (purge world quarantined stop).committed = true := by
  unfold purge
  split
  · rfl
  · split <;> rfl

theorem purge_catalog : (purge world quarantined stop).world.catalog = world.catalog := by
  unfold purge
  split
  · rfl
  · split <;> rfl

theorem interruptedAt_eq_some_iff {point : Point} {i : Interruption} :
    interruptedAt stop point = some i ↔ stop = some ⟨point, i⟩ := by
  cases stop with
  | none => simp [interruptedAt]
  | some s =>
    obtain ⟨p, j⟩ := s
    simp [interruptedAt]

theorem committed_spec {catalog : Catalog} (h : SetAside world.root id after quarantined)
    (hgone : catalog.hasRow id.text = false) :
    Committed world id stop
      (match interruptedAt stop .committed with
      | some i => .interrupted ⟨catalog, after⟩ true id.text quarantined i
      | none => purge ⟨catalog, after⟩ quarantined stop) := by
  cases hat : interruptedAt stop .committed with
  | some i =>
    obtain rfl := interruptedAt_eq_some_iff.mp hat
    cases i with
    | crash => exact ⟨rfl, hgone, iff_of_false h.not_isDir (by simp)⟩
    | exception => exact ⟨rfl, hgone, h.isDir_restore.trans (by simp)⟩
  | none =>
    have hother : stop ≠ some ⟨.committed, .exception⟩ := by
      rintro rfl
      cases hat
    refine ⟨purge_committed, ?_, iff_of_false h.not_isDir_purge fun hc => hother hc.1⟩
    rw [purge_catalog]
    exact hgone

theorem deleteSelected_spec (force : Bool) (stop : Option Stop)
    (h : SetAside world.root id after quarantined)
    (hrow : world.catalog.hasRow id.text = true) :
    ((∀ f ∈ world.catalog.activeFamilyIndices, f.universeCohortId ≠ id.text) ∧
        interruptedAt stop .moved = none ∧ interruptedAt stop .deleted = none →
      Committed world id stop
        (deleteSelected { world with root := after } id.text force quarantined stop)) ∧
    (¬((∀ f ∈ world.catalog.activeFamilyIndices, f.universeCohortId ≠ id.text) ∧
        interruptedAt stop .moved = none ∧ interruptedAt stop .deleted = none) →
      Uncommitted world id
        (deleteSelected { world with root := after } id.text force quarantined stop)) := by
  have hfamilies := deleteRows_ok_iff world.catalog id force
  simp only [deleteSelected]
  cases hmoved : interruptedAt stop .moved with
  | some i => exact ⟨fun hc => absurd hc.2.1 (by simp), fun _ => h.interrupted hrow i⟩
  | none =>
    cases hcatalog : world.catalog.deleteRows id.text force with
    | error error =>
      have hnone : ¬∃ cat', world.catalog.deleteRows id.text force = .ok cat' := by simp [hcatalog]
      exact ⟨fun hc => absurd (hfamilies.mpr hc.1) hnone, fun _ => h.raising hrow error⟩
    | ok catalog =>
      have hall := hfamilies.mp ⟨catalog, hcatalog⟩
      cases hdeleted : interruptedAt stop .deleted with
      | some i => exact ⟨fun hc => absurd hc.2.2 (by simp), fun _ => h.interrupted hrow i⟩
      | none =>
        exact ⟨fun _ => committed_spec h (hasRow_deleteRows hcatalog),
          fun hc => absurd ⟨hall, rfl, rfl⟩ hc⟩

theorem reachesCommit_iff : ReachesCommit stop ↔ interruptedAt stop .entered = none ∧
    interruptedAt stop .moved = none ∧ interruptedAt stop .deleted = none := by
  simp only [ReachesCommit, interruptedAt_none_iff, forall_and]

theorem rename_purgeStage_iff {folder : Folder}
    (hdir : root.get? id.text = some (.directory folder)) :
    (∃ after, root.rename id.text (purgeStage id.text uuid) = .ok after) ↔ root.Movable id.text uuid := by
  have hmovable : root.Movable id.text uuid ↔
      ∀ item, root.get? (purgeStage id.text uuid) = some item →
        ∃ folder, item = .directory folder ∧ folder.files.items = [] := by
    rw [Root.Movable, hdir]
    simp only [reduceCtorEq, false_or, and_iff_right_iff_imp]
    exact fun _ => ⟨folder, hdir⟩
  rw [hmovable, Root.rename, hdir]
  dsimp only
  split
  next hfree => simp [hfree]
  next hlink => simp [hlink]
  next other hother =>
    rw [hother]
    cases hitems : other.files.items <;> simp [hitems]

theorem deleteCohort_spec (world : World) (id : CohortId) (force : Bool) (uuid : Uuid)
    (stop : Option Stop) :
    (Commits world id.text force uuid stop →
      Committed world id stop (deleteCohort world id.text force uuid stop)) ∧
    (¬Commits world id.text force uuid stop →
      Uncommitted world id (deleteCohort world id.text force uuid stop)) := by
  simp only [deleteCohort, Commits, reachesCommit_iff]
  cases hplace : world.root.cohortDir id.text with
  | error error =>
    -- a symbolic link in the cohort's place
    have hlink : ¬∃ u, world.root.cohortDir id.text = .ok u := by simp [hplace]
    rw [cohortDir_ok_iff, not_not] at hlink
    have hstays : ¬world.root.Movable id.text uuid := by simp [Root.Movable, Root.IsDir, hlink]
    exact ⟨fun hc => absurd hc.2.1 hstays, fun _ => .unchanged _⟩
  | ok u =>
    have hnolink := cohortDir_ok_iff.mp ⟨u, hplace⟩
    cases hentered : interruptedAt stop .entered with
    | some i => cases i <;> exact ⟨fun hc => absurd hc.2.2.1 (by simp), fun _ => .unchanged _⟩
    | none =>
      cases hselect : world.catalog.select id.text force with
      | error error =>
        refine ⟨fun hc => ?_, fun _ => .unchanged _⟩
        obtain ⟨row, hrow⟩ := select_of_deletable hc.1
        rw [hselect] at hrow
        cases hrow
      | ok found =>
        cases found with
        | none =>
          refine ⟨fun hc => ?_, fun _ => .unchanged _⟩
          obtain ⟨row, hrow⟩ := select_of_deletable hc.1
          rw [hselect] at hrow
          cases hrow
        | some row =>
          obtain ⟨hfound, hpinned, hactive, halias⟩ := select_eq_some_iff.mp hselect
          have hrow : world.catalog.hasRow id.text = true := by simp [Catalog.hasRow, hfound]
          have hdeletable : world.catalog.Deletable id.text force ↔
              ∀ f ∈ world.catalog.activeFamilyIndices, f.universeCohortId ≠ id.text :=
            ⟨fun hd => hd.2.2.2, fun hall => ⟨⟨row, hfound, hpinned⟩, hactive, halias, hall⟩⟩
          rw [hdeletable]
          cases hitem : world.root.get? id.text with
          | none =>
            obtain ⟨hdone, hleft⟩ := deleteSelected_spec force stop
              (SetAside.free hitem) hrow
            exact ⟨fun hc => hdone ⟨hc.1, hc.2.2.2⟩,
              fun hc => hleft fun hall => hc ⟨hall.1, Or.inl hitem, rfl, hall.2⟩⟩
          | some item =>
            obtain ⟨folder, rfl⟩ : ∃ folder, item = .directory folder := by
              cases item with
              | directory folder => exact ⟨folder, rfl⟩
              | symlink => exact absurd hitem hnolink
            rw [← rename_purgeStage_iff hitem]
            cases hafter : world.root.rename id.text (purgeStage id.text uuid) with
            | error error =>
              refine ⟨fun hc => absurd hc.2.1 (by simp), fun _ => ?_⟩
              -- nothing has moved, and the handler finds the directory in its place
              have hkept : Execution.raising world false id.text (some (purgeStage id.text uuid)) error =
                  ⟨.raised error, world, false⟩ := by
                rw [Execution.raising, Root.restore, if_neg (by simp [hitem])]
              show Uncommitted world id (.raising world false id.text _ error)
              rw [hkept]
              exact .unchanged _
            | ok after =>
              obtain ⟨moved, hmoved, rfl⟩ := Root.rename_ok hafter
              obtain rfl : moved = .directory folder := Option.some.inj (hmoved.symm.trans hitem)
              obtain ⟨hdone, hleft⟩ := deleteSelected_spec force stop
                (SetAside.moved _ folder hitem (purgeTarget_purgeStage id uuid)) hrow
              exact ⟨fun hc => hdone ⟨hc.1, hc.2.2.2⟩,
                fun hc => hleft fun hall => hc ⟨hall.1, ⟨_, rfl⟩, rfl, hall.2⟩⟩

end Steps

/-- The row and the directory are both there or both gone. -/
def World.Agrees (world : World) (id : CohortId) : Prop :=
  world.catalog.hasRow id.text = true ↔ world.root.IsDir id.text

/-- An exception that was raised before the commit has changed neither the rows nor the directory. -/
def Execution.Undone (e : Execution) (world : World) (id : CohortId) : Prop :=
  e.committed = false → (∃ error, e.outcome = .raised error) →
    e.world.catalog = world.catalog ∧ e.world.root.get? id.text = world.root.get? id.text

/-- A call that commits is not interrupted by an exception right after its commit while the directory
is there; one that does not commit started from a row with its directory, or from neither. -/
def Survives (world : World) (id : CohortId) (force : Bool) (uuid : Uuid) (stop : Option Stop) : Prop :=
  (Commits world id.text force uuid stop →
    ¬(stop = some ⟨.committed, .exception⟩ ∧ world.root.IsDir id.text)) ∧
  (¬Commits world id.text force uuid stop →
    (world.catalog.hasRow id.text = true ∧ world.root.Recoverable id.text) ∨
    (world.catalog.hasRow id.text = false ∧ ¬world.root.IsDir id.text))

theorem deleteCohort_undone (world : World) (id : CohortId) (force : Bool) (uuid : Uuid)
    (stop : Option Stop) : (deleteCohort world id.text force uuid stop).Undone world id := by
  obtain ⟨hdone, hleft⟩ := deleteCohort_spec world id force uuid stop
  intro hcommitted hraised
  by_cases hc : Commits world id.text force uuid stop
  · rw [(hdone hc).committed] at hcommitted
    cases hcommitted
  · obtain ⟨error, herror⟩ := hraised
    exact ⟨(hleft hc).catalog, (hleft hc).raised error herror⟩

/-- Deleting a cohort, stopped anywhere, and cleaning stale staging after it. -/
theorem deletion_survives_iff {world settled : World} {id : CohortId} {force force' : Bool}
    {uuid : Uuid} {stop : Option Stop} {machine : Machine} {now : Int} {uuids : String → Uuid}
    {removed : Nat}
    (hmaintain : maintainCohortStore (deleteCohort world id.text force uuid stop).world machine now
      force' uuids = .ok (settled, removed)) :
    (settled.Agrees id ∧ (deleteCohort world id.text force uuid stop).Undone world id) ↔
      Survives world id force uuid stop := by
  rw [and_iff_left (deleteCohort_undone world id force uuid stop)]
  obtain ⟨hdone, hleft⟩ := deleteCohort_spec world id force uuid stop
  generalize deleteCohort world id.text force uuid stop = e at hmaintain hdone hleft
  obtain ⟨⟨root, count⟩, hclean, hsettled⟩ := bind_eq_ok.mp hmaintain
  cases hsettled
  have hdir := Cleaning.isDir_cleanStaging id hclean
  simp only [World.Agrees, hdir]
  by_cases hc : Commits world id.text force uuid stop
  · have hcommitted := hdone hc
    simp [Survives, hc, hcommitted.hasRow, hcommitted.isDir]
  · have huncommitted := hleft hc
    by_cases hrow : world.catalog.hasRow id.text = true
    · simp [Survives, hc, huncommitted.catalog, hrow, huncommitted.recoverable]
    · have hsame := huncommitted.absent (by simpa using hrow)
      simp [Survives, hc, huncommitted.catalog, hrow, hsame]

section Stopped

def cohortId : CohortId := ⟨"c-0123456789abcdef", by decide⟩
def drawn : Uuid := ⟨"0123456789abcdef0123456789abcdef", by decide⟩
def host : Machine := ⟨"host", fun _ => false, fun _ => none⟩

def cataloged : World where
  catalog := ⟨⟨[(cohortId, ⟨false⟩)], by simp⟩, [], some [], none, []⟩
  root := ⟨[(cohortId.text, .directory ⟨0, ⟨[("ciks.parquet", .file none)], by simp⟩⟩)], by simp⟩

def leftAfter (stop : Option Stop) : Option (Bool × Bool) :=
  (maintainCohortStore (deleteCohort cataloged cohortId.text false drawn stop).world host 0 false
    fun _ => drawn).toOption.map fun s => (s.1.catalog.hasRow cohortId.text, s.1.root.isDir cohortId.text)

theorem exists_of_leftAfter {stop : Option Stop} {row dir : Bool} (h : leftAfter stop = some (row, dir)) :
    ∃ settled removed,
      maintainCohortStore (deleteCohort cataloged cohortId.text false drawn stop).world host 0 false
        (fun _ => drawn) = .ok (settled, removed) ∧
      settled.catalog.hasRow cohortId.text = row ∧ settled.root.isDir cohortId.text = dir := by
  rw [leftAfter] at h
  obtain ⟨⟨settled, removed⟩, hok, hrow⟩ := Option.map_eq_some_iff.mp h
  obtain ⟨h1, h2⟩ := Prod.mk.inj hrow
  refine ⟨settled, removed, ?_, h1, h2⟩
  cases hm : maintainCohortStore (deleteCohort cataloged cohortId.text false drawn stop).world host 0
      false (fun _ => drawn) with
  | error e =>
    rw [hm] at hok
    cases hok
  | ok s =>
    rw [hm] at hok
    rw [Option.some.inj hok]

/-- A process that died with the directory set aside: the cleaning run brings it back. -/
theorem deletion_survives_crash : ∃ settled removed,
    maintainCohortStore (deleteCohort cataloged cohortId.text false drawn (some ⟨.moved, .crash⟩)).world
      host 0 false (fun _ => drawn) = .ok (settled, removed) ∧
    ((settled.Agrees cohortId ∧
      (deleteCohort cataloged cohortId.text false drawn (some ⟨.moved, .crash⟩)).Undone
        cataloged cohortId) ↔
      Survives cataloged cohortId false drawn (some ⟨.moved, .crash⟩)) := by
  have hleft : leftAfter (some ⟨.moved, .crash⟩) = some (true, true) := by decide +kernel
  obtain ⟨settled, removed, hok, _, _⟩ := exists_of_leftAfter hleft
  exact ⟨settled, removed, hok, deletion_survives_iff hok⟩

/-- An exception as the commit returns: the row is gone, the handler has put the directory back, and
cleaning does not touch it. -/
theorem deletion_orphans_directory : ∃ settled removed,
    maintainCohortStore
      (deleteCohort cataloged cohortId.text false drawn (some ⟨.committed, .exception⟩)).world
      host 0 false (fun _ => drawn) = .ok (settled, removed) ∧ ¬settled.Agrees cohortId := by
  have hleft : leftAfter (some ⟨.committed, .exception⟩) = some (false, true) := by decide +kernel
  obtain ⟨settled, removed, hok, hrow, hdir⟩ := exists_of_leftAfter hleft
  refine ⟨settled, removed, hok, fun hagrees => ?_⟩
  have hthere : settled.catalog.hasRow cohortId.text = true := hagrees.mpr (Root.isDir_iff.mp hdir)
  rw [hrow] at hthere
  cases hthere

end Stopped
end EdgarSec.Cohort
