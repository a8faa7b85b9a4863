import EdgarSec.Dag.RetainedLineage
import EdgarSec.Foundation.RealPaths

/-! What a purge leaves: it removes the greatest set of snapshots that may go together,
when no two of them own one directory. -/

namespace EdgarSec.Dag
open Foundation Lib

namespace Repository
variable {repo next : Repository} {report : RetentionReport} {pins : List String}

/-! ## When a purge has a plan -/

structure Readable (repo : Repository) (report : RetentionReport) (pins : List String) : Prop where
  rechecked : ∃ rechecked, repo.analyzeRetention pins = .ok rechecked
  parts : ∀ row ∈ repo.catalog.nodes, ∀ part ∈ (repo.catalog.rowManifest row).allParts,
    ∃ p, repo.resolvePartPath row.snapshotId part.path = .ok p
  targets : ∀ rechecked, repo.analyzeRetention pins = .ok rechecked →
    ∀ id ∈ report.prunableSnapshots, id ∈ rechecked.prunableSnapshots →
      ∃ t, repo.removalTarget id = .ok t

theorem partPaths_eq_ok_iff : (∃ parts, repo.partPaths = .ok parts) ↔
    ∀ row ∈ repo.catalog.nodes, ∀ part ∈ (repo.catalog.rowManifest row).allParts,
      ∃ p, repo.resolvePartPath row.snapshotId part.path = .ok p := by
  have hlisted : ∀ row, row ∈ repo.catalog.listSnapshots ↔ row ∈ repo.catalog.nodes := fun row =>
    (List.perm_insertionSort _ _).mem_iff
  have hmanifest : ∀ row ∈ repo.catalog.nodes,
      repo.catalog.getManifest row.snapshotId = some (repo.catalog.rowManifest row) := by
    intro row hrow
    have hnode := Catalog.node?_eq_some_iff.mpr ⟨hrow, rfl⟩
    rw [Catalog.getManifest, hnode, Option.map_some]
  constructor
  · rintro ⟨parts, hparts⟩ row hrow part hpart
    obtain ⟨other, hother⟩ := exists_of_mapM hparts ((hlisted row).mpr hrow)
    obtain ⟨paths, hpaths, _⟩ := bind_eq_ok.mp hother
    rw [hmanifest row hrow] at hpaths
    exact exists_of_mapM hpaths hpart
  · intro h
    refine exists_mapM_eq_ok fun row hrow => ?_
    have hrow := (hlisted row).mp hrow
    obtain ⟨paths, hpaths⟩ := exists_mapM_eq_ok (h row hrow)
    refine ⟨(row.snapshotId, paths), bind_eq_ok.mpr ⟨paths, ?_, rfl⟩⟩
    rw [hmanifest row hrow]
    exact hpaths

theorem removalCandidates_eq_ok {ids : List String}
    (h : ∀ id ∈ ids, ∃ t, repo.removalTarget id = .ok t) :
    ∃ candidates, repo.removalCandidates ids = .ok candidates := by
  have hpairs : ∀ id ∈ ids, ∃ pair, (do .ok (id, ← repo.removalTarget id) :
      Except DagError (String × Option (Option Path))) = .ok pair := by
    intro id hid
    obtain ⟨t, ht⟩ := h id hid
    exact ⟨(id, t), bind_eq_ok.mpr ⟨t, ht, rfl⟩⟩
  obtain ⟨targets, htargets⟩ := exists_mapM_eq_ok hpairs
  exact ⟨_, bind_eq_ok.mpr ⟨targets, htargets, rfl⟩⟩

theorem removalPlan_eq_ok_iff :
    (∃ plan, repo.removalPlan report pins = .ok plan) ↔ Readable repo report pins := by
  constructor
  · rintro ⟨plan, h⟩
    obtain ⟨rechecked, hrechecked, h⟩ := bind_eq_ok.mp h
    obtain ⟨parts, hparts, h⟩ := bind_eq_ok.mp h
    obtain ⟨candidates, hcandidates, h⟩ := bind_eq_ok.mp h
    refine ⟨⟨rechecked, hrechecked⟩, partPaths_eq_ok_iff.mp ⟨parts, hparts⟩, ?_⟩
    intro rechecked' hrechecked' id hid hid'
    obtain rfl := Except.ok.inj (hrechecked.symm.trans hrechecked')
    obtain ⟨targets, htargets, _⟩ := bind_eq_ok.mp hcandidates
    have hsafe : id ∈ (report.prunableSnapshots.filter (· ∈ rechecked.prunableSnapshots)).dedup := by
      simp [hid, hid']
    obtain ⟨pair, hpair⟩ := exists_of_mapM htargets hsafe
    obtain ⟨t, ht, _⟩ := bind_eq_ok.mp hpair
    exact ⟨t, ht⟩
  · rintro ⟨⟨rechecked, hrechecked⟩, hparts, htargets⟩
    obtain ⟨parts, hparts⟩ := partPaths_eq_ok_iff.mpr hparts
    have hsafe : ∀ id ∈ (report.prunableSnapshots.filter
        (· ∈ rechecked.prunableSnapshots)).dedup, ∃ t, repo.removalTarget id = .ok t := by
      intro id hid
      obtain ⟨hid, hid'⟩ := List.mem_filter.mp (List.mem_dedup.mp hid)
      exact htargets rechecked hrechecked id hid (of_decide_eq_true hid')
    obtain ⟨candidates, hcandidates⟩ := removalCandidates_eq_ok hsafe
    exact ⟨_, bind_eq_ok.mpr ⟨rechecked, hrechecked, bind_eq_ok.mpr ⟨parts, hparts,
      bind_eq_ok.mpr ⟨candidates, hcandidates, rfl⟩⟩⟩⟩

/-! ## The plan -/

theorem removalPlan_targets {plan : List (String × Option Path)}
    (h : repo.removalPlan report pins = .ok plan) :
    (plan.map Prod.fst).Nodup ∧ ∀ id t, (id, t) ∈ plan → repo.removalTarget id = .ok (some t) := by
  obtain ⟨rechecked, hrechecked, h⟩ := bind_eq_ok.mp h
  obtain ⟨parts, hparts, h⟩ := bind_eq_ok.mp h
  obtain ⟨candidates, hcandidates, h⟩ := bind_eq_ok.mp h
  obtain rfl := Except.ok.inj h
  have hnodup := nodup_removalCandidates hcandidates (List.nodup_dedup _)
  have hsub := @settle_sublist _ (isProtected parts fun s => (candidates.lookup s).getD none)
    candidates.length (candidates.map Prod.fst)
  refine ⟨?_, fun id t hmem => ?_⟩
  · rw [List.map_map]
    simp only [Function.comp_def, List.map_id', sortedIds]
    exact (List.perm_insertionSort _ _).nodup_iff.mpr (hnodup.sublist hsub)
  · obtain ⟨id', hid', heq⟩ := List.mem_map.mp hmem
    obtain ⟨rfl, rfl⟩ := Prod.mk.inj heq
    have hid' := hsub.subset ((List.perm_insertionSort _ _).mem_iff.mp hid')
    obtain ⟨⟨id, t⟩, ht, rfl⟩ := List.mem_map.mp hid'
    dsimp only
    have htarget : (candidates.lookup id).getD none = t := by
      rw [Dict.lookup_eq_some_of_mem hnodup ht, Option.getD_some]
    rw [htarget]
    exact ((mem_removalCandidates hcandidates).mp ht).2

theorem ownedSnapshotDir_eq_some {id : String} {dir : Path}
    (h : repo.ownedSnapshotDir id = .ok (some dir)) :
    repo.files.entry dir = some .dir ∧ repo.files.resolve repo.root = some dir.dropLast := by
  unfold ownedSnapshotDir at h
  dsimp only at h
  split at h
  · cases h
  · rename_i hreal
    obtain ⟨root, hroot, h⟩ := bind_eq_ok.mp h
    obtain ⟨target, htarget, h⟩ := bind_eq_ok.mp h
    have h := Except.ok.inj h
    split at h
    · rename_i hparent
      obtain rfl := Option.some.inj h
      have hresolved : ∀ p q, repo.resolvePath p = .ok q → repo.files.resolve p = some q := by
        intro p q hpq
        unfold resolvePath at hpq
        split at hpq
        · rename_i q' hq'
          rw [hq', Except.ok.inj hpq]
        · cases hpq
      refine ⟨?_, by rw [hparent, hresolved _ _ hroot]⟩
      have hdir : repo.files.stat (repo.snapshotDir id) = some .dir := by
        have hnot := (not_or.mp hreal).2
        simpa [FileSystem.isDir] using hnot
      obtain ⟨q, hq, hentry⟩ := Option.bind_eq_some_iff.mp hdir
      have hsame := (FileSystem.resolve_of_locate hq).symm.trans (hresolved _ _ htarget)
      rwa [← Option.some.inj hsame]
    · cases h

theorem removalTarget_eq_dir {id : String} {dir : Path}
    (h : repo.removalTarget id = .ok (some (some dir))) :
    repo.files.entry dir = some .dir ∧ repo.files.resolve repo.root = some dir.dropLast := by
  obtain ⟨target, htarget, h⟩ := bind_eq_ok.mp h
  have h := Except.ok.inj h
  split at h
  · cases h
  · obtain rfl := Option.some.inj h
    exact ownedSnapshotDir_eq_some htarget

/-! ## Removing one directory after the other -/

def dirsOf (plan : List (String × Option Path)) : List Path := plan.filterMap Prod.snd

theorem dirsOf_none (s : String) (plan : List (String × Option Path)) :
    dirsOf ((s, none) :: plan) = dirsOf plan := rfl

theorem dirsOf_some (s : String) (dir : Path) (plan : List (String × Option Path)) :
    dirsOf ((s, some dir) :: plan) = dir :: dirsOf plan := rfl

theorem mem_dirsOf {plan : List (String × Option Path)} {dir : Path} :
    dir ∈ dirsOf plan ↔ ∃ s, (s, some dir) ∈ plan := by
  simp [dirsOf]

theorem removeAll_eq_ok_iff {plan : List (String × Option Path)}
    (hne : ∀ dir ∈ dirsOf plan, dir ≠ []) :
    (repo.removeAll plan).2 = .ok () ↔
      (∀ dir ∈ dirsOf plan, repo.files.entry dir = some .dir) ∧
        (dirsOf plan).Pairwise fun a b => ¬ a <+: b := by
  induction plan generalizing repo with
  | nil => simp [removeAll, dirsOf]
  | cons e plan ih =>
    obtain ⟨s, target⟩ := e
    cases target with
    | none =>
      rw [dirsOf_none] at hne ⊢
      exact @ih { repo with catalog := repo.catalog.deleteNode s } hne
    | some dir =>
      rw [dirsOf_some] at hne ⊢
      obtain ⟨hdir, hne⟩ := List.forall_mem_cons.mp hne
      rw [List.forall_mem_cons, List.pairwise_cons]
      by_cases hentry : repo.files.entry dir = some .dir
      · have hrest := @ih { repo with
          files := repo.files.without dir, catalog := repo.catalog.deleteNode s } hne
        simp only [removeAll, removeOne, FileSystem.rmtree, hentry, if_true]
        rw [hrest]
        have hkept : ∀ d, (repo.files.without dir).entry d = some .dir ↔
            ¬ dir <+: d ∧ repo.files.entry d = some .dir := by
          intro d
          rw [FileSystem.entry_without repo.files hdir]
          by_cases hpre : dir <+: d <;> simp [hpre]
        simp only [hkept, true_and]
        constructor
        · rintro ⟨hall, hpairs⟩
          exact ⟨fun d hd => (hall d hd).2, fun d hd => (hall d hd).1, hpairs⟩
        · rintro ⟨hall, hapart, hpairs⟩
          exact ⟨fun d hd => ⟨hapart d hd, hall d hd⟩, hpairs⟩
      · simp [removeAll, removeOne, FileSystem.rmtree, hentry]

theorem entry_removeAll {plan : List (String × Option Path)}
    (hne : ∀ dir ∈ dirsOf plan, dir ≠ []) (h : repo.removeAll plan = (next, .ok ())) (p : Path) :
    next.files.entry p =
      if ∃ dir ∈ dirsOf plan, dir <+: p then none else repo.files.entry p := by
  induction plan generalizing repo with
  | nil =>
    obtain ⟨rfl, _⟩ := Prod.mk.inj h
    simp [dirsOf]
  | cons e plan ih =>
    obtain ⟨s, target⟩ := e
    cases target with
    | none =>
      rw [dirsOf_none] at hne ⊢
      exact @ih { repo with catalog := repo.catalog.deleteNode s } hne h
    | some dir =>
      rw [dirsOf_some] at hne ⊢
      obtain ⟨hdir, hne⟩ := List.forall_mem_cons.mp hne
      by_cases hentry : repo.files.entry dir = some .dir
      · simp only [removeAll, removeOne, FileSystem.rmtree, hentry, if_true] at h
        have hrest := ih hne h
        rw [hrest, FileSystem.entry_without repo.files hdir]
        by_cases hpre : dir <+: p <;> simp [hpre]
      · simp [removeAll, removeOne, FileSystem.rmtree, hentry] at h

/-! ## The greatest set -/

theorem safeToRemove_purgeable :
    SafeToRemove repo report pins {id | Purgeable repo report pins id} := by
  refine ⟨?_, ?_, ?_, ?_⟩
  · rintro id ⟨s, hs, hid⟩
    exact hs.listed id hid
  · rintro id ⟨s, hs, hid⟩
    exact hs.prunable id hid
  · rintro id ⟨s, hs, hid⟩
    exact hs.owned id hid
  · rintro id ⟨s, hs, hid⟩ dir hdir row hrow hstays
    exact hs.clear id hid dir hdir row hrow fun hmem => hstays ⟨s, hs, hmem⟩

theorem isGreatest_purgeable :
    IsGreatest {s | SafeToRemove repo report pins s} {id | Purgeable repo report pins id} :=
  ⟨safeToRemove_purgeable, fun s hs _ hid => ⟨s, hs, hid⟩⟩

/-- What a purge did: the ids it names are the greatest set that may go, their nodes and
directories are gone, the other nodes and their part files are as they were. -/
structure RemovesGreatest (repo next : Repository) (report : RetentionReport) (pins : List String)
    (removed : List String) : Prop where
  greatest : IsGreatest {s | SafeToRemove repo report pins s} {id | id ∈ removed}
  nodes : ∀ id, next.catalog.node? id = if id ∈ removed then none else repo.catalog.node? id
  dirs : ∀ id ∈ removed, ∀ dir, repo.removalTarget id = .ok (some (some dir)) →
    next.files.entry dir = none
  parts : ∀ row ∈ next.catalog.nodes, ∀ part ∈ (repo.catalog.rowManifest row).allParts, ∀ p,
    repo.resolvePartPath row.snapshotId part.path = .ok p → next.files.entry p = repo.files.entry p

/-- No two snapshots of the greatest set own one directory, and none owns the root of the
file system. -/
structure OwnDirs (repo : Repository) (report : RetentionReport) (pins : List String) : Prop where
  apart : ∀ id id' dir, Purgeable repo report pins id → Purgeable repo report pins id' →
    repo.removalTarget id = .ok (some (some dir)) →
    repo.removalTarget id' = .ok (some (some dir)) → id = id'
  below : ∀ id, Purgeable repo report pins id → repo.removalTarget id ≠ .ok (some (some []))

section
variable {plan : List (String × Option Path)}

theorem mem_plan_of_purgeable (h : repo.removalPlan report pins = .ok plan) {id : String} {dir : Path}
    (hid : Purgeable repo report pins id) (hdir : repo.removalTarget id = .ok (some (some dir))) :
    (id, some dir) ∈ plan := by
  obtain ⟨⟨_, t⟩, ht, rfl⟩ := List.mem_map.mp ((mem_removalPlan h).mpr hid)
  have htarget := (removalPlan_targets h).2 _ t ht
  rw [hdir] at htarget
  rwa [Option.some.inj (Except.ok.inj htarget)]

theorem OwnDirs.ne_nil (hown : OwnDirs repo report pins)
    (h : repo.removalPlan report pins = .ok plan) : ∀ dir ∈ dirsOf plan, dir ≠ [] := by
  rintro dir hdir rfl
  obtain ⟨id, hmem⟩ := mem_dirsOf.mp hdir
  exact hown.below id ((mem_removalPlan h).mp (List.mem_map.mpr ⟨_, hmem, rfl⟩))
    ((removalPlan_targets h).2 id _ hmem)

theorem OwnDirs.pairwise (hown : OwnDirs repo report pins)
    (h : repo.removalPlan report pins = .ok plan) :
    (dirsOf plan).Pairwise fun a b => ¬ a <+: b := by
  obtain ⟨hnodup, htargets⟩ := removalPlan_targets h
  have hpairs : plan.Pairwise fun a b => a.1 ≠ b.1 := List.pairwise_map.mp hnodup
  refine List.pairwise_filterMap.mpr (hpairs.imp_of_mem ?_)
  rintro ⟨id, t⟩ ⟨id', t'⟩ hmem hmem' hne dir hdir dir' hdir' hpre
  obtain rfl : t = some dir := hdir
  obtain rfl : t' = some dir' := hdir'
  have htarget := htargets id _ hmem
  have htarget' := htargets id' _ hmem'
  have hpurge : ∀ id t, (id, t) ∈ plan → Purgeable repo report pins id := fun id t hmem =>
    (mem_removalPlan h).mp (List.mem_map.mpr ⟨_, hmem, rfl⟩)
  have hlength : dir.length = dir'.length := by
    have hroot := (removalTarget_eq_dir htarget).2.symm.trans (removalTarget_eq_dir htarget').2
    have hlen := congrArg List.length (Option.some.inj hroot)
    have hpos := List.length_pos_iff.mpr (hown.ne_nil h dir (mem_dirsOf.mpr ⟨id, hmem⟩))
    have hpos' := List.length_pos_iff.mpr (hown.ne_nil h dir' (mem_dirsOf.mpr ⟨id', hmem'⟩))
    rw [List.length_dropLast, List.length_dropLast] at hlen
    omega
  obtain rfl := hpre.eq_of_length hlength
  exact hne (hown.apart id id' dir (hpurge id _ hmem) (hpurge id' _ hmem') htarget htarget')

theorem removesGreatest_of_removeAll (hown : OwnDirs repo report pins)
    (h : repo.removalPlan report pins = .ok plan) (hall : repo.removeAll plan = (next, .ok ())) :
    RemovesGreatest repo next report pins (plan.map Prod.fst) := by
  have hset : {id | id ∈ plan.map Prod.fst} = {id | Purgeable repo report pins id} :=
    Set.ext fun id => mem_removalPlan h
  obtain ⟨gone, _, hcatalog, hgone⟩ := removeAll_catalog hall
  obtain rfl := hgone rfl
  have hentry := entry_removeAll (hown.ne_nil h) hall
  refine ⟨hset ▸ isGreatest_purgeable, fun id => ?_, fun id hid dir hdir => ?_, ?_⟩
  · rw [hcatalog, Catalog.node?_deleteNodes]
  · have hmem := mem_plan_of_purgeable h ((mem_removalPlan h).mp hid) hdir
    rw [hentry, if_pos ⟨dir, mem_dirsOf.mpr ⟨id, hmem⟩, List.prefix_refl dir⟩]
  · intro row hrow part hpart p hp
    rw [hentry, if_neg]
    rintro ⟨dir, hdir, hpre⟩
    -- a part below a removed directory belongs to a removed node
    obtain ⟨id, hmem⟩ := mem_dirsOf.mp hdir
    have hid := (mem_removalPlan h).mp (List.mem_map.mpr ⟨_, hmem, rfl⟩)
    have htarget := (removalPlan_targets h).2 id _ hmem
    rw [hcatalog] at hrow
    have hnode := Catalog.node?_of_deleteNodes (Catalog.node?_eq_some_iff.mpr ⟨hrow, rfl⟩)
    have hstays : ¬ Purgeable repo report pins row.snapshotId := fun hpurge =>
      hnode.1 ((mem_removalPlan h).mpr hpurge)
    exact safeToRemove_purgeable.clear id hid dir htarget row
      (Catalog.node?_eq_some_iff.mp hnode.2).1 hstays part hpart p hp hpre

end

theorem purgeUnreferenced_returned {removed : List String}
    (h : repo.purgeUnreferenced report false pins = (next, .ok removed)) :
    ∃ plan, repo.removalPlan report pins = .ok plan ∧ repo.removeAll plan = (next, .ok ()) ∧
      removed = plan.map Prod.fst := by
  unfold purgeUnreferenced at h
  cases hplan : repo.removalPlan report pins with
  | error e =>
    rw [hplan] at h
    cases (Prod.mk.inj h).2
  | ok plan =>
    rw [hplan] at h
    dsimp only at h
    rw [if_neg (by simp)] at h
    refine ⟨plan, rfl, ?_⟩
    cases hall : repo.removeAll plan with
    | mk mid outcome =>
      rw [hall] at h
      cases outcome with
      | error e => cases (Prod.mk.inj h).2
      | ok u =>
        obtain ⟨rfl, hremoved⟩ := Prod.mk.inj h
        exact ⟨rfl, (Except.ok.inj hremoved).symm⟩

theorem ownDirs_of_removesGreatest {plan : List (String × Option Path)}
    (h : repo.removalPlan report pins = .ok plan) (hall : repo.removeAll plan = (next, .ok ()))
    (hgreatest : RemovesGreatest repo next report pins (plan.map Prod.fst)) :
    OwnDirs repo report pins := by
  have hbelow : ∀ id, Purgeable repo report pins id →
      repo.removalTarget id ≠ .ok (some (some [])) := by
    intro id hid hroot
    -- the root of the file system is still there
    have hgone := hgreatest.dirs id ((mem_removalPlan h).mpr hid) [] hroot
    simp [FileSystem.entry] at hgone
  refine ⟨fun id id' dir hid hid' hdir hdir' => ?_, hbelow⟩
  have hne : ∀ dir ∈ dirsOf plan, dir ≠ [] := by
    rintro dir hdir rfl
    obtain ⟨id, hmem⟩ := mem_dirsOf.mp hdir
    exact hbelow id ((mem_removalPlan h).mp (List.mem_map.mpr ⟨_, hmem, rfl⟩))
      ((removalPlan_targets h).2 id _ hmem)
  have hok : (repo.removeAll plan).2 = .ok () := by rw [hall]
  have hpairs := List.pairwise_filterMap.mp ((removeAll_eq_ok_iff hne).mp hok).2
  have happart : plan.Pairwise fun a b => ∀ d, a.2 = some d → b.2 ≠ some d := by
    refine hpairs.imp fun {a b} hab d ha hb => ?_
    exact hab d ha d hb (List.prefix_refl d)
  have hsymm : Std.Symm fun a b : String × Option Path => ∀ d, a.2 = some d → b.2 ≠ some d :=
    ⟨fun a b hab d hb ha => hab d ha hb⟩
  by_contra hids
  have hpair : (id, some dir) ≠ (id', some dir) := fun heq => hids (Prod.mk.inj heq).1
  exact happart.forall (mem_plan_of_purgeable h hid hdir) (mem_plan_of_purgeable h hid' hdir')
    hpair dir rfl rfl

theorem protection_ends (parts : List (String × List Path)) (target : String → Option Path)
    (removable : List String) : ∃ rounds, ∀ n ≥ rounds,
      Settled (isProtected parts target) (settle (isProtected parts target) n removable) ∧
      settle (isProtected parts target) n removable =
        settle (isProtected parts target) rounds removable :=
  ⟨removable.length, fun _ hn => ⟨settled_settle hn, settle_eq_of_le hn (Nat.le_refl _)⟩⟩

/-- The loop of a purge ends, and the purge returns having removed the greatest set exactly
when all that it looks at can be read and no two snapshots of that set own one directory. -/
theorem purgeUnreferenced_greatest_iff :
    (∀ parts target removable, ∃ rounds, ∀ n ≥ rounds,
      Settled (isProtected parts target) (settle (isProtected parts target) n removable) ∧
      settle (isProtected parts target) n removable =
        settle (isProtected parts target) rounds removable) ∧
    ((∃ removed, (repo.purgeUnreferenced report false pins).2 = .ok removed ∧
      RemovesGreatest repo (repo.purgeUnreferenced report false pins).1 report pins removed) ↔
    Readable repo report pins ∧ OwnDirs repo report pins) := by
  refine ⟨protection_ends, ?_⟩
  constructor
  · rintro ⟨removed, hreturned, hgreatest⟩
    obtain ⟨plan, hplan, hall, rfl⟩ := purgeUnreferenced_returned (Prod.ext rfl hreturned)
    exact ⟨removalPlan_eq_ok_iff.mp ⟨plan, hplan⟩, ownDirs_of_removesGreatest hplan hall hgreatest⟩
  · rintro ⟨hreadable, hown⟩
    obtain ⟨plan, hplan⟩ := removalPlan_eq_ok_iff.mpr hreadable
    have hok : (repo.removeAll plan).2 = .ok () := by
      refine (removeAll_eq_ok_iff (hown.ne_nil hplan)).mpr ⟨fun dir hdir => ?_, hown.pairwise hplan⟩
      obtain ⟨id, hmem⟩ := mem_dirsOf.mp hdir
      exact (removalTarget_eq_dir ((removalPlan_targets hplan).2 id _ hmem)).1
    have hall : repo.removeAll plan = ((repo.removeAll plan).1, .ok ()) := Prod.ext rfl hok
    have hpurge : repo.purgeUnreferenced report false pins =
        ((repo.removeAll plan).1, .ok (plan.map Prod.fst)) := by
      unfold purgeUnreferenced
      rw [hplan]
      dsimp only
      rw [if_neg (by simp), hall]
    rw [hpurge]
    exact ⟨_, rfl, removesGreatest_of_removeAll hown hplan hall⟩

end Repository

/-! ## Two names of one directory -/

/-- A checkpoint with the part `p` in its directory. -/
def partNode (id : String) : DAGNodeManifest :=
  { bridgeNode id .checkpoint [] .empty with
    relations := Dict.empty.set "rows" [⟨"p", "", 1, 1, none, none⟩] }

/-- Neither `a` nor `./a` is referenced, and both name the directory `r/a`. -/
def aliasRepository : Repository where
  root := ["r"]
  files := ((FileSystem.empty.mkdirs ["r", "a"]).bind fun fs => fs.writeFile ["r", "a", "p"] [1]).getD .empty
  catalog := (Catalog.empty.recordNodes sha256Hex [partNode "a",
    bridgeNode "./a" .checkpoint [] .empty]).toOption.getD .empty

/-- The purge removes the directory for `./a`, fails to remove it again for `a`, and leaves
that node behind without its part. -/
theorem purgeUnreferenced_fails_on_alias : ∃ report, aliasRepository.analyzeRetention [] = .ok report ∧
    (¬ ∃ removed, (aliasRepository.purgeUnreferenced report false []).2 = .ok removed ∧
      Repository.RemovesGreatest aliasRepository
        (aliasRepository.purgeUnreferenced report false []).1 report [] removed) ∧
    (aliasRepository.purgeUnreferenced report false []).1.catalog.hasSnapshot "a" = true ∧
    aliasRepository.files.entry ["r", "a", "p"] = some (.file [1]) ∧
    (aliasRepository.purgeUnreferenced report false []).1.files.entry ["r", "a", "p"] = none := by
  refine ⟨⟨[], [], ["./a", "a"], 2⟩, by decide +kernel, ?_, by decide +kernel, by decide +kernel,
    by decide +kernel⟩
  have hraises : (aliasRepository.purgeUnreferenced ⟨[], [], ["./a", "a"], 2⟩ false []).2 =
      .error (.fileNotFoundError "No such file or directory") := by decide +kernel
  rintro ⟨removed, hreturned, _⟩
  rw [hraises] at hreturned
  cases hreturned

end EdgarSec.Dag
