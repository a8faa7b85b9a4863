import EdgarSec.Dag.Deletion
import EdgarSec.Dag.Retention
import EdgarSec.Foundation.Sha256

/-! What a purge removes, as one set of snapshots that may go together, and the retained
lineages that survive it. -/

namespace EdgarSec.Dag
open Foundation Lib

structure SafeToRemove (repo : Repository) (report : RetentionReport) (pins : List String)
    (s : Set String) : Prop where
  listed : ∀ id ∈ s, id ∈ report.prunableSnapshots
  prunable : ∀ id ∈ s, ∃ rechecked, repo.analyzeRetention pins = .ok rechecked ∧
    id ∈ rechecked.prunableSnapshots
  owned : ∀ id ∈ s, ∃ target, repo.removalTarget id = .ok (some target)
  clear : ∀ id ∈ s, ∀ dir, repo.removalTarget id = .ok (some (some dir)) →
    ∀ row ∈ repo.catalog.nodes, row.snapshotId ∉ s → ∀ part ∈ (repo.catalog.rowManifest row).allParts,
      ∀ p, repo.resolvePartPath row.snapshotId part.path = .ok p → ¬ dir <+: p

/-- The snapshots of the largest safe set. -/
def Purgeable (repo : Repository) (report : RetentionReport) (pins : List String) (id : String) :
    Prop := ∃ s, SafeToRemove repo report pins s ∧ id ∈ s

namespace Repository
variable {repo next : Repository} {report : RetentionReport} {pins : List String}

/-! ## The removal plan -/

theorem mem_partPaths {parts : List (String × List Path)} (h : repo.partPaths = .ok parts)
    {other : String × List Path} (hother : other ∈ parts) : ∃ row ∈ repo.catalog.nodes,
      row.snapshotId = other.1 ∧ ∀ p ∈ other.2, ∃ part ∈ (repo.catalog.rowManifest row).allParts,
        repo.resolvePartPath row.snapshotId part.path = .ok p := by
  obtain ⟨row, hrow, hpaths⟩ := (mem_mapM h).mp hother
  have hrow := (List.perm_insertionSort _ _).mem_iff.mp hrow
  have hnode := Catalog.node?_eq_some_iff.mpr ⟨hrow, rfl⟩
  obtain ⟨paths, hresolved, hpair⟩ := bind_eq_ok.mp hpaths
  obtain rfl := Except.ok.inj hpair
  refine ⟨row, hrow, rfl, fun p hp => ?_⟩
  obtain ⟨part, hpart, hres⟩ := (mem_mapM hresolved).mp hp
  rw [Catalog.getManifest, hnode] at hpart
  exact ⟨part, hpart, hres⟩

theorem exists_partPaths {parts : List (String × List Path)} (h : repo.partPaths = .ok parts)
    {row : NodeRow} (hrow : row ∈ repo.catalog.nodes) : ∃ paths, (row.snapshotId, paths) ∈ parts ∧
      ∀ part ∈ (repo.catalog.rowManifest row).allParts, ∀ p,
        repo.resolvePartPath row.snapshotId part.path = .ok p → p ∈ paths := by
  have hnode := Catalog.node?_eq_some_iff.mpr ⟨hrow, rfl⟩
  have hrow := (List.perm_insertionSort (fun a b => a.createdAt ≤ b.createdAt) _).mem_iff.mpr hrow
  obtain ⟨other, hother⟩ := exists_of_mapM h hrow
  have hmem := (mem_mapM h).mpr ⟨row, hrow, hother⟩
  obtain ⟨paths, hresolved, hpair⟩ := bind_eq_ok.mp hother
  obtain rfl := Except.ok.inj hpair
  refine ⟨paths, hmem, fun part hpart p hp => (mem_mapM hresolved).mpr ⟨part, ?_, hp⟩⟩
  rwa [Catalog.getManifest, hnode]

theorem isProtected_iff {parts : List (String × List Path)} (h : repo.partPaths = .ok parts)
    {target : String → Option Path} {kept : List String} {id : String} :
    isProtected parts target kept id = true ↔ ∃ dir, target id = some dir ∧
      ∃ row ∈ repo.catalog.nodes, row.snapshotId ∉ kept ∧
        ∃ part ∈ (repo.catalog.rowManifest row).allParts, ∃ p,
          repo.resolvePartPath row.snapshotId part.path = .ok p ∧ dir <+: p := by
  unfold isProtected
  cases target id with
  | none => simp
  | some dir =>
    simp only [List.any_eq_true, decide_eq_true_eq, Option.some.injEq, exists_eq_left']
    constructor
    · rintro ⟨other, hother, hgone, p, hp, hpre⟩
      obtain ⟨row, hrow, hid, hpaths⟩ := mem_partPaths h hother
      obtain ⟨part, hpart, hres⟩ := hpaths p hp
      exact ⟨row, hrow, hid ▸ hgone, part, hpart, p, hres, hpre⟩
    · rintro ⟨row, hrow, hgone, part, hpart, p, hres, hpre⟩
      obtain ⟨paths, hmem, hpaths⟩ := exists_partPaths h hrow
      exact ⟨_, hmem, hgone, p, hpaths part hpart p hres, hpre⟩

theorem isProtected_anti (parts : List (String × List Path)) (target : String → Option Path)
    (s u : List String) (hsu : s ⊆ u) (id : String) (h : isProtected parts target u id = true) :
    isProtected parts target s id = true := by
  unfold isProtected at *
  cases ht : target id with
  | none => simp [ht] at h
  | some dir =>
    simp only [ht, List.any_eq_true, decide_eq_true_eq] at h ⊢
    obtain ⟨other, hother, hgone, hany⟩ := h
    exact ⟨other, hother, fun hs => hgone (hsu hs), hany⟩

theorem map_fst_filterMap_sublist {α β : Type} (l : List (α × Option β)) :
    ((l.filterMap fun t => t.2.map fun b => (t.1, b)).map Prod.fst).Sublist (l.map Prod.fst) := by
  induction l with
  | nil => exact List.Sublist.refl _
  | cons t l ih =>
    obtain ⟨a, _ | b⟩ := t
    · exact ih.cons a
    · exact ih.cons_cons a

theorem mem_removalCandidates {ids : List String} {candidates : List (String × Option Path)}
    (h : repo.removalCandidates ids = .ok candidates) {id : String} {target : Option Path} :
    (id, target) ∈ candidates ↔ id ∈ ids ∧ repo.removalTarget id = .ok (some target) := by
  obtain ⟨targets, htargets, h⟩ := bind_eq_ok.mp h
  obtain rfl := Except.ok.inj h
  rw [List.mem_filterMap]
  constructor
  · rintro ⟨⟨id', t⟩, hmem, heq⟩
    obtain ⟨a, ha, hpair⟩ := (mem_mapM htargets).mp hmem
    obtain ⟨t', ht', hpair⟩ := bind_eq_ok.mp hpair
    obtain ⟨rfl, rfl⟩ := Prod.mk.inj (Except.ok.inj hpair)
    obtain ⟨t, rfl, heq⟩ := Option.map_eq_some_iff.mp heq
    obtain ⟨rfl, rfl⟩ := Prod.mk.inj heq
    exact ⟨ha, ht'⟩
  · rintro ⟨hid, ht⟩
    exact ⟨(id, some target), (mem_mapM htargets).mpr ⟨id, hid, bind_eq_ok.mpr ⟨_, ht, rfl⟩⟩, rfl⟩

theorem nodup_removalCandidates {ids : List String} {candidates : List (String × Option Path)}
    (h : repo.removalCandidates ids = .ok candidates) (hids : ids.Nodup) :
    (candidates.map Prod.fst).Nodup := by
  obtain ⟨targets, htargets, h⟩ := bind_eq_ok.mp h
  obtain rfl := Except.ok.inj h
  refine List.Nodup.sublist (map_fst_filterMap_sublist targets) ?_
  rwa [map_fst_mapM htargets]

section Plan
variable {rechecked : RetentionReport} {parts : List (String × List Path)}
  {candidates : List (String × Option Path)} {target : String → Option Path}

structure Planned (repo : Repository) (report : RetentionReport) (pins : List String)
    (rechecked : RetentionReport) (parts : List (String × List Path))
    (candidates : List (String × Option Path)) (target : String → Option Path) : Prop where
  recheck : repo.analyzeRetention pins = .ok rechecked
  resolved : repo.partPaths = .ok parts
  mem : ∀ id t, (id, t) ∈ candidates ↔ (id ∈ report.prunableSnapshots ∧
    id ∈ rechecked.prunableSnapshots) ∧ repo.removalTarget id = .ok (some t)
  target_eq : ∀ id t, (id, t) ∈ candidates → target id = t

theorem exists_planned {plan : List (String × Option Path)}
    (h : repo.removalPlan report pins = .ok plan) : ∃ rechecked parts candidates target,
      Planned repo report pins rechecked parts candidates target ∧
      plan = (sortedIds (settle (isProtected parts target) (candidates.map Prod.fst).length
        (candidates.map Prod.fst))).map fun s => (s, target s) := by
  obtain ⟨rechecked, hrechecked, h⟩ := bind_eq_ok.mp h
  obtain ⟨parts, hparts, h⟩ := bind_eq_ok.mp h
  obtain ⟨candidates, hcandidates, h⟩ := bind_eq_ok.mp h
  have hnodup := nodup_removalCandidates hcandidates (List.nodup_dedup _)
  refine ⟨rechecked, parts, candidates, fun id => (candidates.lookup id).getD none,
    ⟨hrechecked, hparts, fun id t => ?_, fun id t ht => ?_⟩, ?_⟩
  · rw [mem_removalCandidates hcandidates]
    simp
  · simp only [Dict.lookup_eq_some_of_mem hnodup ht, Option.getD_some]
  · rw [List.length_map]
    exact (Except.ok.inj h).symm

theorem Planned.safeToRemove (h : Planned repo report pins rechecked parts candidates target)
    {s : List String} (hsub : s ⊆ candidates.map Prod.fst)
    (hsettled : Settled (isProtected parts target) s) :
    SafeToRemove repo report pins {x | x ∈ s} := by
  have hcand : ∀ x ∈ s, ∃ t, (x, t) ∈ candidates := fun x hx => by
    obtain ⟨⟨_, t⟩, hmem, rfl⟩ := List.mem_map.mp (hsub hx)
    exact ⟨t, hmem⟩
  refine ⟨fun x hx => ?_, fun x hx => ?_, fun x hx => ?_, fun x hx dir hdir => ?_⟩ <;>
    obtain ⟨t, ht⟩ := hcand x hx
  · exact ((h.mem x t).mp ht).1.1
  · exact ⟨rechecked, h.recheck, ((h.mem x t).mp ht).1.2⟩
  · exact ⟨t, ((h.mem x t).mp ht).2⟩
  · have htdir : some t = some (some dir) :=
      Except.ok.inj (((h.mem x t).mp ht).2.symm.trans hdir)
    obtain rfl := Option.some.inj htdir
    intro row hrow hgone part hpart p hp hpre
    have hbad : isProtected parts target s x = true := (isProtected_iff h.resolved).mpr
      ⟨dir, h.target_eq x _ ht, row, hrow, hgone, part, hpart, p, hp, hpre⟩
    rw [hsettled x hx] at hbad
    cases hbad

theorem Planned.settled (h : Planned repo report pins rechecked parts candidates target)
    {s : Set String} (hs : SafeToRemove repo report pins s) :
    ∃ u ⊆ candidates.map Prod.fst, Settled (isProtected parts target) u ∧ ∀ x, x ∈ u ↔ x ∈ s := by
  classical
  have hcand : ∀ x ∈ s, ∃ t, (x, t) ∈ candidates := fun x hx => by
    obtain ⟨re, hre, hprunable⟩ := hs.prunable x hx
    obtain ⟨t, ht⟩ := hs.owned x hx
    rw [h.recheck] at hre
    obtain rfl := Except.ok.inj hre
    exact ⟨t, (h.mem x t).mpr ⟨⟨hs.listed x hx, hprunable⟩, ht⟩⟩
  have hin : ∀ x, x ∈ (candidates.map Prod.fst).filter (· ∈ s) ↔ x ∈ s := by
    intro x
    simp only [List.mem_filter, decide_eq_true_eq, and_iff_right_iff_imp]
    intro hx
    obtain ⟨t, ht⟩ := hcand x hx
    exact List.mem_map.mpr ⟨_, ht, rfl⟩
  refine ⟨_, List.filter_sublist.subset, fun x hx => Bool.eq_false_iff.mpr fun hbad => ?_, hin⟩
  have hx := (hin x).mp hx
  obtain ⟨t, ht⟩ := hcand x hx
  obtain ⟨dir, hdir, row, hrow, hgone, part, hpart, p, hp, hpre⟩ := (isProtected_iff h.resolved).mp hbad
  rw [h.target_eq x t ht] at hdir
  exact hs.clear x hx dir (hdir ▸ ((h.mem x t).mp ht).2) row hrow (fun hr => hgone ((hin _).mpr hr))
    part hpart p hp hpre

end Plan

theorem mem_removalPlan {plan : List (String × Option Path)}
    (h : repo.removalPlan report pins = .ok plan) {id : String} :
    id ∈ plan.map Prod.fst ↔ Purgeable repo report pins id := by
  obtain ⟨rechecked, parts, candidates, target, hplan, rfl⟩ := exists_planned h
  rw [List.map_map]
  simp only [Function.comp_def, List.map_id', sortedIds]
  rw [(List.perm_insertionSort _ _).mem_iff, mem_settle_iff (isProtected_anti parts target)]
  constructor
  · rintro ⟨s, hsub, hsettled, hs⟩
    exact ⟨_, hplan.safeToRemove hsub hsettled, hs⟩
  · rintro ⟨s, hsafe, hs⟩
    obtain ⟨u, hsub, hsettled, hu⟩ := hplan.settled hsafe
    exact ⟨u, hsub, hsettled, (hu id).mpr hs⟩

/-! ## What the roots keep -/

section Roots
variable {rechecked : RetentionReport}

theorem retained_of_mem_walkLineage {cat : Catalog} {roots retained : List String}
    (h : retainedIds cat roots = .ok retained) {root : String} (hroot : root ∈ roots) :
    ∃ ms, cat.walkLineage root = .ok ms ∧ ∀ m ∈ ms, ∀ id ∈ pinnedIds m, id ∈ retained := by
  obtain ⟨chains, hchains, h⟩ := bind_eq_ok.mp h
  obtain rfl := Except.ok.inj h
  obtain ⟨ms, hms⟩ := exists_of_mapM hchains hroot
  refine ⟨ms, hms, fun m hm id hid => List.mem_dedup.mpr (List.mem_flatMap.mpr ⟨m, ?_, hid⟩)⟩
  exact List.mem_flatten.mpr ⟨ms, (mem_mapM hchains).mpr ⟨root, hroot, hms⟩, hm⟩

theorem exists_retained (h : repo.analyzeRetention pins = .ok rechecked) :
    ∃ retained, retainedIds repo.catalog (discoverRoots repo.catalog pins) = .ok retained ∧
      ∀ id ∈ rechecked.prunableSnapshots, id ∉ retained := by
  unfold analyzeRetention at h
  rw [if_neg (by decide), if_neg (by decide)] at h
  obtain ⟨retained, hretained, h⟩ := bind_eq_ok.mp h
  refine ⟨retained, hretained, fun id hid => ?_⟩
  obtain rfl := Except.ok.inj h
  have hid := (List.perm_insertionSort _ _).mem_iff.mp hid
  rcases List.mem_append.mp hid with hnode | hdir
  · exact of_decide_eq_true (List.mem_filter.mp hnode).2
  · have hkeep := of_decide_eq_true (List.mem_filter.mp hdir).2
    exact hkeep.2.2.1

theorem not_prunable_of_root (h : repo.analyzeRetention pins = .ok rechecked) {id : String}
    (hroot : id ∈ discoverRoots repo.catalog pins) (hnode : repo.catalog.hasSnapshot id = true) :
    id ∉ rechecked.prunableSnapshots := by
  obtain ⟨retained, hretained, hprunable⟩ := exists_retained h
  obtain ⟨ms, hms, hpinned⟩ := retained_of_mem_walkLineage hretained hroot
  obtain ⟨r, hr⟩ := Option.isSome_iff_exists.mp hnode
  unfold Catalog.walkLineage at hms
  split at hms
  · cases hms
  · rename_i ls hls
    obtain rfl := Except.ok.inj hms
    have hrow : r ∈ ls.flatten := mem_flatten_of_levels hls (by simp [hr])
    have hmem : repo.catalog.rowManifest r ∈ _ := (Catalog.mem_walkLineage hls).mpr ⟨r, hrow, rfl⟩
    have hid : r.snapshotId = id := Catalog.snapshotId_of_node? hr
    refine fun hp => hprunable id hp (hpinned _ hmem id ?_)
    unfold pinnedIds
    simp [Catalog.rowManifest, hid]

theorem mem_discoverRoots_of_tip {cat : Catalog} {b id : String} (h : cat.tipId b = some id) :
    id ∈ discoverRoots cat pins := by
  obtain ⟨row, hrow, rfl⟩ := Option.map_eq_some_iff.mp h
  refine List.mem_dedup.mpr (List.mem_append_left _ (List.mem_append_left _ ?_))
  exact List.mem_map.mpr ⟨_, Dict.get?_eq_some_iff.mp hrow, rfl⟩

end Roots

/-! ## The removal -/

theorem removeAll_catalog {plan : List (String × Option Path)} {result : Except DagError Unit}
    (h : repo.removeAll plan = (next, result)) :
    ∃ gone, gone <+: plan.map Prod.fst ∧ next.catalog = repo.catalog.deleteNodes gone ∧
      (result = .ok () → gone = plan.map Prod.fst) := by
  induction plan generalizing repo with
  | nil =>
    obtain ⟨rfl, rfl⟩ := Prod.mk.inj h
    exact ⟨[], List.nil_prefix, rfl, fun _ => rfl⟩
  | cons e plan ih =>
    obtain ⟨s, target⟩ := e
    rw [removeAll] at h
    cases hone : repo.removeOne s target with
    | error e =>
      rw [hone] at h
      obtain ⟨rfl, rfl⟩ := Prod.mk.inj h
      exact ⟨[], List.nil_prefix, rfl, fun h => by cases h⟩
    | ok mid =>
      rw [hone] at h
      obtain ⟨gone, hpre, hcat, hall⟩ := ih h
      have hmid : mid.catalog = repo.catalog.deleteNode s := by
        unfold removeOne at hone
        split at hone
        · obtain rfl := Except.ok.inj hone
          rfl
        · split at hone
          · cases hone
          · obtain rfl := Except.ok.inj hone
            rfl
      refine ⟨s :: gone, ?_, ?_, fun hok => by rw [hall hok, List.map_cons]⟩
      · simpa using hpre
      · rw [hcat, hmid]
        rfl

theorem purgeUnreferenced_catalog {dryRun : Bool} {result : Except DagError (List String)}
    (h : repo.purgeUnreferenced report dryRun pins = (next, result)) :
    ∃ gone, next.catalog = repo.catalog.deleteNodes gone ∧
      (∀ id ∈ gone, dryRun = false ∧ Purgeable repo report pins id) ∧
      (dryRun = false → (∃ removed, result = .ok removed) →
        ∀ id, Purgeable repo report pins id → id ∈ gone) := by
  unfold purgeUnreferenced at h
  cases hplan : repo.removalPlan report pins with
  | error e =>
    rw [hplan] at h
    obtain ⟨rfl, rfl⟩ := Prod.mk.inj h
    refine ⟨[], rfl, by simp, ?_⟩
    rintro - ⟨_, h⟩
    cases h
  | ok plan =>
    rw [hplan] at h
    dsimp only at h
    cases dryRun with
    | true =>
      obtain ⟨rfl, rfl⟩ := Prod.mk.inj h
      exact ⟨[], rfl, by simp, fun h => by cases h⟩
    | false =>
      rw [if_neg (by simp)] at h
      cases hall : repo.removeAll plan with
      | mk mid outcome =>
        rw [hall] at h
        obtain ⟨gone, hpre, hcat, hdone⟩ := removeAll_catalog hall
        have hmid : next = mid := by cases outcome <;> exact (Prod.mk.inj h).1.symm
        refine ⟨gone, hmid ▸ hcat, fun id hid => ⟨rfl, (mem_removalPlan hplan).mp (hpre.subset hid)⟩, ?_⟩
        rintro - ⟨removed, rfl⟩ id hid
        cases outcome with
        | error e => cases (Prod.mk.inj h).2
        | ok _ =>
          rw [hdone rfl]
          exact (mem_removalPlan hplan).mpr hid

/-! ## Retained lineages -/

theorem keeps_lineages_of_not_purgeable {dryRun : Bool} {result : Except DagError (List String)}
    (h : repo.purgeUnreferenced report dryRun pins = (next, result))
    (hclear : dryRun = true ∨ ∀ s ∈ report.retainedSnapshots, ∀ chain,
      walkLineage repo.catalog s = .ok chain →
        ∀ node ∈ chain.nodes, ¬ Purgeable repo report pins node.snapshotId) :
    ∀ s ∈ report.retainedSnapshots, ∀ chain, walkLineage repo.catalog s = .ok chain →
      walkLineage next.catalog s = .ok chain := by
  obtain ⟨gone, hcat, hgone, _⟩ := purgeUnreferenced_catalog h
  intro s hs chain hchain
  rw [hcat, walkLineage_eq_ok_iff]
  refine (walkLineage_eq_ok_iff.mp hchain).deleteNodes fun node hnode hid => ?_
  obtain ⟨hdry, hpurge⟩ := hgone _ hid
  rcases hclear with htrue | hclear
  · rw [hdry] at htrue
    cases htrue
  · exact hclear s hs chain hchain node hnode hpurge

end Repository

/-! ## A base snapshot that is pinned by name -/

def bridgeNode (id : String) (kind : NodeKind) (parents : List String)
    (metadata : Dict String Json) : DAGNodeManifest where
  snapshotId := id
  kind := kind
  parents := parents.map fun p => ⟨p, ""⟩
  checkpointAnchorId := ""
  lineageDepth := parents.length
  createdAt := id
  relations := .empty
  logicalFingerprint := ""
  metadata := metadata

def bridgeCatalog : Except DagError Catalog :=
  Catalog.empty.recordNodes sha256Hex [bridgeNode "a0" .checkpoint [] .empty,
    bridgeNode "b0" .checkpoint [] .empty, bridgeNode "b1" .delta ["b0"] .empty,
    bridgeNode "a1" .delta ["a0"] (Dict.empty.set "base_snapshot_id" (.str "b1"))]

/-- `main` is at `a1`, whose metadata names the delta `b1` on top of `b0` as its base. -/
def bridgeRepository : Repository where
  root := ["r"]
  files := (FileSystem.empty.mkdirs ["r"]).getD .empty
  catalog := (bridgeCatalog.toOption.getD .empty).writePointer "main" "a1" "t"

end EdgarSec.Dag
