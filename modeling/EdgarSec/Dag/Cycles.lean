import EdgarSec.Dag.CompareAndSwap
import EdgarSec.Dag.Deletion

/-! Cycles of parents: which of them the audit finds, and which of them the recursive
query runs into. -/

namespace EdgarSec.Dag
open Foundation Lib

namespace Catalog

/-! ## Chains of first parents -/

/-- The row that `parent_id` names. -/
def firstParent (cat : Catalog) (r : NodeRow) : Option NodeRow := r.parentId.bind cat.node?

def visitedText (rows : List NodeRow) : String :=
  rows.foldl (fun path r => path ++ r.snapshotId ++ "/") "/"

def soughtText (r : NodeRow) : String := "/" ++ r.snapshotId ++ "/"

theorem visitedText_append (rows : List NodeRow) (r : NodeRow) :
    visitedText (rows ++ [r]) = visitedText rows ++ r.snapshotId ++ "/" := by
  rw [visitedText, List.foldl_append]
  rfl

theorem visitedText_slash (rows : List NodeRow) : ['/'] <:+ (visitedText rows).toList := by
  cases rows using List.reverseRecOn with
  | nil => exact List.suffix_refl _
  | append_singleton rows r =>
    rw [visitedText_append, String.toList_append]
    exact List.suffix_append _ _

theorem sought_of_mem {rows : List NodeRow} {r : NodeRow} (h : r ∈ rows) :
    (soughtText r).toList <:+: (visitedText rows).toList := by
  induction rows using List.reverseRecOn with
  | nil => cases h
  | append_singleton rows r' ih =>
    rw [visitedText_append]
    rcases List.mem_append.mp h with h | h
    · have hearlier := ih h
      rw [String.append_assoc, String.toList_append]
      exact hearlier.trans (List.prefix_append _ _).isInfix
    · obtain rfl := List.mem_singleton.mp h
      obtain ⟨front, hfront⟩ := visitedText_slash rows
      refine ⟨front, [], ?_⟩
      rw [String.toList_append, String.toList_append, ← hfront]
      simp [soughtText, String.toList_append]

/-- The chain of first parents of some node comes to a node whose name stands in the path
walked so far. -/
def Closes (cat : Catalog) : Prop :=
  ∃ r ∈ cat.nodes, ∃ path last, List.IsChain (fun a b => cat.firstParent a = some b)
    (r :: path ++ [last]) ∧ last.parentId ≠ none ∧
    (soughtText last).toList <:+: (visitedText (r :: path)).toList

section
variable {cat : Catalog}

theorem onCycle_succ {n : Nat} {path : String} {curr : Option String} :
    cat.onCycle (n + 1) path curr = true ↔ ∃ r, curr.bind cat.node? = some r ∧ r.parentId ≠ none ∧
      ((soughtText r).toList <:+: path.toList ∨
        cat.onCycle n (path ++ r.snapshotId ++ "/") r.parentId = true) := by
  rw [onCycle]
  cases curr.bind cat.node? with
  | none => simp
  | some r =>
    by_cases hp : r.parentId = none
    · simp [hp]
    · by_cases hin : (soughtText r).toList <:+: path.toList
      · have hin' : ("/" ++ r.snapshotId ++ "/").toList <:+: path.toList := hin
        simp only [if_neg hp, if_pos hin', Option.some.injEq, true_iff]
        exact ⟨r, rfl, hp, Or.inl hin⟩
      · have hin' : ¬ ("/" ++ r.snapshotId ++ "/").toList <:+: path.toList := hin
        simp only [if_neg hp, if_neg hin', Option.some.injEq]
        constructor
        · intro h
          exact ⟨r, rfl, hp, Or.inr h⟩
        · rintro ⟨_, rfl, _, h | h⟩
          · exact absurd h hin
          · exact h

theorem onCycle_bounded {m : Nat} {visited : List NodeRow} {curr : Option String}
    (h : cat.onCycle m (visitedText visited) curr = true) (hnodup : visited.Nodup)
    (hrows : visited ⊆ cat.nodes) :
    cat.onCycle (cat.nodes.length - visited.length + 1) (visitedText visited) curr = true := by
  induction m generalizing visited curr with
  | zero => cases h
  | succ m ih =>
    obtain ⟨r, hr, hp, hor⟩ := Iff.mp onCycle_succ h
    rw [onCycle_succ]
    refine ⟨r, hr, hp, ?_⟩
    by_cases hin : (soughtText r).toList <:+: (visitedText visited).toList
    · exact Or.inl hin
    · have hnext := hor.resolve_left hin
      rw [← visitedText_append] at hnext ⊢
      have hfresh : r ∉ visited := fun hmem => hin (sought_of_mem hmem)
      have hrow : r ∈ cat.nodes := by
        obtain ⟨id, _, hid⟩ := Option.bind_eq_some_iff.mp hr
        exact (node?_eq_some_iff.mp hid).1
      have hnodup' : (visited ++ [r]).Nodup := by
        rw [List.nodup_append]
        exact ⟨hnodup, List.nodup_singleton r, fun a ha b hb => by
          rw [List.mem_singleton.mp hb]
          exact fun hab => hfresh (hab ▸ ha)⟩
      have hrows' : visited ++ [r] ⊆ cat.nodes := by
        intro a ha
        rcases List.mem_append.mp ha with ha | ha
        · exact hrows ha
        · rwa [List.mem_singleton.mp ha]
      have hle := hnodup'.length_le_of_subset hrows'
      rw [List.length_append, List.length_singleton] at hle
      have hround := ih hnext hnodup' hrows'
      have hlen : cat.nodes.length - (visited ++ [r]).length + 1 =
          cat.nodes.length - visited.length := by
        rw [List.length_append, List.length_singleton]
        omega
      rw [hlen] at hround
      exact Or.inr hround

theorem onCycle_of_chain {visited path : List NodeRow} {v last : NodeRow}
    (hchain : List.IsChain (fun a b => cat.firstParent a = some b) (v :: path ++ [last]))
    (hp : last.parentId ≠ none)
    (hin : (soughtText last).toList <:+: (visitedText (visited ++ v :: path)).toList) :
    cat.onCycle (path.length + 1) (visitedText (visited ++ [v])) v.parentId = true := by
  induction path generalizing visited v with
  | nil =>
    rw [onCycle_succ]
    exact ⟨last, (List.isChain_cons_cons.mp hchain).1, hp, Or.inl hin⟩
  | cons b path ih =>
    obtain ⟨hvb, hchain⟩ := List.isChain_cons_cons.mp hchain
    rw [List.length_cons, onCycle_succ]
    refine ⟨b, hvb, ?_, Or.inr ?_⟩
    · -- a row with a first parent names one
      intro hnone
      cases path with
      | nil =>
        have hb := (List.isChain_cons_cons.mp hchain).1
        simp [firstParent, hnone] at hb
      | cons c path =>
        have hb := (List.isChain_cons_cons.mp hchain).1
        simp [firstParent, hnone] at hb
    · rw [← visitedText_append]
      exact ih hchain (by simpa using hin)

theorem exists_chain_of_onCycle {m : Nat} {visited : List NodeRow} {v : NodeRow}
    (h : cat.onCycle m (visitedText (visited ++ [v])) v.parentId = true) :
    ∃ path last, List.IsChain (fun a b => cat.firstParent a = some b) (v :: path ++ [last]) ∧
      last.parentId ≠ none ∧
      (soughtText last).toList <:+: (visitedText (visited ++ v :: path)).toList := by
  induction m generalizing visited v with
  | zero => cases h
  | succ m ih =>
    obtain ⟨r, hr, hp, hin | hnext⟩ := Iff.mp onCycle_succ h
    · exact ⟨[], r, List.isChain_pair.mpr hr, hp, hin⟩
    · rw [← visitedText_append] at hnext
      obtain ⟨path, last, hchain, hlast, hin⟩ := ih hnext
      exact ⟨r :: path, last, List.isChain_cons_cons.mpr ⟨hr, hchain⟩, hlast, by simpa using hin⟩

theorem cycles_ne_nil_iff : cat.cycles ≠ [] ↔ cat.Closes := by
  have htext : ∀ r : NodeRow, "/" ++ r.snapshotId ++ "/" = visitedText [r] := fun r => rfl
  have hkey : cat.cycles ≠ [] ↔ ∃ r ∈ cat.nodes, r.parentId ≠ none ∧
      cat.onCycle cat.nodes.length (visitedText [r]) r.parentId = true := by
    simp only [cycles, ne_eq, List.map_eq_nil_iff, List.filter_eq_nil_iff, decide_eq_true_eq,
      not_forall, not_not, exists_prop, htext]
  rw [hkey]
  constructor
  · rintro ⟨r, hr, _, hcycle⟩
    obtain ⟨path, last, hchain, hlast, hin⟩ := @exists_chain_of_onCycle cat _ [] r hcycle
    exact ⟨r, hr, path, last, hchain, hlast, hin⟩
  · rintro ⟨r, hr, path, last, hchain, hlast, hin⟩
    have hfound := @onCycle_of_chain cat [] path r last hchain hlast hin
    have hparent : r.parentId ≠ none := by
      intro hnone
      obtain ⟨_, hr, _, _⟩ := Iff.mp onCycle_succ hfound
      simp [hnone] at hr
    have hbound := onCycle_bounded hfound (List.nodup_singleton r)
      (by simpa using hr)
    have hpos : cat.nodes.length - [r].length + 1 = cat.nodes.length := by
      have := List.length_pos_of_mem hr
      simp only [List.length_singleton]
      omega
    rw [List.nil_append, hpos] at hbound
    exact ⟨r, hr, hparent, hbound⟩

/-! ## Cycles over all parents -/

/-- From the tip a cycle of parents can be reached without passing through a checkpoint. -/
def TipReachesCycle (cat : Catalog) (tipId : String) : Prop :=
  ∃ r, cat.node? tipId = some r ∧ ReachesCycle cat.lineageStep r

theorem mem_nodes_of_lineageStep {r p : NodeRow} (h : p ∈ cat.lineageStep r) : p ∈ cat.nodes := by
  unfold lineageStep at h
  split at h
  · cases h
  · obtain ⟨row, _, hrow⟩ := List.mem_filterMap.mp h
    exact (node?_eq_some_iff.mp hrow).1

theorem mem_nodes_of_reaches {r p : NodeRow} (hr : r ∈ cat.nodes)
    (h : Relation.ReflTransGen (fun a b => b ∈ cat.lineageStep a) r p) : p ∈ cat.nodes := by
  rcases h.cases_tail with rfl | ⟨q, _, hqp⟩
  · exact hr
  · exact mem_nodes_of_lineageStep hqp

theorem lineageLevels_isSome_iff {tipId : String} :
    (cat.lineageLevels tipId).isSome ↔ ¬ cat.TipReachesCycle tipId := by
  unfold lineageLevels TipReachesCycle
  rw [levels_isSome_iff_acyclic]
  · simp only [Option.mem_toList, not_exists, not_and]
  · intro r hr p hp
    exact mem_nodes_of_reaches (node?_eq_some_iff.mp (Option.mem_toList.mp hr)).1 hp

theorem levelAt_ne_nil_iff {tipId : String} :
    (∀ k, levelAt cat.lineageStep k (cat.node? tipId).toList ≠ []) ↔ cat.TipReachesCycle tipId := by
  constructor
  · intro h
    by_contra hacyclic
    exact h _ ((levels_isSome_iff _ _).mp (Iff.mpr lineageLevels_isSome_iff hacyclic))
  · rintro ⟨r, hr, hcycle⟩ k
    exact levelAt_ne_nil_of_reachesCycle (Option.mem_toList.mpr hr) hcycle k

end
end Catalog

section
variable {cat : Catalog} {tipId : String}

theorem walkLineage_of_closes (h : cat.Closes) :
    ∃ message, walkLineage cat tipId = .error (.cycleDetectedError message) := by
  have hcycles : cat.auditGraph.cycles ≠ [] := Iff.mpr Catalog.cycles_ne_nil_iff h
  unfold walkLineage
  rw [if_pos hcycles]
  exact ⟨_, rfl⟩

theorem checkNode_error_cases {node : DAGNodeManifest} {e : DagError}
    (h : checkNode cat node = .error e) : node.kind ≠ .checkpoint ∧
    ((node.parents = [] ∧
        e = .brokenLineageError ("delta node " ++ node.snapshotId ++ " has no parents")) ∨
      ∃ parent ∈ node.parents,
        (cat.getManifestSha256 parent.snapshotId = none ∧
          e = .brokenLineageError ("parent manifest missing for " ++ parent.snapshotId)) ∨
        ∃ digest, cat.getManifestSha256 parent.snapshotId = some digest ∧
          parent.manifestSha256 ≠ "" ∧ digest ≠ parent.manifestSha256 ∧
          e = .digestMismatchError ("parent manifest digest mismatch for " ++ parent.snapshotId ++
            ": expected " ++ parent.manifestSha256 ++ ", got " ++ digest)) := by
  unfold checkNode at h
  split at h
  · cases h
  · rename_i hkind
    refine ⟨hkind, ?_⟩
    split at h
    · rename_i hparents
      exact Or.inl ⟨hparents, (Except.error.inj h).symm⟩
    · obtain ⟨parent, hparent, h⟩ := exists_of_forM_eq_error h
      refine Or.inr ⟨parent, hparent, ?_⟩
      unfold checkParent at h
      cases hdigest : cat.getManifestSha256 parent.snapshotId with
      | none =>
        rw [hdigest] at h
        exact Or.inl ⟨rfl, (Except.error.inj h).symm⟩
      | some digest =>
        simp only [hdigest] at h
        split at h
        · rename_i hpinned
          exact Or.inr ⟨digest, rfl, hpinned.1, hpinned.2, (Except.error.inj h).symm⟩
        · cases h

theorem walkLineage_error_cases {e : DagError} (h : walkLineage cat tipId = .error e) :
    cat.Closes ∨
    (cat.node? tipId = none ∧ e = .brokenLineageError ("manifest missing for " ++ tipId)) ∨
    (cat.TipReachesCycle tipId ∧ e = Catalog.endlessQuery) ∨
    ∃ ls, cat.lineageLevels tipId = some ls ∧
      ∃ r ∈ ls.flatten, checkNode cat (cat.rowManifest r) = .error e := by
  by_cases hcycles : cat.auditGraph.cycles ≠ []
  · exact Or.inl (Iff.mp Catalog.cycles_ne_nil_iff hcycles)
  · refine Or.inr ?_
    rw [walkLineage, if_neg hcycles] at h
    by_cases hrecorded : cat.hasSnapshot tipId = false
    · rw [if_pos hrecorded] at h
      exact Or.inl ⟨by simpa [Catalog.hasSnapshot] using hrecorded, (Except.error.inj h).symm⟩
    · refine Or.inr ?_
      rw [if_neg hrecorded, Catalog.walkLineage] at h
      cases hls : cat.lineageLevels tipId with
      | none =>
        rw [hls] at h
        refine Or.inl ⟨?_, (Except.error.inj h).symm⟩
        by_contra hacyclic
        rw [← Catalog.lineageLevels_isSome_iff, hls] at hacyclic
        cases hacyclic
      | some ls =>
        refine Or.inr ⟨ls, rfl, ?_⟩
        simp only [hls] at h
        have hmem : ∀ m, m ∈ (Catalog.orderedIds ls).filterMap cat.getManifest ↔
            ∃ r ∈ ls.flatten, cat.rowManifest r = m := fun m => Catalog.mem_walkLineage hls
        -- the tip itself stands in the lineage
        obtain ⟨tip, htip⟩ : ∃ r, cat.node? tipId = some r :=
          Option.ne_none_iff_exists'.mp (by simpa [Catalog.hasSnapshot] using hrecorded)
        have htipmem := (hmem _).mpr ⟨tip, mem_flatten_of_levels hls (by simp [htip]), rfl⟩
        cases hnodes : (Catalog.orderedIds ls).filterMap cat.getManifest with
        | nil =>
          rw [hnodes] at htipmem
          cases htipmem
        | cons first rest =>
          rw [hnodes] at h hmem
          have hloop : (first :: rest).forM (checkNode cat) = .error e := by
            cases hall : (first :: rest).forM (checkNode cat) with
            | error e' =>
              simp only [bind, Except.bind, hall] at h
              rw [Except.error.inj h]
            | ok u => simp [bind, Except.bind, hall] at h
          obtain ⟨m, hm, he⟩ := exists_of_forM_eq_error hloop
          obtain ⟨r, hr, rfl⟩ := (hmem m).mp hm
          exact ⟨r, hr, he⟩

theorem walkLineage_endless (hopen : ¬ cat.Closes) (h : cat.TipReachesCycle tipId) :
    walkLineage cat tipId = .error Catalog.endlessQuery := by
  have hcycles : ¬ cat.auditGraph.cycles ≠ [] := fun hne => hopen (Iff.mp Catalog.cycles_ne_nil_iff hne)
  obtain ⟨r, hr, _⟩ := id h
  have hrecorded : ¬ cat.hasSnapshot tipId = false := by simp [Catalog.hasSnapshot, hr]
  have hquery : cat.lineageLevels tipId = none := by
    rw [← Option.not_isSome_iff_eq_none, Catalog.lineageLevels_isSome_iff]
    exact not_not.mpr h
  rw [walkLineage, if_neg hcycles, if_neg hrecorded, Catalog.walkLineage, hquery]
  rfl

/-- The walk ends, and reports the cycle if one can be reached from the tip, exactly when
first parents alone close a cycle or there is none to reach. -/
theorem walkLineage_cycle_immune_iff :
    (walkLineage cat tipId ≠ .error Catalog.endlessQuery ∧
      (cat.TipReachesCycle tipId →
        ∃ message, walkLineage cat tipId = .error (.cycleDetectedError message))) ↔
    (cat.Closes ∨ ¬ cat.TipReachesCycle tipId) := by
  constructor
  · rintro ⟨hends, _⟩
    by_contra hcond
    obtain ⟨hopen, hcycle⟩ := not_or.mp hcond
    exact hends (walkLineage_endless hopen (not_not.mp hcycle))
  · rintro (hcloses | hacyclic)
    · obtain ⟨message, hmessage⟩ := @walkLineage_of_closes cat tipId hcloses
      refine ⟨?_, fun _ => ⟨message, hmessage⟩⟩
      rw [hmessage]
      intro he
      cases he
    · refine ⟨fun hendless => ?_, fun hcycle => absurd hcycle hacyclic⟩
      have hcases := walkLineage_error_cases hendless
      rcases hcases with hcloses | ⟨_, he⟩ | ⟨hcycle, _⟩ | ⟨_, _, r, _, hnode⟩
      · obtain ⟨message, hmessage⟩ := @walkLineage_of_closes cat tipId hcloses
        rw [hmessage] at hendless
        cases hendless
      · cases he
      · exact hacyclic hcycle
      · -- the checks of a node raise other errors
        obtain ⟨_, ⟨_, he⟩ | ⟨_, _, ⟨_, he⟩ | ⟨_, _, _, _, he⟩⟩⟩ := checkNode_error_cases hnode
        all_goals cases he

end

/-! ## Two deltas on each other -/

def crossedDeltas : Except DagError Catalog :=
  Catalog.empty.recordNodes sha256Hex [System.bareNode "c0" .checkpoint [],
    System.bareNode "a" .delta ["c0", "b"], System.bareNode "b" .delta ["c0", "a"]]

/-- The audit follows first parents only, and the recursive query does not end. -/
theorem crossedDeltas_endless : ∃ cat, crossedDeltas = .ok cat ∧ cat.TipReachesCycle "a" ∧
    walkLineage cat "a" = .error Catalog.endlessQuery := by
  obtain ⟨cat, hcat⟩ : ∃ cat, crossedDeltas = .ok cat := ⟨_, rfl⟩
  have hfacts : crossedDeltas.map (fun cat => (cat.cycles, (cat.lineageLevels "a").isSome)) =
      .ok ([], false) := by
    decide +kernel
  rw [hcat] at hfacts
  obtain ⟨hcycles, hlevels⟩ := Prod.mk.inj (Except.ok.inj hfacts)
  have hcycle : cat.TipReachesCycle "a" := by
    by_contra hacyclic
    rw [← Catalog.lineageLevels_isSome_iff, hlevels] at hacyclic
    cases hacyclic
  have hopen : ¬ cat.Closes := fun hcloses => Iff.mpr Catalog.cycles_ne_nil_iff hcloses hcycles
  exact ⟨cat, hcat, hcycle, walkLineage_endless hopen hcycle⟩

end EdgarSec.Dag
