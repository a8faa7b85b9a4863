import EdgarSec.Dag.Traversal

/-! Deleting nodes: what the catalog loses, and the lineages that do not notice. -/

namespace EdgarSec.Dag
open Foundation Lib

namespace Catalog

/-- One `DELETE FROM nodes` after the other. -/
def deleteNodes (cat : Catalog) (ids : List String) : Catalog := ids.foldl deleteNode cat

theorem node?_deleteNode (cat : Catalog) (x id : String) :
    (cat.deleteNode x).node? id = if id = x then none else cat.node? id := by
  refine Option.ext fun r => ?_
  rw [node?_eq_some_iff]
  by_cases h : id = x
  · simp only [h, if_true, deleteNode, List.mem_filter]
    simp
  · rw [if_neg h, node?_eq_some_iff]
    simp only [deleteNode, List.mem_filter, decide_not, Bool.not_eq_true', decide_eq_false_iff_not]
    constructor
    · rintro ⟨⟨hr, _⟩, hid⟩
      exact ⟨hr, hid⟩
    · rintro ⟨hr, rfl⟩
      exact ⟨⟨hr, h⟩, rfl⟩

theorem parentRows_deleteNode {cat : Catalog} {x id : String} (h : id ≠ x) :
    (cat.deleteNode x).parentRows id = cat.parentRows id := by
  simp only [parentRows, deleteNode, List.filter_filter]
  refine List.filter_congr fun r _ => ?_
  by_cases hr : r.snapshotId = id <;> simp [hr, h]

theorem partRows_deleteNode {cat : Catalog} {x id : String} (h : id ≠ x) :
    (cat.deleteNode x).partRows id = cat.partRows id := by
  simp only [partRows, deleteNode, List.filter_filter]
  refine List.filter_congr fun r _ => ?_
  by_cases hr : r.snapshotId = id <;> simp [hr, h]

theorem node?_deleteNodes (cat : Catalog) (ids : List String) (id : String) :
    (cat.deleteNodes ids).node? id = if id ∈ ids then none else cat.node? id := by
  induction ids generalizing cat with
  | nil => simp [deleteNodes]
  | cons x ids ih =>
    rw [deleteNodes, List.foldl_cons, ← deleteNodes, ih, node?_deleteNode]
    by_cases hx : id = x <;> by_cases hids : id ∈ ids <;> simp [hx, hids]

section Kept
variable {cat : Catalog} {ids : List String} {id : String}

theorem parentRows_deleteNodes (h : id ∉ ids) :
    (cat.deleteNodes ids).parentRows id = cat.parentRows id := by
  induction ids generalizing cat with
  | nil => rfl
  | cons x ids ih =>
    obtain ⟨hx, hids⟩ := not_or.mp (mt List.mem_cons.mpr h)
    rw [deleteNodes, List.foldl_cons, ← deleteNodes, ih hids, parentRows_deleteNode hx]

theorem partRows_deleteNodes (h : id ∉ ids) :
    (cat.deleteNodes ids).partRows id = cat.partRows id := by
  induction ids generalizing cat with
  | nil => rfl
  | cons x ids ih =>
    obtain ⟨hx, hids⟩ := not_or.mp (mt List.mem_cons.mpr h)
    rw [deleteNodes, List.foldl_cons, ← deleteNodes, ih hids, partRows_deleteNode hx]

theorem node?_deleteNodes_of_not_mem (h : id ∉ ids) :
    (cat.deleteNodes ids).node? id = cat.node? id := by
  rw [node?_deleteNodes, if_neg h]

theorem getManifest_deleteNodes (h : id ∉ ids) :
    (cat.deleteNodes ids).getManifest id = cat.getManifest id := by
  rw [getManifest, getManifest, node?_deleteNodes_of_not_mem h]
  refine Option.map_congr fun r hr => ?_
  obtain rfl := snapshotId_of_node? hr
  rw [rowManifest, rowManifest, parentRefs, parentRefs, parentRows_deleteNodes h,
    partRows_deleteNodes h]

theorem getManifestSha256_deleteNodes (h : id ∉ ids) :
    (cat.deleteNodes ids).getManifestSha256 id = cat.getManifestSha256 id := by
  rw [getManifestSha256, getManifestSha256, node?_deleteNodes_of_not_mem h]

theorem node?_of_deleteNodes {r : NodeRow} (h : (cat.deleteNodes ids).node? id = some r) :
    id ∉ ids ∧ cat.node? id = some r := by
  rw [node?_deleteNodes] at h
  split at h
  · cases h
  · rename_i hid
    exact ⟨hid, h⟩

theorem nodes_deleteNodes_sublist : (cat.deleteNodes ids).nodes.Sublist cat.nodes := by
  induction ids generalizing cat with
  | nil => exact List.Sublist.refl _
  | cons x ids ih => exact ih.trans List.filter_sublist

/-! ## Cycles -/

theorem onCycle_of_deleteNodes {n m : Nat} {path : String} {curr : Option String} (hnm : n ≤ m)
    (h : (cat.deleteNodes ids).onCycle n path curr = true) : cat.onCycle m path curr = true := by
  induction n generalizing m path curr with
  | zero => simp [onCycle] at h
  | succ n ih =>
    obtain ⟨m, rfl⟩ : ∃ k, m = k + 1 := ⟨m - 1, by omega⟩
    cases curr with
    | none => simp [onCycle] at h
    | some id =>
      cases hr : (cat.deleteNodes ids).node? id with
      | none => simp [onCycle, hr] at h
      | some r =>
        have hr' := (node?_of_deleteNodes hr).2
        simp only [onCycle, Option.bind_some, hr, hr'] at h ⊢
        split at h
        · cases h
        · rename_i hp
          rw [if_neg hp]
          split at h
          · rename_i hin
            rw [if_pos hin]
          · rename_i hin
            rw [if_neg hin]
            exact ih (by omega) h

theorem cycles_deleteNodes (h : cat.cycles = []) : (cat.deleteNodes ids).cycles = [] := by
  simp only [cycles, List.map_eq_nil_iff, List.filter_eq_nil_iff, decide_eq_true_eq, not_and] at h ⊢
  intro r hr hp hc
  have hle : (cat.deleteNodes ids).nodes.length ≤ cat.nodes.length :=
    nodes_deleteNodes_sublist.length_le
  exact h r (nodes_deleteNodes_sublist.subset hr) hp (onCycle_of_deleteNodes hle hc)

end Kept

/-! ## Lineages -/

theorem mem_orderedIds {ls : List (List NodeRow)} {id : String} :
    id ∈ orderedIds ls ↔ ∃ r ∈ ls.flatten, r.snapshotId = id := by
  rw [orderedIds, (List.perm_insertionSort _ _).mem_iff, List.mem_dedup, List.mem_map]

theorem node?_of_mem_lineageLevels {cat : Catalog} {tipId : String} {ls : List (List NodeRow)}
    (h : cat.lineageLevels tipId = some ls) :
    ∀ r ∈ ls.flatten, cat.node? r.snapshotId = some r := by
  refine levels_induction h (fun r hr => ?_) (fun a _ b hb => ?_)
  · have hr := Option.mem_toList.mp hr
    rwa [snapshotId_of_node? hr]
  · unfold lineageStep at hb
    split at hb
    · simp at hb
    · obtain ⟨p, _, hp⟩ := List.mem_filterMap.mp hb
      rwa [snapshotId_of_node? hp]

theorem mem_walkLineage {cat : Catalog} {tipId : String} {ls : List (List NodeRow)}
    (h : cat.lineageLevels tipId = some ls) {m : DAGNodeManifest} :
    m ∈ (orderedIds ls).filterMap cat.getManifest ↔ ∃ r ∈ ls.flatten, cat.rowManifest r = m := by
  have hrow := node?_of_mem_lineageLevels h
  simp only [List.mem_filterMap, mem_orderedIds]
  constructor
  · rintro ⟨id, ⟨r, hr, rfl⟩, hm⟩
    rw [getManifest, hrow r hr] at hm
    exact ⟨r, hr, by simpa using hm⟩
  · rintro ⟨r, hr, rfl⟩
    exact ⟨r.snapshotId, ⟨r, hr, rfl⟩, by rw [getManifest, hrow r hr, Option.map_some]⟩

end Catalog

theorem Resolves.exists_levels {cat : Catalog} {tipId : String} {chain : LineageChain}
    (h : Resolves cat tipId chain) : ∃ ls, cat.lineageLevels tipId = some ls ∧
      (Catalog.orderedIds ls).filterMap cat.getManifest = chain.nodes := by
  have hnodes := h.nodes
  unfold Catalog.walkLineage at hnodes
  split at hnodes
  · cases hnodes
  · rename_i ls hls
    exact ⟨ls, hls, Except.ok.inj hnodes⟩

theorem Resolves.parent_mem {cat : Catalog} {tipId : String} {chain : LineageChain}
    (h : Resolves cat tipId chain) {node : DAGNodeManifest} (hnode : node ∈ chain.nodes)
    (hkind : node.kind ≠ .checkpoint) {parent : ParentRef} (hparent : parent ∈ node.parents) :
    ∃ m ∈ chain.nodes, m.snapshotId = parent.snapshotId := by
  obtain ⟨ls, hls, hchain⟩ := h.exists_levels
  rw [← hchain] at hnode ⊢
  obtain ⟨r, hr, rfl⟩ := (Catalog.mem_walkLineage hls).mp hnode
  -- the reference comes from a row of `node_parents`, which the query joins
  obtain ⟨row, hrow, rfl⟩ := List.mem_map.mp hparent
  have hrow := (List.perm_insertionSort _ _).mem_iff.mp hrow
  rcases checkNode_eq_ok_iff.mp (h.met _ (hchain ▸ hnode)) with hc | ⟨_, hmet⟩
  · exact absurd hc hkind
  · obtain ⟨digest, hdigest, _⟩ := hmet _ hparent
    obtain ⟨n, hn, _⟩ := Option.map_eq_some_iff.mp hdigest
    have hstep : n ∈ cat.lineageStep r := by
      rw [Catalog.lineageStep, if_neg (show r.kind ≠ .checkpoint from hkind)]
      exact List.mem_filterMap.mpr ⟨row, hrow, hn⟩
    exact ⟨cat.rowManifest n, (Catalog.mem_walkLineage hls).mpr
      ⟨n, step_mem_flatten_of_levels hls hr hstep, rfl⟩, Catalog.snapshotId_of_node? hn⟩

theorem Resolves.deleteNodes {cat : Catalog} {tipId : String} {chain : LineageChain}
    {ids : List String} (h : Resolves cat tipId chain)
    (hkeep : ∀ node ∈ chain.nodes, node.snapshotId ∉ ids) :
    Resolves (cat.deleteNodes ids) tipId chain := by
  obtain ⟨ls, hls, hchain⟩ := h.exists_levels
  have hrow := Catalog.node?_of_mem_lineageLevels hls
  have hrows : ∀ r ∈ ls.flatten, r.snapshotId ∉ ids := fun r hr =>
    hkeep (cat.rowManifest r) (hchain ▸ (Catalog.mem_walkLineage hls).mpr ⟨r, hr, rfl⟩)
  have htip : tipId ∉ ids := by
    obtain ⟨r, hr⟩ := Option.isSome_iff_exists.mp h.recorded
    have := hrows r (mem_flatten_of_levels hls (by simp [hr]))
    rwa [Catalog.snapshotId_of_node? hr] at this
  have hstep : ∀ r ∈ ls.flatten, (cat.deleteNodes ids).lineageStep r = cat.lineageStep r := by
    intro r hr
    unfold Catalog.lineageStep
    split
    · rfl
    · rename_i hkind
      rw [Catalog.parentRows_deleteNodes (hrows r hr)]
      refine List.filterMap_congr fun p hp => ?_
      rw [Catalog.node?_deleteNodes]
      split
      · rename_i hgone
        refine Eq.symm (Option.eq_none_iff_forall_ne_some.mpr fun n hn => ?_)
        have hmem : n ∈ cat.lineageStep r := by
          rw [Catalog.lineageStep, if_neg hkind]
          exact List.mem_filterMap.mpr ⟨p, hp, hn⟩
        refine hrows n (step_mem_flatten_of_levels hls hr hmem) ?_
        rwa [Catalog.snapshotId_of_node? hn]
      · rfl
  have hlevels : (cat.deleteNodes ids).lineageLevels tipId = some ls := by
    rw [Catalog.lineageLevels, Catalog.node?_deleteNodes_of_not_mem htip]
    refine levels_length (levels_congr hls hstep) fun r hr => ?_
    have hr' : (cat.deleteNodes ids).node? r.snapshotId = some r := by
      rw [Catalog.node?_deleteNodes_of_not_mem (hrows r hr), hrow r hr]
    exact (Catalog.node?_eq_some_iff.mp hr').1
  have hmanifests : (Catalog.orderedIds ls).filterMap (cat.deleteNodes ids).getManifest =
      chain.nodes := by
    rw [← hchain]
    refine List.filterMap_congr fun id hid => ?_
    obtain ⟨r, hr, rfl⟩ := Catalog.mem_orderedIds.mp hid
    exact Catalog.getManifest_deleteNodes (hrows r hr)
  refine ⟨Catalog.cycles_deleteNodes h.acyclic, ?_, ?_, ?_, h.tip, h.anchor⟩
  · rw [Catalog.hasSnapshot, Catalog.node?_deleteNodes_of_not_mem htip]
    exact h.recorded
  · rw [Catalog.walkLineage, hlevels, ← hmanifests]
  · intro node hnode
    rw [checkNode_eq_ok_iff]
    rcases checkNode_eq_ok_iff.mp (h.met node hnode) with hc | ⟨hne, hmet⟩
    · exact Or.inl hc
    · by_cases hkind : node.kind = .checkpoint
      · exact Or.inl hkind
      · refine Or.inr ⟨hne, fun parent hparent => ?_⟩
        obtain ⟨digest, hdigest, hpin⟩ := hmet parent hparent
        obtain ⟨m, hm, hid⟩ := h.parent_mem hnode hkind hparent
        refine ⟨digest, ?_, hpin⟩
        rwa [Catalog.getManifestSha256_deleteNodes (hid ▸ hkeep m hm)]

theorem Resolves.not_mem_of_deleteNodes {cat : Catalog} {tipId : String} {chain : LineageChain}
    {ids : List String} (h : Resolves (cat.deleteNodes ids) tipId chain) {node : DAGNodeManifest}
    (hnode : node ∈ chain.nodes) : node.snapshotId ∉ ids := by
  obtain ⟨ls, hls, hchain⟩ := h.exists_levels
  obtain ⟨r, hr, rfl⟩ := (Catalog.mem_walkLineage hls).mp (hchain.symm ▸ hnode)
  exact (Catalog.node?_of_deleteNodes (Catalog.node?_of_mem_lineageLevels hls r hr)).1

end EdgarSec.Dag
