import EdgarSec.Dag.Cycles

/-! The order of a lineage: by the greatest depth at which the recursive query finds a
node, so that parents come first. -/

namespace EdgarSec.Dag
open Foundation Lib

namespace Catalog

/-! ## Depths -/

section
variable {cat : Catalog} {tipId : String} {ls : List (List NodeRow)}

theorem maxDepth_eq (ls : List (List NodeRow)) (id : String) : maxDepth ls id =
    max 0 ((((ls.zipIdx.filter fun l => id ∈ l.1.map (·.snapshotId)).map Prod.snd).max?).getD 0) :=
  List.foldl_max

theorem mem_depths_iff {id : String} {k : Nat} :
    k ∈ (ls.zipIdx.filter fun l => id ∈ l.1.map (·.snapshotId)).map Prod.snd ↔
      ∃ l, ls[k]? = some l ∧ ∃ r ∈ l, r.snapshotId = id := by
  simp only [List.mem_map, List.mem_filter, decide_eq_true_eq, Prod.exists,
    List.mem_zipIdx_iff_getElem?]
  constructor
  · rintro ⟨l, _, ⟨hl, r, hr, hid⟩, rfl⟩
    exact ⟨l, hl, r, hr, hid⟩
  · rintro ⟨l, hl, r, hr, hid⟩
    exact ⟨l, k, ⟨hl, r, hr, hid⟩, rfl⟩

theorem le_maxDepth {r : NodeRow} {l : List NodeRow} {k : Nat} (hl : ls[k]? = some l) (hr : r ∈ l) :
    k ≤ maxDepth ls r.snapshotId := by
  have hk := mem_depths_iff.mpr ⟨l, hl, r, hr, rfl⟩
  rw [maxDepth_eq]
  cases hmax : ((ls.zipIdx.filter fun l => r.snapshotId ∈ l.1.map (·.snapshotId)).map Prod.snd).max? with
  | none =>
    rw [List.max?_eq_none_iff.mp hmax] at hk
    cases hk
  | some m =>
    have hle := (List.max?_eq_some_iff.mp hmax).2 k hk
    exact le_max_of_le_right hle

theorem exists_at_maxDepth {r : NodeRow} (hr : r ∈ ls.flatten) :
    ∃ l, ls[maxDepth ls r.snapshotId]? = some l ∧ ∃ r' ∈ l, r'.snapshotId = r.snapshotId := by
  obtain ⟨l, hl, hrl⟩ := List.mem_flatten.mp hr
  obtain ⟨k, hk⟩ := List.mem_iff_getElem?.mp hl
  have hkmem := mem_depths_iff.mpr ⟨l, hk, r, hrl, rfl⟩
  rw [maxDepth_eq]
  cases hmax : ((ls.zipIdx.filter fun l => r.snapshotId ∈ l.1.map (·.snapshotId)).map Prod.snd).max? with
  | none =>
    rw [List.max?_eq_none_iff.mp hmax] at hkmem
    cases hkmem
  | some m =>
    have hm := mem_depths_iff.mp (List.max?_eq_some_iff.mp hmax).1
    rwa [Option.getD_some, Nat.zero_max]

theorem maxDepth_lt_of_step (h : cat.lineageLevels tipId = some ls) {r p : NodeRow}
    (hr : r ∈ ls.flatten) (hp : p ∈ cat.lineageStep r) :
    maxDepth ls r.snapshotId < maxDepth ls p.snapshotId := by
  obtain ⟨l, hl, r', hr', hid⟩ := exists_at_maxDepth hr
  have hsame : r' = r := by
    have hrow := node?_of_mem_lineageLevels h
    have hr'mem : r' ∈ ls.flatten := List.mem_flatten.mpr ⟨l, List.mem_of_getElem? hl, hr'⟩
    have hr'row := hrow r' hr'mem
    rw [hid, hrow r hr] at hr'row
    exact (Option.some.inj hr'row).symm
  obtain ⟨l', hl', hp'⟩ := mem_next_of_levels h hl (hsame ▸ hr') hp
  exact le_maxDepth hl' hp'

theorem maxDepth_pos (h : cat.lineageLevels tipId = some ls) {r : NodeRow} (hr : r ∈ ls.flatten)
    (hne : r.snapshotId ≠ tipId) : 0 < maxDepth ls r.snapshotId := by
  obtain ⟨l, hl, r', hr', hid⟩ := exists_at_maxDepth hr
  rcases Nat.eq_zero_or_pos (maxDepth ls r.snapshotId) with hzero | hpos
  · rw [hzero] at hl
    rw [getElem?_zero_of_levels h hl, Option.mem_toList] at hr'
    exact absurd (hid ▸ snapshotId_of_node? hr') hne
  · exact hpos

theorem maxDepth_tip (h : cat.lineageLevels tipId = some ls) {tip : NodeRow}
    (htip : cat.node? tipId = some tip) : maxDepth ls tipId = 0 := by
  have hmem : tip ∈ ls.flatten := mem_flatten_of_levels h (by simp [htip])
  have hid := snapshotId_of_node? htip
  obtain ⟨l, hl, r, hr, hrid⟩ := exists_at_maxDepth hmem
  have hrow := node?_of_mem_lineageLevels h r (List.mem_flatten.mpr ⟨l, List.mem_of_getElem? hl, hr⟩)
  rw [hrid, hid, htip] at hrow
  obtain rfl := Option.some.inj hrow
  rcases reached_of_levels h hl hr with ⟨hzero, _⟩ | ⟨a, ha, hcycle⟩
  · rwa [hid] at hzero
  · rw [htip, Option.toList_some, List.mem_singleton] at ha
    have hacyclic := lineageLevels_isSome_iff.mp (Option.isSome_iff_exists.mpr ⟨ls, h⟩)
    exact absurd ⟨tip, htip, tip, .refl, ha ▸ hcycle⟩ hacyclic

/-! ## The order -/

theorem nodup_orderedIds : (orderedIds ls).Nodup :=
  (List.perm_insertionSort _ _).nodup_iff.mpr (List.nodup_dedup _)

/-- `ORDER BY max_depth DESC`, ties by the name. -/
def Deeper (ls : List (List NodeRow)) (a b : String) : Prop :=
  maxDepth ls b < maxDepth ls a ∨ (maxDepth ls a = maxDepth ls b ∧ a ≤ b)

instance (ls : List (List NodeRow)) : DecidableRel (Deeper ls) :=
  fun _ _ => inferInstanceAs (Decidable (_ ∨ _))

instance (ls : List (List NodeRow)) : Std.Total (Deeper ls) := ⟨fun a b => by
  rcases lt_trichotomy (maxDepth ls a) (maxDepth ls b) with h | h | h
  · exact Or.inr (Or.inl h)
  · rcases le_total a b with hab | hba
    · exact Or.inl (Or.inr ⟨h, hab⟩)
    · exact Or.inr (Or.inr ⟨h.symm, hba⟩)
  · exact Or.inl (Or.inl h)⟩

instance (ls : List (List NodeRow)) : IsTrans String (Deeper ls) := ⟨fun a b c hab hbc => by
  rcases hab with hab | ⟨hab, hle⟩ <;> rcases hbc with hbc | ⟨hbc, hle'⟩
  · exact Or.inl (hbc.trans hab)
  · exact Or.inl (hbc ▸ hab)
  · exact Or.inl (hab ▸ hbc)
  · exact Or.inr ⟨hab.trans hbc, hle.trans hle'⟩⟩

theorem pairwise_orderedIds :
    (orderedIds ls).Pairwise fun a b => maxDepth ls b ≤ maxDepth ls a := by
  have hsorted : (orderedIds ls).Pairwise (Deeper ls) := List.pairwise_insertionSort (Deeper ls) _
  refine hsorted.imp fun hab => ?_
  rcases hab with hlt | ⟨heq, _⟩
  · exact hlt.le
  · exact heq.ge

theorem map_snapshotId_lineage (h : cat.lineageLevels tipId = some ls) :
    ((orderedIds ls).filterMap cat.getManifest).map (·.snapshotId) = orderedIds ls := by
  have hsome : ∀ id ∈ orderedIds ls, ∃ m, cat.getManifest id = some m ∧ m.snapshotId = id := by
    intro id hid
    obtain ⟨r, hr, rfl⟩ := mem_orderedIds.mp hid
    have hrow := node?_of_mem_lineageLevels h r hr
    exact ⟨cat.rowManifest r, by rw [getManifest, hrow, Option.map_some], rfl⟩
  generalize orderedIds ls = ids at hsome ⊢
  induction ids with
  | nil => rfl
  | cons id ids ih =>
    obtain ⟨m, hm, hid⟩ := hsome id List.mem_cons_self
    rw [List.filterMap_cons_some hm, List.map_cons, hid,
      ih fun id' hid' => hsome id' (List.mem_cons_of_mem id hid')]

end

/-! ## What a lineage is -/

/-- No chain of `node_parents` comes back to its start. -/
def ParentsAcyclic (cat : Catalog) : Prop :=
  ∀ id, ¬ Relation.TransGen
    (fun child parent => ∃ r ∈ cat.nodeParents, r.snapshotId = child ∧ r.parentId = parent) id id

def Reaches (cat : Catalog) (tipId id : String) : Prop :=
  ∃ tip r, cat.node? tipId = some tip ∧
    Relation.ReflTransGen (fun child parent => parent ∈ cat.lineageStep child) tip r ∧
    r.snapshotId = id

theorem ParentsAcyclic.not_tipReachesCycle {cat : Catalog} (h : cat.ParentsAcyclic)
    (tipId : String) : ¬ cat.TipReachesCycle tipId := by
  rintro ⟨_, _, x, _, hcycle⟩
  refine h x.snapshotId (hcycle.lift (·.snapshotId) fun child parent hstep => ?_)
  unfold lineageStep at hstep
  split at hstep
  · cases hstep
  · obtain ⟨row, hrow, hparent⟩ := List.mem_filterMap.mp hstep
    obtain ⟨hrow, hchild⟩ := List.mem_filter.mp hrow
    exact ⟨row, hrow, of_decide_eq_true hchild, (snapshotId_of_node? hparent).symm⟩

theorem parentsAcyclic_of_rank {cat : Catalog} (rank : String → Nat)
    (h : ∀ r ∈ cat.nodeParents, rank r.parentId < rank r.snapshotId) : cat.ParentsAcyclic := by
  intro id hcycle
  have hdrop : ∀ a b, Relation.TransGen (fun child parent => ∃ r ∈ cat.nodeParents,
      r.snapshotId = child ∧ r.parentId = parent) a b → rank b < rank a := by
    intro a b hab
    induction hab with
    | single hstep =>
      obtain ⟨r, hr, rfl, rfl⟩ := hstep
      exact h r hr
    | tail _ hstep ih =>
      obtain ⟨r, hr, rfl, rfl⟩ := hstep
      exact (h r hr).trans ih
  exact lt_irrefl _ (hdrop id id hcycle)

theorem reaches_iff {cat : Catalog} {tipId id : String} {ls : List (List NodeRow)}
    (h : cat.lineageLevels tipId = some ls) : cat.Reaches tipId id ↔ id ∈ orderedIds ls := by
  rw [mem_orderedIds]
  simp only [mem_flatten_of_levels_iff h, Option.mem_toList, Reaches]
  constructor
  · rintro ⟨tip, r, htip, hreach, hid⟩
    exact ⟨r, ⟨tip, htip, hreach⟩, hid⟩
  · rintro ⟨r, ⟨tip, htip, hreach⟩, hid⟩
    exact ⟨tip, r, htip, hreach, hid⟩

end Catalog

/-- A lineage in order: every node that is reached stands in it once, after its parents,
between a checkpoint and the tip. -/
structure Ordered (cat : Catalog) (tipId : String) (nodes : List DAGNodeManifest) : Prop where
  manifests : ∀ m ∈ nodes, cat.getManifest m.snapshotId = some m
  reached : ∀ id, id ∈ nodes.map (·.snapshotId) ↔ cat.Reaches tipId id
  once : (nodes.map (·.snapshotId)).Nodup
  parents_first : ∀ before m after, nodes = before ++ m :: after → m.kind ≠ .checkpoint →
    ∀ parent ∈ m.parents, parent.snapshotId ∈ before.map (·.snapshotId)
  first : ∃ m rest, nodes = m :: rest ∧ m.kind = .checkpoint
  last : ∃ front m, nodes = front ++ [m] ∧ m.snapshotId = tipId

inductive Objection (cat : Catalog) (tipId : String) : DagError → Prop where
  | missingTip (h : cat.node? tipId = none) :
    Objection cat tipId (.brokenLineageError ("manifest missing for " ++ tipId))
  | noParents {m : DAGNodeManifest} (hm : cat.getManifest m.snapshotId = some m)
    (hreached : cat.Reaches tipId m.snapshotId) (hkind : m.kind ≠ .checkpoint)
    (hparents : m.parents = []) :
    Objection cat tipId (.brokenLineageError ("delta node " ++ m.snapshotId ++ " has no parents"))
  | missingParent {m : DAGNodeManifest} {parent : ParentRef}
    (hm : cat.getManifest m.snapshotId = some m) (hreached : cat.Reaches tipId m.snapshotId)
    (hkind : m.kind ≠ .checkpoint) (hparent : parent ∈ m.parents)
    (hmissing : cat.node? parent.snapshotId = none) :
    Objection cat tipId (.brokenLineageError ("parent manifest missing for " ++ parent.snapshotId))
  | digestMismatch {m : DAGNodeManifest} {parent : ParentRef} {digest : String}
    (hm : cat.getManifest m.snapshotId = some m) (hreached : cat.Reaches tipId m.snapshotId)
    (hkind : m.kind ≠ .checkpoint) (hparent : parent ∈ m.parents)
    (hdigest : cat.getManifestSha256 parent.snapshotId = some digest)
    (hpinned : parent.manifestSha256 ≠ "") (hne : digest ≠ parent.manifestSha256) :
    Objection cat tipId (.digestMismatchError ("parent manifest digest mismatch for " ++
      parent.snapshotId ++ ": expected " ++ parent.manifestSha256 ++ ", got " ++ digest))

section
variable {cat : Catalog} {tipId : String}

theorem Resolves.maxDepth_parent {chain : LineageChain} (h : Resolves cat tipId chain)
    {ls : List (List NodeRow)} (hls : cat.lineageLevels tipId = some ls) {m : DAGNodeManifest}
    (hm : m ∈ chain.nodes) (hkind : m.kind ≠ .checkpoint) {parent : ParentRef}
    (hparent : parent ∈ m.parents) :
    Catalog.maxDepth ls m.snapshotId < Catalog.maxDepth ls parent.snapshotId := by
  have hnodes : (Catalog.orderedIds ls).filterMap cat.getManifest = chain.nodes := by
    obtain ⟨ls', hls', hnodes⟩ := h.exists_levels
    rw [Option.some.inj (hls.symm.trans hls')]
    exact hnodes
  obtain ⟨r, hr, rfl⟩ := (Catalog.mem_walkLineage hls).mp (hnodes ▸ hm)
  have hmet : ParentMet cat parent := by
    rcases checkNode_eq_ok_iff.mp (h.met _ hm) with hcheckpoint | ⟨_, hmet⟩
    · exact absurd hcheckpoint hkind
    · exact hmet parent hparent
  obtain ⟨digest, hdigest, _⟩ := hmet
  obtain ⟨p, hp, _⟩ := Option.map_eq_some_iff.mp hdigest
  have hstep : p ∈ cat.lineageStep r := by
    obtain ⟨row, hrow, rfl⟩ := List.mem_map.mp hparent
    have hrow := (List.perm_insertionSort _ _).mem_iff.mp hrow
    rw [Catalog.lineageStep, if_neg (show r.kind ≠ .checkpoint from hkind)]
    exact List.mem_filterMap.mpr ⟨row, hrow, hp⟩
  have hlt := Catalog.maxDepth_lt_of_step hls hr hstep
  rwa [Catalog.snapshotId_of_node? hp] at hlt

theorem Resolves.ordered {chain : LineageChain} (h : Resolves cat tipId chain) :
    Ordered cat tipId chain.nodes := by
  obtain ⟨ls, hls, hnodes⟩ := h.exists_levels
  have hids : chain.nodes.map (·.snapshotId) = Catalog.orderedIds ls := by
    rw [← hnodes, Catalog.map_snapshotId_lineage hls]
  have hsorted : (chain.nodes.map (·.snapshotId)).Pairwise fun a b =>
      Catalog.maxDepth ls b ≤ Catalog.maxDepth ls a := hids ▸ Catalog.pairwise_orderedIds
  have hreached : ∀ id, id ∈ chain.nodes.map (·.snapshotId) ↔ cat.Reaches tipId id := by
    intro id
    rw [hids, Catalog.reaches_iff hls]
  obtain ⟨tip, htip⟩ : ∃ tip, cat.node? tipId = some tip := Option.isSome_iff_exists.mp h.recorded
  have htipmem : tipId ∈ chain.nodes.map (·.snapshotId) :=
    (hreached tipId).mpr ⟨tip, tip, htip, .refl, Catalog.snapshotId_of_node? htip⟩
  have hbefore : ∀ before m after, chain.nodes = before ++ m :: after → m.kind ≠ .checkpoint →
      ∀ parent ∈ m.parents, parent.snapshotId ∈ before.map (·.snapshotId) := by
    intro before m after hsplit hkind parent hparent
    have hm : m ∈ chain.nodes := by
      rw [hsplit]
      simp
    have hdeeper := h.maxDepth_parent hls hm hkind hparent
    obtain ⟨p, hp, hpid⟩ := h.parent_mem hm hkind hparent
    rw [hsplit, List.map_append, List.map_cons, List.pairwise_append, List.pairwise_cons] at hsorted
    rw [hsplit] at hp
    -- at the node itself or after it nothing stands deeper
    rcases List.mem_append.mp hp with hp | hp
    · exact List.mem_map.mpr ⟨p, hp, hpid⟩
    · rcases List.mem_cons.mp hp with rfl | hp
      · rw [hpid] at hdeeper
        exact absurd hdeeper (lt_irrefl _)
      · have hle := hsorted.2.1.1 p.snapshotId (List.mem_map.mpr ⟨p, hp, rfl⟩)
        rw [hpid] at hle
        exact absurd hdeeper (not_lt.mpr hle)
  refine ⟨fun m hm => ?_, hreached, hids ▸ Catalog.nodup_orderedIds, hbefore, ?_, ?_⟩
  · obtain ⟨r, hr, rfl⟩ := (Catalog.mem_walkLineage hls).mp (hnodes ▸ hm)
    have hrow := Catalog.node?_of_mem_lineageLevels hls r hr
    show cat.getManifest r.snapshotId = some (cat.rowManifest r)
    rw [Catalog.getManifest, hrow, Option.map_some]
  · cases hchain : chain.nodes with
    | nil =>
      rw [hchain] at htipmem
      cases htipmem
    | cons m rest =>
      refine ⟨m, rest, rfl, ?_⟩
      by_contra hkind
      rcases checkNode_eq_ok_iff.mp (h.met m (hchain ▸ List.mem_cons_self)) with hc | ⟨hne, _⟩
      · exact hkind hc
      · obtain ⟨parent, hparent⟩ := List.exists_mem_of_ne_nil m.parents hne
        cases hbefore [] m rest hchain hkind parent hparent
  · cases hchain : chain.nodes using List.reverseRecOn with
    | nil =>
      rw [hchain] at htipmem
      cases htipmem
    | append_singleton front m =>
      refine ⟨front, m, rfl, ?_⟩
      by_contra hne
      obtain ⟨r, hr, hid⟩ : ∃ r ∈ ls.flatten, r.snapshotId = m.snapshotId := by
        rw [← Catalog.mem_orderedIds, ← hids, hchain]
        simp
      have hdeep := Catalog.maxDepth_pos hls hr (hid ▸ hne)
      have hzero := Catalog.maxDepth_tip hls htip
      rw [hchain, List.map_append, List.map_singleton] at htipmem hsorted
      rcases List.mem_append.mp htipmem with hfront | hlast
      · have hle := (List.pairwise_append.mp hsorted).2.2 tipId hfront m.snapshotId
          (List.mem_singleton_self _)
        rw [hid] at hdeep
        omega
      · exact hne (List.mem_singleton.mp hlast).symm

theorem walkLineage_ordered_of_not_closes (hacyclic : cat.ParentsAcyclic) (hopen : ¬ cat.Closes) :
    (∀ chain, walkLineage cat tipId = .ok chain → Ordered cat tipId chain.nodes) ∧
      ∀ e, walkLineage cat tipId = .error e → Objection cat tipId e := by
  refine ⟨fun chain hchain => (walkLineage_eq_ok_iff.mp hchain).ordered, fun e he => ?_⟩
  have hcases := walkLineage_error_cases he
  rcases hcases with hcloses | ⟨htip, rfl⟩ | ⟨hcycle, _⟩ | ⟨ls, hls, r, hr, hnode⟩
  · exact absurd hcloses hopen
  · exact .missingTip htip
  · exact absurd hcycle (hacyclic.not_tipReachesCycle tipId)
  · have hm : cat.getManifest (cat.rowManifest r).snapshotId = some (cat.rowManifest r) := by
      show cat.getManifest r.snapshotId = some (cat.rowManifest r)
      rw [Catalog.getManifest, Catalog.node?_of_mem_lineageLevels hls r hr, Option.map_some]
    have hreached : cat.Reaches tipId (cat.rowManifest r).snapshotId :=
      (Catalog.reaches_iff hls).mpr (Catalog.mem_orderedIds.mpr ⟨r, hr, rfl⟩)
    obtain ⟨hkind, hwhy⟩ := checkNode_error_cases hnode
    rcases hwhy with ⟨hparents, rfl⟩ | ⟨parent, hparent, ⟨hnone, rfl⟩ | ⟨digest, hd, hp, hne, rfl⟩⟩
    · exact .noParents hm hreached hkind hparents
    · refine .missingParent hm hreached hkind hparent ?_
      exact Option.map_eq_none_iff.mp hnone
    · exact .digestMismatch hm hreached hkind hparent hd hp hne

/-- In an acyclic catalog a walk raises for one of these reasons or gives the lineage in
order, unless the audit takes some chain of first parents for a cycle. -/
theorem walkLineage_ordered_iff (hacyclic : cat.ParentsAcyclic) :
    ((∀ chain, walkLineage cat tipId = .ok chain → Ordered cat tipId chain.nodes) ∧
      ∀ e, walkLineage cat tipId = .error e → Objection cat tipId e) ↔ ¬ cat.Closes := by
  constructor
  · rintro ⟨_, herror⟩ hcloses
    obtain ⟨message, hmessage⟩ := @walkLineage_of_closes cat tipId hcloses
    cases herror _ hmessage
  · exact walkLineage_ordered_of_not_closes hacyclic

end

/-! ## Names without slashes

There the audit is right: it reports a cycle only where parents form one. -/

namespace Catalog

theorem splitOn_visitedText {rows : List NodeRow} (h : ∀ r ∈ rows, '/' ∉ r.snapshotId.toList) :
    ∃ front, (visitedText rows).toList = front ++ ['/'] ∧
      front.splitOn '/' = [] :: rows.map (·.snapshotId.toList) := by
  induction rows using List.reverseRecOn with
  | nil => exact ⟨[], rfl, rfl⟩
  | append_singleton rows r ih =>
    obtain ⟨front, htext, hsplit⟩ := ih fun r' hr' => h r' (List.mem_append_left _ hr')
    have hname : r.snapshotId.toList.splitOn '/' = [r.snapshotId.toList] :=
      List.splitOn_eq_singleton (h r (by simp))
    refine ⟨front ++ '/' :: r.snapshotId.toList, ?_, ?_⟩
    · rw [visitedText_append, String.toList_append, String.toList_append, htext]
      simp
    · rw [List.splitOn_append_cons_self, hsplit, hname, List.map_append]
      rfl

theorem exists_of_sought {rows : List NodeRow} {r : NodeRow}
    (h : ∀ r ∈ rows, '/' ∉ r.snapshotId.toList) (hr : '/' ∉ r.snapshotId.toList)
    (hin : (soughtText r).toList <:+: (visitedText rows).toList) :
    ∃ r' ∈ rows, r'.snapshotId = r.snapshotId := by
  obtain ⟨front, htext, hsplit⟩ := splitOn_visitedText h
  obtain ⟨before, after, hin⟩ := hin
  have hcut : before ++ '/' :: (r.snapshotId.toList ++ '/' :: after) = front ++ '/' :: [] := by
    rw [← htext, ← hin]
    simp [soughtText, String.toList_append]
  have hpieces := congrArg (List.splitOn '/') hcut
  rw [List.splitOn_append_cons_self, List.splitOn_append_cons_self, List.splitOn_append_cons_self,
    List.splitOn_eq_singleton hr, hsplit] at hpieces
  -- the name is neither the first piece nor the last one
  obtain ⟨x, xs, hx⟩ := List.exists_cons_of_ne_nil (List.splitOn_ne_nil '/' before)
  rw [hx, List.splitOn_nil] at hpieces
  have htail : xs ++ ([r.snapshotId.toList] ++ after.splitOn '/') =
      rows.map (·.snapshotId.toList) ++ [[]] := (List.cons.inj hpieces).2
  have hmiddle := congrArg List.dropLast htail
  rw [List.dropLast_concat, List.dropLast_append_of_ne_nil (by simp), List.singleton_append,
    List.dropLast_cons_of_ne_nil (List.splitOn_ne_nil '/' after)] at hmiddle
  have hname : r.snapshotId.toList ∈ rows.map (·.snapshotId.toList) := by
    rw [← hmiddle]
    simp
  obtain ⟨r', hr', hid⟩ := List.mem_map.mp hname
  exact ⟨r', hr', String.toList_injective hid⟩

/-- `parent_id` repeats the first row of `node_parents`. -/
def FirstParentsListed (cat : Catalog) : Prop :=
  ∀ r ∈ cat.nodes, ∀ p, r.parentId = some p →
    ∃ row ∈ cat.nodeParents, row.snapshotId = r.snapshotId ∧ row.parentId = p

theorem FirstParentsListed.insertManifest {sha256 : Bytes → String} {cat cat' : Catalog}
    {m : DAGNodeManifest} (hcat : cat.FirstParentsListed)
    (h : cat.insertManifest sha256 m = .ok cat') : cat'.FirstParentsListed := by
  rcases insertManifest_cases h with ⟨rfl, _⟩ | ⟨hnew, hparents, _, rfl⟩
  · exact hcat
  · intro r hr p hp
    rcases List.mem_append.mp hr with hr | hr
    · obtain ⟨row, hrow, hids⟩ := hcat r hr p hp
      exact ⟨row, List.mem_append_left _ hrow, hids⟩
    · obtain rfl := List.mem_singleton.mp hr
      have hfirst : m.parentSnapshotId = p ∧ p ≠ "" := by
        unfold DAGNodeManifest.nodeRow at hp
        dsimp only at hp
        split at hp
        · cases hp
        · rename_i hne
          obtain rfl := Option.some.inj hp
          exact ⟨rfl, hne⟩
      obtain ⟨hfirst, hne⟩ := hfirst
      have hp : p ∈ m.nodeParentRows.map (·.parentId) := by
        rw [DAGNodeManifest.parentIds_nodeParentRows]
        unfold DAGNodeManifest.parentSnapshotId at hfirst
        cases hps : m.parents with
        | nil =>
          rw [hps] at hfirst
          exact absurd hfirst.symm hne
        | cons first rest =>
          rw [hps] at hfirst
          rw [List.map_cons]
          exact List.mem_cons.mpr (Or.inl hfirst.symm)
      obtain ⟨row, hrow, hid⟩ := List.mem_map.mp hp
      exact ⟨row, List.mem_append_right _ hrow,
        DAGNodeManifest.snapshotId_of_mem_nodeParentRows hrow, hid⟩

theorem FirstParentsListed.recordNodes {sha256 : Bytes → String} {cat cat' : Catalog}
    {ms : List DAGNodeManifest} (hcat : cat.FirstParentsListed)
    (h : cat.recordNodes sha256 ms = .ok cat') : cat'.FirstParentsListed := by
  induction ms generalizing cat with
  | nil =>
    obtain rfl := Except.ok.inj h
    exact hcat
  | cons m ms ih =>
    rw [Catalog.recordNodes, List.foldlM_cons] at h
    obtain ⟨mid, hmid, h⟩ := bind_eq_ok.mp h
    exact ih (hcat.insertManifest hmid) h

theorem ParentsAcyclic.not_closes {cat : Catalog} (hacyclic : cat.ParentsAcyclic)
    (hfirst : cat.FirstParentsListed) (hplain : ∀ r ∈ cat.nodes, '/' ∉ r.snapshotId.toList) :
    ¬ cat.Closes := by
  rintro ⟨r, hr, path, last, hchain, _, hin⟩
  have hstep : ∀ a b, cat.firstParent a = some b → a ∈ cat.nodes → b ∈ cat.nodes ∧
      ∃ row ∈ cat.nodeParents, row.snapshotId = a.snapshotId ∧ row.parentId = b.snapshotId := by
    intro a b hab ha
    obtain ⟨p, hp, hb⟩ := Option.bind_eq_some_iff.mp hab
    obtain ⟨row, hrow, hchild, hparent⟩ := hfirst a ha p hp
    exact ⟨(node?_eq_some_iff.mp hb).1, row, hrow, hchild, hparent.trans (snapshotId_of_node? hb).symm⟩
  have hpath : ∀ a b, Relation.TransGen (fun a b => cat.firstParent a = some b) a b → a ∈ cat.nodes →
      b ∈ cat.nodes ∧ Relation.TransGen (fun child parent => ∃ row ∈ cat.nodeParents,
        row.snapshotId = child ∧ row.parentId = parent) a.snapshotId b.snapshotId := by
    intro a b hab ha
    induction hab with
    | single h =>
      obtain ⟨hb, hrow⟩ := hstep _ _ h ha
      exact ⟨hb, .single hrow⟩
    | tail _ h ih =>
      obtain ⟨hc, hrow⟩ := hstep _ _ h ih.1
      exact ⟨hc, ih.2.tail hrow⟩
  -- along the chain, everything leads to everything after it
  have hpairs : (r :: path ++ [last]).Pairwise
      (Relation.TransGen fun a b => cat.firstParent a = some b) :=
    (hchain.imp fun _ _ hab => Relation.TransGen.single hab).pairwise
  obtain ⟨hfront, _, hlast⟩ := List.pairwise_append.mp hpairs
  have hnodes : ∀ a ∈ r :: path, a ∈ cat.nodes := by
    intro a ha
    rcases List.mem_cons.mp ha with rfl | ha
    · exact hr
    · exact (hpath r a ((List.pairwise_cons.mp hfront).1 a ha) hr).1
  have hlastnode : last ∈ cat.nodes :=
    (hpath r last (hlast r List.mem_cons_self last (List.mem_singleton_self _)) hr).1
  obtain ⟨r', hr', hid⟩ := exists_of_sought (fun a ha => hplain a (hnodes a ha))
    (hplain last hlastnode) hin
  have hcycle := (hpath r' last (hlast r' hr' last (List.mem_singleton_self _)) (hnodes r' hr')).2
  rw [hid] at hcycle
  exact hacyclic _ hcycle

end Catalog

theorem walkLineage_ordered_of_plain {sha256 : Bytes → String} {cat : Catalog}
    {ms : List DAGNodeManifest} (hrecorded : Catalog.empty.recordNodes sha256 ms = .ok cat)
    (hplain : ∀ r ∈ cat.nodes, '/' ∉ r.snapshotId.toList) (hacyclic : cat.ParentsAcyclic)
    (tipId : String) :
    (∀ chain, walkLineage cat tipId = .ok chain → Ordered cat tipId chain.nodes) ∧
      ∀ e, walkLineage cat tipId = .error e → Objection cat tipId e := by
  have hlisted : Catalog.empty.FirstParentsListed := fun r hr => by cases hr
  exact walkLineage_ordered_of_not_closes hacyclic
    (hacyclic.not_closes (hlisted.recordNodes hrecorded) hplain)

/-! ## A diamond -/

def diamond : Except DagError Catalog :=
  Catalog.empty.recordNodes sha256Hex [System.bareNode "c0" .checkpoint [],
    System.bareNode "da" .delta ["c0"], System.bareNode "db" .delta ["c0"],
    System.bareNode "m" .delta ["da", "db"]]

def diamondRank (id : String) : Nat := if id = "c0" then 0 else if id = "m" then 2 else 1

theorem walkLineage_ordered_diamond : ∃ cat, diamond = .ok cat ∧
    (((∀ chain, walkLineage cat "m" = .ok chain → Ordered cat "m" chain.nodes) ∧
      ∀ e, walkLineage cat "m" = .error e → Objection cat "m" e) ↔ ¬ cat.Closes) := by
  obtain ⟨cat, hcat⟩ : ∃ cat, diamond = .ok cat := ⟨_, rfl⟩
  have hrank : diamond.map (fun cat => cat.nodeParents.all fun r =>
      decide (diamondRank r.parentId < diamondRank r.snapshotId)) = .ok true := by
    decide +kernel
  rw [hcat] at hrank
  have hacyclic : cat.ParentsAcyclic := Catalog.parentsAcyclic_of_rank diamondRank fun r hr =>
    of_decide_eq_true (List.all_eq_true.mp (Except.ok.inj hrank) r hr)
  exact ⟨cat, hcat, walkLineage_ordered_iff hacyclic⟩

theorem walkLineage_ordered_of_plain_diamond : ∃ cat, diamond = .ok cat ∧ ∀ tipId,
    (∀ chain, walkLineage cat tipId = .ok chain → Ordered cat tipId chain.nodes) ∧
      ∀ e, walkLineage cat tipId = .error e → Objection cat tipId e := by
  obtain ⟨cat, hcat⟩ : ∃ cat, diamond = .ok cat := ⟨_, rfl⟩
  have hfacts : diamond.map (fun cat => (cat.nodeParents.all fun r =>
      decide (diamondRank r.parentId < diamondRank r.snapshotId),
        cat.nodes.all fun r => decide ('/' ∉ r.snapshotId.toList))) = .ok (true, true) := by
    decide +kernel
  rw [hcat] at hfacts
  obtain ⟨hrank, hplain⟩ := Prod.mk.inj (Except.ok.inj hfacts)
  have hacyclic : cat.ParentsAcyclic := Catalog.parentsAcyclic_of_rank diamondRank fun r hr =>
    of_decide_eq_true (List.all_eq_true.mp hrank r hr)
  exact ⟨cat, hcat, walkLineage_ordered_of_plain hcat
    (fun r hr => of_decide_eq_true (List.all_eq_true.mp hplain r hr)) hacyclic⟩

/-! ## A name with slashes -/

def slashedDelta : Except DagError Catalog :=
  Catalog.empty.recordNodes sha256Hex [System.bareNode "c0" .checkpoint [],
    System.bareNode "a" .delta ["c0"], System.bareNode "x/a/y" .delta ["a"]]

def slashedRank (id : String) : Nat := if id = "c0" then 0 else if id = "a" then 1 else 2

/-- The audit reports a cycle in an acyclic catalog, and every walk in it raises. -/
theorem slashedDelta_false_cycle : ∃ cat, slashedDelta = .ok cat ∧ cat.ParentsAcyclic ∧
    ∃ e, walkLineage cat "a" = .error e ∧ ¬ Objection cat "a" e := by
  obtain ⟨cat, hcat⟩ : ∃ cat, slashedDelta = .ok cat := ⟨_, rfl⟩
  have hfacts : slashedDelta.map (fun cat => (cat.cycles, cat.nodeParents.all fun r =>
      decide (slashedRank r.parentId < slashedRank r.snapshotId))) = .ok (["x/a/y"], true) := by
    decide +kernel
  rw [hcat] at hfacts
  obtain ⟨hcycles, hrank⟩ := Prod.mk.inj (Except.ok.inj hfacts)
  have hacyclic : cat.ParentsAcyclic := Catalog.parentsAcyclic_of_rank slashedRank fun r hr =>
    of_decide_eq_true (List.all_eq_true.mp hrank r hr)
  have hcloses : cat.Closes := Catalog.cycles_ne_nil_iff.mp (by simp [hcycles])
  obtain ⟨message, hmessage⟩ := @walkLineage_of_closes cat "a" hcloses
  refine ⟨cat, hcat, hacyclic, _, hmessage, fun h => ?_⟩
  cases h

end EdgarSec.Dag
