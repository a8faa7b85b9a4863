import EdgarSec.Dag.Catalog
import EdgarSec.Foundation.Sha256

/-! A manifest read back from the tables it was exploded into. The rebuilt relations are
the ones that have a part row; everything else of the canonical text survives. -/

namespace EdgarSec.Dag
open Foundation Lib

/-- What `get_manifest` rebuilds for a manifest that was just inserted. -/
def DAGNodeManifest.reread (m : DAGNodeManifest) : DAGNodeManifest :=
  { m with
    relations := m.relations.filter fun r => !r.2.isEmpty
    schemaVersions := m.schemaVersions.sortedBy keyLe
    metadata := loadedJson m.metadata }

/-! ## Regrouping the part rows -/

section Group
variable {id name : String}

theorem foldl_addPart {pre : List (String × List PartDescriptor)} {qs : List PartDescriptor}
    (ps : List PartDescriptor) (d : Dict String (List PartDescriptor))
    (hd : d.items = pre ++ [(name, qs)]) :
    ((ps.map fun p => PartRow.mk id name p).foldl (fun d r =>
      d.set r.relationName ((d.get? r.relationName).getD [] ++ [r.part])) d).items =
      pre ++ [(name, qs ++ ps)] := by
  induction ps generalizing d qs with
  | nil => simpa using hd
  | cons p ps ih =>
    have hget : d.get? name = some qs := Dict.get?_eq_some_iff.mpr (by rw [hd]; simp)
    have hpre : ∀ e ∈ pre, e.1 ≠ name := by
      have hn := d.nodup
      rw [hd, List.map_append] at hn
      intro e he h
      exact (List.nodup_append.mp hn).2.2 e.1 (List.mem_map.mpr ⟨e, he, rfl⟩) name (by simp) h
    have hkey : name ∈ d.keys := by
      rw [Dict.keys, hd]
      simp
    have hset : (d.set name (qs ++ [p])).items = pre ++ [(name, qs ++ [p])] := by
      simp only [Dict.items_set_of_mem hkey, hd, List.map_append, List.map_cons, List.map_nil, if_true]
      congr 1
      exact (List.map_congr_left fun e he => if_neg (hpre e he)).trans (List.map_id' pre)
    simp only [List.map_cons, List.foldl_cons, hget, Option.getD_some]
    rw [ih (d.set name (qs ++ [p])) hset, List.append_assoc, List.singleton_append]

theorem foldl_addRelation {pre : List (String × List PartDescriptor)} (ps : List PartDescriptor)
    (d : Dict String (List PartDescriptor)) (hd : d.items = pre) (hname : name ∉ pre.map Prod.fst) :
    ((ps.map fun p => PartRow.mk id name p).foldl (fun d r =>
      d.set r.relationName ((d.get? r.relationName).getD [] ++ [r.part])) d).items =
      pre ++ [(name, ps)].filter fun r => !r.2.isEmpty := by
  cases ps with
  | nil => simpa using hd
  | cons p ps =>
    have hkey : name ∉ d.keys := by rwa [Dict.keys, hd]
    have hset : (d.set name [p]).items = pre ++ [(name, [p])] := by
      rw [Dict.items_set_of_not_mem hkey, hd]
    simp only [List.map_cons, List.foldl_cons, Dict.get?_eq_none_iff.mpr hkey, Option.getD_none,
      List.nil_append]
    have key := @foldl_addPart id name pre [p] ps (d.set name [p]) hset
    simpa using key

end Group

theorem groupParts_flatMap (id : String) (rels : List (String × List PartDescriptor))
    (hn : (rels.map Prod.fst).Nodup) :
    (Catalog.groupParts (rels.flatMap fun (name, ps) => ps.map fun p => ⟨id, name, p⟩)).items =
      rels.filter fun r => !r.2.isEmpty := by
  -- Induction from the right: the relation added last stands last in the dictionary.
  induction rels using List.reverseRecOn with
  | nil => rfl
  | append_singleton rels r ih =>
    rw [List.map_append] at hn
    have hn' := List.nodup_append.mp hn
    have hname : r.1 ∉ (rels.filter fun r => !r.2.isEmpty).map Prod.fst := by
      intro h
      exact hn'.2.2 r.1 ((List.filter_sublist.map Prod.fst).subset h) r.1 (by simp) rfl
    simp only [Catalog.groupParts, List.flatMap_append, List.foldl_append, List.filter_append,
      List.flatMap_cons, List.flatMap_nil, List.append_nil]
    exact foldl_addRelation r.2 _ (ih hn'.1) hname

namespace Catalog
variable {cat : Catalog} {m : DAGNodeManifest} {digest : String}
  {hnew : cat.node? m.snapshotId = none} {hparents : (m.parents.map (·.snapshotId)).Nodup}

theorem parentRefs_addManifest :
    (cat.addManifest m digest hnew hparents).parentRefs m.snapshotId = m.parents := by
  have hsorted : m.nodeParentRows.Pairwise fun a b => a.parentOrder ≤ b.parentOrder := by
    rw [DAGNodeManifest.nodeParentRows, List.pairwise_map]
    have h : (m.parents.zipIdx.map Prod.snd).Pairwise (· ≤ ·) := by
      rw [List.zipIdx_map_snd]
      exact (List.pairwise_lt_range' _).imp le_of_lt
    exact List.pairwise_map.mp h
  rw [parentRefs, parentRows_addManifest, if_pos rfl, hsorted.insertionSort_eq,
    DAGNodeManifest.nodeParentRows, List.map_map]
  calc m.parents.zipIdx.map (fun x => (⟨x.1.snapshotId, x.1.manifestSha256⟩ : ParentRef))
      = m.parents.zipIdx.map Prod.fst := rfl
    _ = m.parents := List.zipIdx_map_fst _ _

theorem getManifest_addManifest :
    (cat.addManifest m digest hnew hparents).getManifest m.snapshotId = some m.reread := by
  have hrel : groupParts m.partRows = m.relations.filter fun r => !r.2.isEmpty :=
    Dict.ext (groupParts_flatMap m.snapshotId m.relations.items m.relations.nodup)
  simp only [getManifest, node?_addManifest, if_true, Option.map_some, rowManifest,
    DAGNodeManifest.nodeRow, parentRefs_addManifest, partRows_addManifest, hrel]
  rfl

theorem getManifestSha256_addManifest :
    (cat.addManifest m digest hnew hparents).getManifestSha256 m.snapshotId = some digest := by
  simp only [getManifestSha256, node?_addManifest, if_true, Option.map_some]
  rfl

end Catalog

/-! ## The canonical text of the rebuilt manifest -/

theorem sortKeys_schemaVersionsDict (m : DAGNodeManifest) :
    m.reread.schemaVersionsDict.sortKeys = m.schemaVersionsDict.sortKeys := by
  have h : (m.schemaVersions.sortedBy keyLe).items.insertionSort keyLe =
      m.schemaVersions.items.insertionSort keyLe :=
    (List.pairwise_insertionSort keyLe m.schemaVersions.items).insertionSort_eq
  simp only [DAGNodeManifest.schemaVersionsDict, DAGNodeManifest.reread, h]

theorem sortKeys_metadataDict (m : DAGNodeManifest) :
    m.reread.metadataDict.sortKeys = m.metadataDict.sortKeys := by
  have hmap : (loadedJson m.metadata).items = (sortMembers m.metadata.items).insertionSort keyLe := by
    rw [sortMembers_eq_map]
    rfl
  have hsort := (List.pairwise_insertionSort keyLe (sortMembers m.metadata.items)).insertionSort_eq
  simp only [DAGNodeManifest.metadataDict, DAGNodeManifest.reread, hmap, Json.sortKeys,
    sortMembers_insertionSort, sortMembers_sortMembers, hsort]

theorem canonicalJson_reread {m : DAGNodeManifest} (h : ∀ r ∈ m.relations.items, r.2 ≠ []) :
    canonicalJson m.reread.toDict = canonicalJson m.toDict := by
  have hrel : m.reread.relations = m.relations :=
    Dict.filter_eq_self fun r hr => by simpa using h r hr
  have hdict : m.reread.relationsDict = m.relationsDict := by
    rw [DAGNodeManifest.relationsDict, hrel]
    rfl
  simp only [canonicalJson, DAGNodeManifest.toDict, Json.sortKeys, sortMembers, hdict,
    sortKeys_schemaVersionsDict, sortKeys_metadataDict]
  rfl

def hasItems : String × Json → Bool
  | (_, .arr []) => false
  | _ => true

theorem canonicalJson_reread_ne {m : DAGNodeManifest} {r : String × List PartDescriptor}
    (hr : r ∈ m.relations.items) (hempty : r.2 = []) :
    canonicalJson m.reread.toDict ≠ canonicalJson m.toDict := by
  intro h
  have hlen : m.reread.toDict.textLength = m.toDict.textLength := by
    rw [← length_canonicalJson, ← length_canonicalJson, h]
  have hlt : m.reread.relationsDict.textLength < m.relationsDict.textLength := by
    have hperm : ∀ d : Dict String (List PartDescriptor),
        ((d.items.insertionSort keyLe).map fun r =>
          (r.1, Json.arr (r.2.map PartDescriptor.toDict))).Perm
        (d.items.map fun r => (r.1, Json.arr (r.2.map PartDescriptor.toDict))) :=
      fun d => (List.perm_insertionSort keyLe d.items).map _
    rw [DAGNodeManifest.relationsDict, DAGNodeManifest.relationsDict,
      Json.textLength_obj_perm (hperm _), Json.textLength_obj_perm (hperm _)]
    have hmem : (r.1, Json.arr (r.2.map PartDescriptor.toDict)) ∈
        m.relations.items.map fun r => (r.1, Json.arr (r.2.map PartDescriptor.toDict)) :=
      List.mem_map.mpr ⟨r, hr, rfl⟩
    have hdropped : hasItems (r.1, Json.arr (r.2.map PartDescriptor.toDict)) = false := by
      simp [hempty, hasItems]
    have key := Json.textLength_obj_filter_lt hmem hdropped
    rw [List.filter_map] at key
    refine lt_of_eq_of_lt ?_ key
    congr 3
    refine List.filter_congr fun e _ => ?_
    obtain ⟨_, _ | _⟩ := e <;> rfl
  have hschema : m.reread.schemaVersionsDict.textLength = m.schemaVersionsDict.textLength := by
    rw [← Json.textLength_sortKeys, sortKeys_schemaVersionsDict, Json.textLength_sortKeys]
  have hmeta : m.reread.metadataDict.textLength = m.metadataDict.textLength := by
    rw [← Json.textLength_sortKeys, sortKeys_metadataDict, Json.textLength_sortKeys]
  simp only [DAGNodeManifest.toDict, Json.textLength, memberLengths, List.sum_cons,
    List.length_cons, hschema, hmeta] at hlen
  simp only [DAGNodeManifest.reread] at hlen hlt
  omega

/-! ## The stored digest -/

section Digest
variable (sha256 : Bytes → String)

/-- `m` was accepted by `record_node`, or by `publish_node` on some branch. -/
def Recorded (cat cat' : Catalog) (m : DAGNodeManifest) : Prop :=
  cat.recordNode sha256 m = .ok cat' ∨
    ∃ branchName now, cat.publishNode sha256 m branchName now = .ok cat'

theorem recorded_new {cat cat' : Catalog} {m : DAGNodeManifest}
    (hnew : cat.node? m.snapshotId = none) (h : Recorded sha256 cat cat' m) :
    cat'.getManifest m.snapshotId = some m.reread ∧
      cat'.getManifestSha256 m.snapshotId = some (canonicalHash sha256 m.toDict) := by
  have insert : ∀ cat₁, cat.insertManifest sha256 m = .ok cat₁ →
      cat₁.getManifest m.snapshotId = some m.reread ∧
        cat₁.getManifestSha256 m.snapshotId = some (canonicalHash sha256 m.toDict) := by
    intro cat₁ h₁
    rcases Catalog.insertManifest_cases h₁ with ⟨_, row, hrow, _⟩ | ⟨_, _, _, rfl⟩
    · rw [hnew] at hrow
      cases hrow
    · exact ⟨Catalog.getManifest_addManifest, Catalog.getManifestSha256_addManifest⟩
  rcases h with h | ⟨branchName, now, h⟩
  · exact insert cat' h
  · obtain ⟨cat₁, h₁, rfl⟩ := Catalog.publishNode_cases h
    exact insert cat₁ h₁

/-- The stored digest is the digest of the manifest read back exactly when every relation
of the published manifest has a part, save for two texts that collide. -/
theorem storedDigest_eq_reread_iff {cat cat' : Catalog} {m : DAGNodeManifest}
    (hnew : cat.node? m.snapshotId = none) (h : Recorded sha256 cat cat' m) :
    (∃ read, cat'.getManifest m.snapshotId = some read ∧
      cat'.getManifestSha256 m.snapshotId = some (canonicalHash sha256 read.toDict)) ↔
    (∀ r ∈ m.relations.items, r.2 ≠ []) ∨
      Collides sha256 (canonicalJson m.toDict) (canonicalJson m.reread.toDict) := by
  obtain ⟨hread, hsha⟩ := recorded_new sha256 hnew h
  simp only [hread, hsha, Option.some.injEq, exists_eq_left', canonicalHash, sha256Text_eq_iff]
  refine or_congr_left' fun _ => ⟨fun he r hr hempty => ?_, fun hall => ?_⟩
  · exact canonicalJson_reread_ne hr hempty he.symm
  · exact (canonicalJson_reread hall).symm

end Digest

def singleRelation (parts : List PartDescriptor) : DAGNodeManifest where
  snapshotId := "s0"
  kind := .checkpoint
  parents := []
  checkpointAnchorId := "s0"
  lineageDepth := 0
  createdAt := "t0"
  relations := Dict.empty.set "rows" parts
  logicalFingerprint := "f0"

theorem recorded_singleRelation (parts : List PartDescriptor) :
    ∃ cat, Catalog.empty.recordNode sha256Hex (singleRelation parts) = .ok cat := ⟨_, rfl⟩

theorem storedDigest_eq_reread_iff_singleRelation :
    ∃ (cat : Catalog) (read : DAGNodeManifest), cat.getManifest "s0" = some read ∧
      cat.getManifestSha256 "s0" = some (canonicalHash sha256Hex read.toDict) := by
  obtain ⟨cat, h⟩ := recorded_singleRelation [⟨"rows/p.parquet", "d0", 1, 10, none, none⟩]
  exact ⟨cat, (storedDigest_eq_reread_iff sha256Hex rfl (Or.inl h)).mpr (Or.inl (by decide))⟩

/-- The checkpoint with a part-less relation is accepted, and its stored digest is not the
digest of what is read back. -/
theorem storedDigest_ne_reread_emptyRelation :
    ∃ cat, Catalog.empty.recordNode sha256Hex (singleRelation []) = .ok cat ∧
      ∃ read, cat.getManifest "s0" = some read ∧
        cat.getManifestSha256 "s0" ≠ some (canonicalHash sha256Hex read.toDict) := by
  obtain ⟨cat, h⟩ := recorded_singleRelation []
  obtain ⟨hread, hsha⟩ := recorded_new sha256Hex rfl (Or.inl h)
  refine ⟨cat, h, _, hread, ?_⟩
  rw [show "s0" = (singleRelation []).snapshotId from rfl, hsha]
  decide +kernel

end EdgarSec.Dag
