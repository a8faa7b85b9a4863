import EdgarSec.Dag.Manifest
import EdgarSec.Foundation.Text

/-! The relational catalog: rows of its tables and the transactions over them. -/

namespace EdgarSec.Dag
open Foundation Lib

inductive DagError where
  | valueError (message : String)
  | integrityError (message : String)
  | publicationLockError (message : String)
  | staleParentError (message : String)
  | fileNotFoundError (message : String)
  | fileExistsError (message : String)
  | cycleDetectedError (message : String)
  | brokenLineageError (message : String)
  | digestMismatchError (message : String)
  | compactionParityError (message : String)
  | engineError (message : String)
  | osError (message : String)
  deriving DecidableEq, Repr

def DagError.message : DagError → String
  | .valueError s | .integrityError s | .publicationLockError s | .staleParentError s
  | .fileNotFoundError s | .fileExistsError s | .cycleDetectedError s | .brokenLineageError s
  | .digestMismatchError s | .compactionParityError s | .engineError s | .osError s => s

structure NodeRow where
  snapshotId : String
  kind : NodeKind
  parentId : Option String
  checkpointAnchorId : String
  createdAt : String
  lineageDepth : Int
  manifestSha256 : String
  logicalFingerprint : String
  schemaVersions : Dict String String
  metadata : Dict String Json

structure NodeParentRow where
  snapshotId : String
  parentId : String
  parentOrder : Nat
  parentSha256 : String
  deriving DecidableEq, Repr

/-- A row of `parts`; the order of the list is the order of the row ids. -/
structure PartRow where
  snapshotId : String
  relationName : String
  part : PartDescriptor
  deriving DecidableEq, Repr

structure BranchRow where
  snapshotId : String
  updatedAt : String
  deriving DecidableEq, Repr

structure TagRow where
  snapshotId : String
  createdAt : String
  message : String
  deriving DecidableEq, Repr

structure Catalog where
  nodes : List NodeRow
  nodeParents : List NodeParentRow
  parts : List PartRow
  branches : Dict String BranchRow
  tags : Dict String TagRow
  nodes_key : (nodes.map (·.snapshotId)).Nodup
  nodeParents_key : (nodeParents.map fun r => (r.snapshotId, r.parentId)).Nodup
  nodeParents_ref : ∀ r ∈ nodeParents, r.snapshotId ∈ nodes.map (·.snapshotId)
  parts_ref : ∀ r ∈ parts, r.snapshotId ∈ nodes.map (·.snapshotId)

/-! ## Rows of a manifest -/

/-- `dict(sorted(...))` through JSON text: keys sorted, values with sorted keys. -/
def loadedJson (d : Dict String Json) : Dict String Json :=
  (d.mapValues Json.sortKeys).sortedBy keyLe

def DAGNodeManifest.nodeRow (m : DAGNodeManifest) (digest : String) : NodeRow where
  snapshotId := m.snapshotId
  kind := m.kind
  parentId := if m.parentSnapshotId = "" then none else some m.parentSnapshotId
  checkpointAnchorId := m.checkpointAnchorId
  createdAt := m.createdAt
  lineageDepth := m.lineageDepth
  manifestSha256 := digest
  logicalFingerprint := m.logicalFingerprint
  schemaVersions := m.schemaVersions.sortedBy keyLe
  metadata := loadedJson m.metadata

def DAGNodeManifest.nodeParentRows (m : DAGNodeManifest) : List NodeParentRow :=
  m.parents.zipIdx.map fun (p, i) => ⟨m.snapshotId, p.snapshotId, i, p.manifestSha256⟩

def DAGNodeManifest.partRows (m : DAGNodeManifest) : List PartRow :=
  m.relations.items.flatMap fun (name, parts) => parts.map fun p => ⟨m.snapshotId, name, p⟩

theorem DAGNodeManifest.snapshotId_of_mem_nodeParentRows {m : DAGNodeManifest} {r : NodeParentRow}
    (h : r ∈ m.nodeParentRows) : r.snapshotId = m.snapshotId := by
  obtain ⟨_, _, rfl⟩ := List.mem_map.mp h
  rfl

theorem DAGNodeManifest.snapshotId_of_mem_partRows {m : DAGNodeManifest} {r : PartRow}
    (h : r ∈ m.partRows) : r.snapshotId = m.snapshotId := by
  obtain ⟨_, _, h⟩ := List.mem_flatMap.mp h
  obtain ⟨_, _, rfl⟩ := List.mem_map.mp h
  rfl

theorem DAGNodeManifest.parentIds_nodeParentRows (m : DAGNodeManifest) :
    m.nodeParentRows.map (·.parentId) = m.parents.map (·.snapshotId) := by
  rw [nodeParentRows, List.map_map]
  calc m.parents.zipIdx.map (fun x => x.1.snapshotId)
      = (m.parents.zipIdx.map Prod.fst).map (·.snapshotId) := by rw [List.map_map]; rfl
    _ = m.parents.map (·.snapshotId) := by rw [List.zipIdx_map_fst]

namespace Catalog

def empty : Catalog :=
  ⟨[], [], [], .empty, .empty, List.nodup_nil, List.nodup_nil, by simp, by simp⟩

/-! ## Reads -/

def node? (cat : Catalog) (snapshotId : String) : Option NodeRow :=
  cat.nodes.find? fun r => r.snapshotId = snapshotId

def hasSnapshot (cat : Catalog) (snapshotId : String) : Bool := (cat.node? snapshotId).isSome

def getManifestSha256 (cat : Catalog) (snapshotId : String) : Option String :=
  (cat.node? snapshotId).map (·.manifestSha256)

structure Pointer where
  snapshotId : String
  branchName : String
  updatedAt : String
  manifestSha256 : Option String
  deriving DecidableEq, Repr

def readPointer (cat : Catalog) (branchName : String) : Option Pointer :=
  (cat.branches.get? branchName).map fun b =>
    ⟨b.snapshotId, branchName, b.updatedAt, cat.getManifestSha256 b.snapshotId⟩

def tipId (cat : Catalog) (branchName : String) : Option String :=
  (cat.branches.get? branchName).map (·.snapshotId)

def listSnapshots (cat : Catalog) : List NodeRow :=
  cat.nodes.insertionSort fun a b => a.createdAt ≤ b.createdAt

def parentRows (cat : Catalog) (snapshotId : String) : List NodeParentRow :=
  cat.nodeParents.filter fun r => r.snapshotId = snapshotId

def partRows (cat : Catalog) (snapshotId : String) : List PartRow :=
  cat.parts.filter fun r => r.snapshotId = snapshotId

/-- `rel_map.setdefault(name, []).append(part)`, row after row. -/
def groupParts (rows : List PartRow) : Dict String (List PartDescriptor) :=
  rows.foldl (fun d r => d.set r.relationName ((d.get? r.relationName).getD [] ++ [r.part])) .empty

def parentRefs (cat : Catalog) (snapshotId : String) : List ParentRef :=
  ((cat.parentRows snapshotId).insertionSort fun a b => a.parentOrder ≤ b.parentOrder).map
    fun r => ⟨r.parentId, r.parentSha256⟩

def rowManifest (cat : Catalog) (r : NodeRow) : DAGNodeManifest where
  snapshotId := r.snapshotId
  kind := r.kind
  parents := cat.parentRefs r.snapshotId
  checkpointAnchorId := r.checkpointAnchorId
  lineageDepth := r.lineageDepth
  createdAt := r.createdAt
  relations := groupParts (cat.partRows r.snapshotId)
  logicalFingerprint := r.logicalFingerprint
  schemaVersions := r.schemaVersions
  metadata := r.metadata

def getManifest (cat : Catalog) (snapshotId : String) : Option DAGNodeManifest :=
  (cat.node? snapshotId).map cat.rowManifest

theorem node?_eq_some_iff {cat : Catalog} {id : String} {r : NodeRow} :
    cat.node? id = some r ↔ r ∈ cat.nodes ∧ r.snapshotId = id := by
  constructor
  · intro h
    exact ⟨List.mem_of_find?_eq_some h, by simpa using List.find?_some h⟩
  · rintro ⟨hr, rfl⟩
    have hsome : (cat.node? r.snapshotId).isSome := by
      rw [node?, List.find?_isSome]
      exact ⟨r, hr, by simp⟩
    obtain ⟨s, hs⟩ := Option.isSome_iff_exists.mp hsome
    have hid : s.snapshotId = r.snapshotId := by simpa using List.find?_some hs
    have hsr : s = r := List.inj_on_of_nodup_map cat.nodes_key (List.mem_of_find?_eq_some hs) hr hid
    exact hsr ▸ hs

theorem node?_eq_none_iff {cat : Catalog} {id : String} :
    cat.node? id = none ↔ id ∉ cat.nodes.map (·.snapshotId) := by
  simp only [node?, List.find?_eq_none, decide_eq_true_eq, List.mem_map, not_exists, not_and]

theorem snapshotId_of_node? {cat : Catalog} {id : String} {r : NodeRow} (h : cat.node? id = some r) :
    r.snapshotId = id := (node?_eq_some_iff.mp h).2

theorem parentRows_eq_nil {cat : Catalog} {id : String} (h : cat.node? id = none) :
    cat.parentRows id = [] := by
  rw [node?_eq_none_iff] at h
  exact List.filter_eq_nil_iff.mpr fun r hr e =>
    h (by simpa only [of_decide_eq_true e] using cat.nodeParents_ref r hr)

theorem partRows_eq_nil {cat : Catalog} {id : String} (h : cat.node? id = none) :
    cat.partRows id = [] := by
  rw [node?_eq_none_iff] at h
  exact List.filter_eq_nil_iff.mpr fun r hr e =>
    h (by simpa only [of_decide_eq_true e] using cat.parts_ref r hr)

/-! ## Transactions -/

def addManifest (cat : Catalog) (m : DAGNodeManifest) (digest : String)
    (hnew : cat.node? m.snapshotId = none) (hparents : (m.parents.map (·.snapshotId)).Nodup) :
    Catalog where
  nodes := cat.nodes ++ [m.nodeRow digest]
  nodeParents := cat.nodeParents ++ m.nodeParentRows
  parts := cat.parts ++ m.partRows
  branches := cat.branches
  tags := cat.tags
  nodes_key := by
    rw [List.map_append]
    refine List.nodup_append.mpr ⟨cat.nodes_key, by simp, ?_⟩
    intro a ha b hb e
    obtain rfl : b = m.snapshotId := by simpa [DAGNodeManifest.nodeRow] using hb
    exact node?_eq_none_iff.mp hnew (e ▸ ha)
  nodeParents_key := by
    rw [List.map_append]
    refine List.nodup_append.mpr ⟨cat.nodeParents_key, ?_, ?_⟩
    · have h := m.parentIds_nodeParentRows ▸ hparents
      exact (List.nodup_map_iff_inj_on h.of_map).mpr fun r hr s hs e =>
        List.inj_on_of_nodup_map h hr hs (congrArg Prod.snd e)
    · intro a ha b hb e
      obtain ⟨r, hr, rfl⟩ := List.mem_map.mp ha
      obtain ⟨s, hs, rfl⟩ := List.mem_map.mp hb
      have hid : r.snapshotId = m.snapshotId :=
        (congrArg Prod.fst e).trans (DAGNodeManifest.snapshotId_of_mem_nodeParentRows hs)
      exact node?_eq_none_iff.mp hnew (hid ▸ cat.nodeParents_ref r hr)
  nodeParents_ref := by
    intro r hr
    rw [List.map_append]
    rcases List.mem_append.mp hr with hr | hr
    · exact List.mem_append_left _ (cat.nodeParents_ref r hr)
    · exact List.mem_append_right _ (by
        simp [DAGNodeManifest.nodeRow, DAGNodeManifest.snapshotId_of_mem_nodeParentRows hr])
  parts_ref := by
    intro r hr
    rw [List.map_append]
    rcases List.mem_append.mp hr with hr | hr
    · exact List.mem_append_left _ (cat.parts_ref r hr)
    · exact List.mem_append_right _ (by
        simp [DAGNodeManifest.nodeRow, DAGNodeManifest.snapshotId_of_mem_partRows hr])

def insertManifest (sha256 : Bytes → String) (cat : Catalog) (m : DAGNodeManifest) :
    Except DagError Catalog :=
  let digest := canonicalHash sha256 m.toDict
  match hnew : cat.node? m.snapshotId with
  | some existing =>
    if existing.manifestSha256 = digest ∨
        (existing.logicalFingerprint ≠ "" ∧ existing.logicalFingerprint = m.logicalFingerprint) then
      .ok cat
    else
      .error (.valueError ("snapshot " ++ pyRepr m.snapshotId ++ " already recorded with different digest"))
  | none =>
    if m.lineageDepth < 0 then
      .error (.integrityError "CHECK constraint failed: lineage_depth >= 0")
    else if hparents : (m.parents.map (·.snapshotId)).Nodup then
      .ok (cat.addManifest m digest hnew hparents)
    else
      .error (.integrityError
        "UNIQUE constraint failed: node_parents.snapshot_id, node_parents.parent_id")

def recordNode (sha256 : Bytes → String) (cat : Catalog) (m : DAGNodeManifest) :
    Except DagError Catalog := cat.insertManifest sha256 m

/-- One `record_node` after the other. -/
def recordNodes (sha256 : Bytes → String) (cat : Catalog) (ms : List DAGNodeManifest) :
    Except DagError Catalog := ms.foldlM (recordNode sha256) cat

/-- The upsert of a branch row, at the time `now`. -/
def writePointer (cat : Catalog) (branchName snapshotId now : String) : Catalog :=
  { cat with branches := cat.branches.set branchName ⟨snapshotId, now⟩ }

/-- `DAGCatalog.publish_node`: the insert and the pointer move in one transaction. -/
def publishNode (sha256 : Bytes → String) (cat : Catalog) (m : DAGNodeManifest)
    (branchName now : String) : Except DagError Catalog :=
  (cat.insertManifest sha256 m).map fun cat => cat.writePointer branchName m.snapshotId now

def deleteBranch (cat : Catalog) (branchName : String) : Catalog :=
  { cat with branches := cat.branches.erase branchName }

def createTag (cat : Catalog) (name snapshotId message now : String) : Except DagError Catalog :=
  if cat.tags.contains name then .error (.integrityError "UNIQUE constraint failed: tags.name")
  else .ok { cat with tags := cat.tags.set name ⟨snapshotId, now, message⟩ }

def deleteTag (cat : Catalog) (name : String) : Catalog := { cat with tags := cat.tags.erase name }

/-- `DELETE FROM nodes`, with the cascade over `node_parents` and `parts`. -/
def deleteNode (cat : Catalog) (snapshotId : String) : Catalog where
  nodes := cat.nodes.filter fun r => r.snapshotId ≠ snapshotId
  nodeParents := cat.nodeParents.filter fun r => r.snapshotId ≠ snapshotId
  parts := cat.parts.filter fun r => r.snapshotId ≠ snapshotId
  branches := cat.branches
  tags := cat.tags
  nodes_key := cat.nodes_key.sublist (List.filter_sublist.map _)
  nodeParents_key := cat.nodeParents_key.sublist (List.filter_sublist.map _)
  nodeParents_ref := by
    intro r hr
    obtain ⟨hr, hne⟩ := List.mem_filter.mp hr
    obtain ⟨n, hn, he⟩ := List.mem_map.mp (cat.nodeParents_ref r hr)
    exact List.mem_map.mpr ⟨n, List.mem_filter.mpr ⟨hn, by simpa only [he] using hne⟩, he⟩
  parts_ref := by
    intro r hr
    obtain ⟨hr, hne⟩ := List.mem_filter.mp hr
    obtain ⟨n, hn, he⟩ := List.mem_map.mp (cat.parts_ref r hr)
    exact List.mem_map.mpr ⟨n, List.mem_filter.mpr ⟨hn, by simpa only [he] using hne⟩, he⟩

/-! ## What the transactions change -/

section Insert
variable {cat : Catalog} {m : DAGNodeManifest} {digest : String}
  {hnew : cat.node? m.snapshotId = none} {hparents : (m.parents.map (·.snapshotId)).Nodup}

theorem node?_addManifest (id : String) :
    (cat.addManifest m digest hnew hparents).node? id =
      if id = m.snapshotId then some (m.nodeRow digest) else cat.node? id := by
  have hrow : (m.nodeRow digest).snapshotId = m.snapshotId := rfl
  simp only [node?, addManifest, List.find?_append, List.find?_singleton, hrow, decide_eq_true_eq]
  by_cases h : id = m.snapshotId
  · subst h
    rw [show cat.nodes.find? (fun r => decide (r.snapshotId = m.snapshotId)) = none from hnew]
    simp
  · simp [h, Ne.symm h]

theorem parentRows_addManifest (id : String) :
    (cat.addManifest m digest hnew hparents).parentRows id =
      if id = m.snapshotId then m.nodeParentRows else cat.parentRows id := by
  simp only [parentRows, addManifest, List.filter_append]
  split
  · rename_i h
    subst h
    rw [show cat.nodeParents.filter _ = [] from parentRows_eq_nil hnew, List.nil_append]
    exact List.filter_eq_self.mpr fun r hr =>
      decide_eq_true (DAGNodeManifest.snapshotId_of_mem_nodeParentRows hr)
  · rename_i h
    rw [List.append_right_eq_self]
    exact List.filter_eq_nil_iff.mpr fun r hr e =>
      h ((of_decide_eq_true e).symm.trans (DAGNodeManifest.snapshotId_of_mem_nodeParentRows hr))

theorem partRows_addManifest (id : String) :
    (cat.addManifest m digest hnew hparents).partRows id =
      if id = m.snapshotId then m.partRows else cat.partRows id := by
  simp only [partRows, addManifest, List.filter_append]
  split
  · rename_i h
    subst h
    rw [show cat.parts.filter _ = [] from partRows_eq_nil hnew, List.nil_append]
    exact List.filter_eq_self.mpr fun r hr =>
      decide_eq_true (DAGNodeManifest.snapshotId_of_mem_partRows hr)
  · rename_i h
    rw [List.append_right_eq_self]
    exact List.filter_eq_nil_iff.mpr fun r hr e =>
      h ((of_decide_eq_true e).symm.trans (DAGNodeManifest.snapshotId_of_mem_partRows hr))

end Insert

theorem insertManifest_cases {sha256 : Bytes → String} {cat cat' : Catalog} {m : DAGNodeManifest}
    (h : cat.insertManifest sha256 m = .ok cat') :
    (cat' = cat ∧ ∃ row, cat.node? m.snapshotId = some row ∧
      (row.manifestSha256 = canonicalHash sha256 m.toDict ∨
        (row.logicalFingerprint ≠ "" ∧ row.logicalFingerprint = m.logicalFingerprint))) ∨
    ∃ hnew hparents, 0 ≤ m.lineageDepth ∧
      cat' = cat.addManifest m (canonicalHash sha256 m.toDict) hnew hparents := by
  unfold insertManifest at h
  split at h
  · rename_i row hrow
    dsimp only at h
    split at h
    · rename_i hsame
      exact Or.inl ⟨(Except.ok.inj h).symm, row, hrow, hsame⟩
    · cases h
  · rename_i hnew
    dsimp only at h
    split at h
    · cases h
    · split at h
      · rename_i hdepth hparents
        exact Or.inr ⟨hnew, hparents, not_lt.mp hdepth, (Except.ok.inj h).symm⟩
      · cases h

theorem publishNode_cases {sha256 : Bytes → String} {cat cat' : Catalog} {m : DAGNodeManifest}
    {branchName now : String} (h : cat.publishNode sha256 m branchName now = .ok cat') :
    ∃ cat₁, cat.insertManifest sha256 m = .ok cat₁ ∧
      cat' = cat₁.writePointer branchName m.snapshotId now := by
  unfold publishNode at h
  cases hi : cat.insertManifest sha256 m with
  | error e => simp [hi, Except.map] at h
  | ok cat₁ => exact ⟨cat₁, rfl, by simpa [hi, Except.map] using h.symm⟩

@[simp] theorem node?_writePointer (cat : Catalog) (b s now id : String) :
    (cat.writePointer b s now).node? id = cat.node? id := rfl

@[simp] theorem getManifest_writePointer (cat : Catalog) (b s now id : String) :
    (cat.writePointer b s now).getManifest id = cat.getManifest id := rfl

end Catalog
end EdgarSec.Dag
