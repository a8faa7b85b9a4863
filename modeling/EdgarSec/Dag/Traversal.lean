import EdgarSec.Dag.Catalog
import EdgarSec.Lib.Levels
import EdgarSec.Lib.Outcome

/-! Lineages: the recursive query of the catalog, the audit of its parent pointers, and
`walk_lineage`, which checks every parent digest on the way. -/

namespace EdgarSec.Dag
open Foundation Lib

namespace Catalog

/-! ## The recursive query -/

def lineageStep (cat : Catalog) (r : NodeRow) : List NodeRow :=
  if r.kind = .checkpoint then []
  else (cat.parentRows r.snapshotId).filterMap fun p => cat.node? p.parentId

def maxDepth (ls : List (List NodeRow)) (id : String) : Nat :=
  ((ls.zipIdx.filter fun l => id ∈ l.1.map (·.snapshotId)).map Prod.snd).foldl max 0

/-- `GROUP BY snapshot_id ORDER BY max_depth DESC`. -/
def orderedIds (ls : List (List NodeRow)) : List String :=
  (ls.flatten.map (·.snapshotId)).dedup.insertionSort fun a b =>
    maxDepth ls b < maxDepth ls a ∨ (maxDepth ls a = maxDepth ls b ∧ a ≤ b)

def lineageLevels (cat : Catalog) (tipId : String) : Option (List (List NodeRow)) :=
  levels cat.lineageStep cat.nodes.length (cat.node? tipId).toList

def endlessQuery : DagError := .engineError "database or disk is full"

def walkLineage (cat : Catalog) (tipId : String) : Except DagError (List DAGNodeManifest) :=
  match cat.lineageLevels tipId with
  | none => .error endlessQuery
  | some ls => .ok ((orderedIds ls).filterMap cat.getManifest)

/-! ## The audit query -/

/-- One chain of the recursive `paths` query; `INSTR` finds an id that was visited. -/
def onCycle (cat : Catalog) : Nat → String → Option String → Bool
  | 0, _, _ => false
  | n + 1, path, curr =>
    match curr.bind cat.node? with
    | none => false
    | some r =>
      if r.parentId = none then false
      else if ("/" ++ r.snapshotId ++ "/").toList <:+: path.toList then true
      else onCycle cat n (path ++ r.snapshotId ++ "/") r.parentId

def cycles (cat : Catalog) : List String :=
  (cat.nodes.filter fun r => r.parentId ≠ none ∧
    cat.onCycle cat.nodes.length ("/" ++ r.snapshotId ++ "/") r.parentId).map (·.snapshotId)

def orphanNodes (cat : Catalog) : List (String × String) :=
  cat.nodes.filterMap fun r =>
    r.parentId.bind fun p => if cat.node? p = none then some (r.snapshotId, p) else none

structure GraphRows where
  nodeCount : Nat
  partCount : Nat
  orphanNodes : List (String × String)
  cycles : List String
  partPaths : List String
  deriving DecidableEq, Repr

def auditGraph (cat : Catalog) : GraphRows where
  nodeCount := cat.nodes.length
  partCount := cat.parts.length
  orphanNodes := cat.orphanNodes
  cycles := cat.cycles
  partPaths := (cat.parts.map (·.part.path)).dedup

end Catalog

/-! ## `walk_lineage` -/

structure LineageChain where
  tipId : String
  checkpointAnchorId : String
  nodes : List DAGNodeManifest

def checkParent (cat : Catalog) (parent : ParentRef) : Except DagError Unit :=
  match cat.getManifestSha256 parent.snapshotId with
  | none => .error (.brokenLineageError ("parent manifest missing for " ++ parent.snapshotId))
  | some digest =>
    if parent.manifestSha256 ≠ "" ∧ digest ≠ parent.manifestSha256 then
      .error (.digestMismatchError ("parent manifest digest mismatch for " ++ parent.snapshotId ++
        ": expected " ++ parent.manifestSha256 ++ ", got " ++ digest))
    else .ok ()

def checkNode (cat : Catalog) (node : DAGNodeManifest) : Except DagError Unit :=
  if node.kind = .checkpoint then .ok ()
  else if node.parents = [] then
    .error (.brokenLineageError ("delta node " ++ node.snapshotId ++ " has no parents"))
  else node.parents.forM (checkParent cat)

def walkLineage (cat : Catalog) (tipId : String) : Except DagError LineageChain :=
  if cat.auditGraph.cycles ≠ [] then
    .error (.cycleDetectedError ("cycle detected involving " ++ pyReprList cat.auditGraph.cycles))
  else if cat.hasSnapshot tipId = false then
    .error (.brokenLineageError ("manifest missing for " ++ tipId))
  else do
    let nodes ← cat.walkLineage tipId
    match nodes with
    | [] => .error (.brokenLineageError ("lineage empty for " ++ tipId))
    | first :: _ =>
      nodes.forM (checkNode cat)
      .ok ⟨tipId, first.snapshotId, nodes⟩

/-! ## When a lineage resolves -/

def ParentMet (cat : Catalog) (parent : ParentRef) : Prop :=
  ∃ digest, cat.getManifestSha256 parent.snapshotId = some digest ∧
    (parent.manifestSha256 ≠ "" → digest = parent.manifestSha256)

theorem checkParent_eq_ok_iff {cat : Catalog} {parent : ParentRef} :
    checkParent cat parent = .ok () ↔ ParentMet cat parent := by
  unfold checkParent ParentMet
  cases h : cat.getManifestSha256 parent.snapshotId with
  | none => simp
  | some digest => by_cases hp : parent.manifestSha256 = "" <;> simp [hp]

theorem checkNode_eq_ok_iff {cat : Catalog} {node : DAGNodeManifest} :
    checkNode cat node = .ok () ↔ node.kind = .checkpoint ∨
      (node.parents ≠ [] ∧ ∀ parent ∈ node.parents, ParentMet cat parent) := by
  unfold checkNode
  by_cases hk : node.kind = .checkpoint
  · simp [hk]
  · by_cases hp : node.parents = []
    · simp [hk, hp]
    · simp only [hk, hp, if_false, forM_eq_ok, checkParent_eq_ok_iff, false_or, ne_eq,
        not_false_eq_true, true_and]

/-- What `walk_lineage` has established when it returns a chain. -/
structure Resolves (cat : Catalog) (tipId : String) (chain : LineageChain) : Prop where
  acyclic : cat.cycles = []
  recorded : cat.hasSnapshot tipId = true
  nodes : cat.walkLineage tipId = .ok chain.nodes
  met : ∀ node ∈ chain.nodes, checkNode cat node = .ok ()
  tip : chain.tipId = tipId
  anchor : chain.nodes.head?.map (·.snapshotId) = some chain.checkpointAnchorId

theorem walkLineage_eq_ok_iff {cat : Catalog} {tipId : String} {chain : LineageChain} :
    walkLineage cat tipId = .ok chain ↔ Resolves cat tipId chain := by
  constructor
  · intro h
    unfold walkLineage at h
    split at h
    · cases h
    · rename_i hcycles
      split at h
      · cases h
      · rename_i hrec
        obtain ⟨nodes, hnodes, h⟩ := bind_eq_ok.mp h
        cases nodes with
        | nil => cases h
        | cons first rest =>
          obtain ⟨⟨⟩, hall, h⟩ := bind_eq_ok.mp h
          cases h
          exact ⟨not_not.mp hcycles, by simpa using hrec, hnodes, forM_eq_ok.mp hall, rfl, rfl⟩
  · rintro ⟨hcycles, hrec, hnodes, hmet, htip, hanchor⟩
    obtain ⟨tip, anchor, nodes⟩ := chain
    subst htip
    cases nodes with
    | nil => simp at hanchor
    | cons first rest =>
      obtain rfl : first.snapshotId = anchor := by simpa using hanchor
      have hcycles' : ¬ cat.auditGraph.cycles ≠ [] := not_not.mpr hcycles
      rw [walkLineage, if_neg hcycles', if_neg (by simp [hrec])]
      exact bind_eq_ok.mpr ⟨_, hnodes, bind_eq_ok.mpr ⟨(), forM_eq_ok.mpr hmet, rfl⟩⟩

end EdgarSec.Dag
