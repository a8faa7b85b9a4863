import EdgarSec.Foundation.Json
import EdgarSec.Lib.Dict

/-! Manifests of snapshot nodes and the dictionaries their digests are taken of. -/

namespace EdgarSec.Dag
open Foundation Lib

inductive NodeKind where
  | checkpoint
  | delta
  deriving DecidableEq, Repr

def NodeKind.text : NodeKind → String
  | .checkpoint => "checkpoint"
  | .delta => "delta"

structure ParentRef where
  snapshotId : String
  manifestSha256 : String
  deriving DecidableEq, Repr

def ParentRef.toDict (p : ParentRef) : Json :=
  .obj [("snapshot_id", .str p.snapshotId), ("manifest_sha256", .str p.manifestSha256)]

structure PartDescriptor where
  path : String
  sha256 : String
  rowCount : Nat
  byteSize : Nat
  keyMin : Option String := none
  keyMax : Option String := none
  deriving DecidableEq, Repr

def PartDescriptor.toDict (p : PartDescriptor) : Json :=
  .obj ([("path", .str p.path), ("sha256", .str p.sha256), ("row_count", .int p.rowCount),
      ("byte_size", .int p.byteSize)] ++
    (p.keyMin.map fun k => ("key_min", Json.str k)).toList ++
    (p.keyMax.map fun k => ("key_max", Json.str k)).toList)

structure DAGNodeManifest where
  snapshotId : String
  kind : NodeKind
  parents : List ParentRef
  checkpointAnchorId : String
  lineageDepth : Int
  createdAt : String
  relations : Dict String (List PartDescriptor)
  logicalFingerprint : String
  schemaVersions : Dict String String := .empty
  metadata : Dict String Json := .empty

namespace DAGNodeManifest

def parentSnapshotId (m : DAGNodeManifest) : String := (m.parents.head?.map (·.snapshotId)).getD ""

def relationsDict (m : DAGNodeManifest) : Json :=
  .obj ((m.relations.items.insertionSort keyLe).map fun r =>
    (r.1, Json.arr (r.2.map PartDescriptor.toDict)))

def schemaVersionsDict (m : DAGNodeManifest) : Json :=
  .obj ((m.schemaVersions.items.insertionSort keyLe).map fun e => (e.1, Json.str e.2))

def metadataDict (m : DAGNodeManifest) : Json := .obj (m.metadata.items.insertionSort keyLe)

def toDict (m : DAGNodeManifest) : Json :=
  .obj [("snapshot_id", .str m.snapshotId),
    ("kind", .str m.kind.text),
    ("parents", .arr (m.parents.map ParentRef.toDict)),
    ("checkpoint_anchor_id", .str m.checkpointAnchorId),
    ("lineage_depth", .int m.lineageDepth),
    ("created_at", .str m.createdAt),
    ("relations", m.relationsDict),
    ("logical_fingerprint", .str m.logicalFingerprint),
    ("schema_versions", m.schemaVersionsDict),
    ("metadata", m.metadataDict)]

def allParts (m : DAGNodeManifest) : List PartDescriptor := m.relations.items.flatMap (·.2)

end DAGNodeManifest

end EdgarSec.Dag
