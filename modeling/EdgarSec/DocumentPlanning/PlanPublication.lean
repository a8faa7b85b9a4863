import EdgarSec.Foundation.JsonText
import EdgarSec.Lib.Dict
import EdgarSec.Lib.SharedMemory

/-! `publish_plan_bundle`: any number of calls for one plan, cut at their looks at the plan
directory and at the rename. -/

namespace EdgarSec.DocumentPlanning.PlanPublication
open Foundation Lib

/-! ## Manifests -/

def memberOf : Json → String → Option Json
  | .obj members, key => members.lookup key
  | _, _ => none

def numberOf : Json → Option Int
  | .bool b => some (if b then 1 else 0)
  | .int n => some n
  | _ => none

mutual

/-- `==`, a float being compared by its `repr`. -/
def equalJson : Json → Json → Bool
  | .null, .null => true
  | .float a, .float b => a = b
  | .str a, .str b => a = b
  | .arr as, .arr bs => equalItems as bs
  | .obj as, .obj bs => (bs.all fun b => (as.lookup b.1).isSome) && equalMembers as bs
  | a, b => (numberOf a).isSome && decide (numberOf a = numberOf b)

def equalItems : List Json → List Json → Bool
  | [], [] => true
  | a :: as, b :: bs => equalJson a b && equalItems as bs
  | _, _ => false

def equalMembers : List (String × Json) → List (String × Json) → Bool
  | [], _ => true
  | (key, a) :: as, bs =>
    (match bs.lookup key with
      | some b => equalJson a b
      | none => false) && equalMembers as bs

end

/-! ## Bundles -/

inductive PlanError where
  | documentPlanError (message : String)
  | osError (message : String)
  deriving DecidableEq, Repr

structure Bundle (φ : Type) where
  planText : String
  files : φ

/-- `publish_plan_bundle(plan_id, identity, manifest, staging_root, paths)`; the staging directory
is the call's own. -/
structure PublishCall (φ : Type) where
  identity : Json
  manifest : Dict String Json
  files : φ

structure PublishedBundle where
  planId : String
  manifest : Json
  reused : Bool

/-! `validatePlanRoot` is `_validate_plan_root`: what it makes of the manifest and the other files
of a directory. -/

section Publishing
variable {φ : Type} (sha256 : Bytes → String)
  (validatePlanRoot : String → Json → φ → Except PlanError Unit) (planId : String)

def readManifest (unreadable : String) (b : Bundle φ) : Except PlanError Json :=
  match loads b.planText with
  | none => .error (.documentPlanError (unreadable ++ planId))
  | some manifest => (validatePlanRoot planId manifest b.files).map fun _ => manifest

def validateStagedPlan (b : Bundle φ) : Except PlanError Json :=
  readManifest validatePlanRoot planId "staged plan manifest is unreadable: " b

def readPublishedPlan : Option (Bundle φ) → Except PlanError Json
  | none => .error (.documentPlanError ("plan manifest is unreadable: " ++ planId))
  | some b => readManifest validatePlanRoot planId "plan manifest is unreadable: " b

namespace PublishCall
variable (call : PublishCall φ)

def payload : Dict String Json :=
  call.manifest.set "plan_digest" (.str (canonicalHash sha256 (.obj call.manifest.items)))

def payloadJson : Json := .obj (call.payload sha256).items

def staged : Bundle φ := ⟨canonicalJson (call.payloadJson sha256), call.files⟩

/-- `reuse_plan_if_identical`, once the plan directory was seen. -/
def reuse (plans : Option (Bundle φ)) : Except PlanError PublishedBundle :=
  match readPublishedPlan validatePlanRoot planId plans with
  | .error _ => .error (.documentPlanError
      ("existing plan bundle is corrupt and will not be replaced: " ++ planId))
  | .ok existing =>
    if !(memberOf existing "plan_identity").any (equalJson · call.identity) then
      .error (.documentPlanError "existing plan identity diverges")
    else if !equalJson existing (call.payloadJson sha256) then
      .error (.documentPlanError "existing plan payload or part digests diverge")
    else .ok ⟨planId, existing, true⟩

def confirm (plans : Option (Bundle φ)) : Except PlanError PublishedBundle :=
  match readPublishedPlan validatePlanRoot planId plans with
  | .error e => .error e
  | .ok published =>
    if !equalJson published (call.payloadJson sha256) then
      .error (.documentPlanError "published plan differs from the validated staging bundle")
    else .ok ⟨planId, published, false⟩

end PublishCall

inductive Phase where
  | called
  | validated
  | found
  | absent
  | refused
  | moved
  | returned (result : Except PlanError PublishedBundle)

structure Publisher (φ : Type) where
  call : PublishCall φ
  phase : Phase

def Publisher.fresh (call : PublishCall φ) : Publisher φ := ⟨call, .called⟩

def Phase.left : Phase → Nat
  | .called => 5
  | .validated => 4
  | .absent => 3
  | .refused => 2
  | .found => 1
  | .moved => 1
  | .returned _ => 0

def phaseStep (plans : Option (Bundle φ)) (call : PublishCall φ) : Phase → Option (Option (Bundle φ) × Phase)
  | .called =>
    match validateStagedPlan validatePlanRoot planId (call.staged sha256) with
    | .error e => some (plans, .returned (.error e))
    | .ok _ => some (plans, .validated)
  | .validated => some (plans, if plans.isSome then .found else .absent)
  | .found => some (plans, .returned (call.reuse sha256 validatePlanRoot planId plans))
  | .absent =>
    -- the rename fails on a directory that has files in it
    match plans with
    | none => some (some (call.staged sha256), .moved)
    | some _ => some (plans, .refused)
  | .refused =>
    some (plans, if plans.isSome then .found else .returned (.error (.osError "Directory not empty")))
  | .moved => some (plans, .returned (call.confirm sha256 validatePlanRoot planId plans))
  | .returned _ => none

def publishStep (plans : Option (Bundle φ)) (p : Publisher φ) : Option (Option (Bundle φ) × Publisher φ) :=
  (phaseStep sha256 validatePlanRoot planId plans p.call p.phase).map fun (plans, phase) =>
    (plans, ⟨p.call, phase⟩)

def turn : Shared (Option (Bundle φ)) (Publisher φ) → Turn (PublishCall φ) →
    Option (Shared (Option (Bundle φ)) (Publisher φ)) :=
  Shared.turn (publishStep sha256 validatePlanRoot planId) Publisher.fresh

end Publishing

end EdgarSec.DocumentPlanning.PlanPublication
