import EdgarSec.Foundation.Text
import EdgarSec.Lib.Dict

/-! Target-plan bundles: what makes one complete, and what the planners write into one. -/

namespace EdgarSec.FilingCatalog
open Foundation Lib

inductive PlanScope where
  | deterministic
  | policy
  deriving DecidableEq

def formPartitionName (form : String) : String :=
  String.ofList (form.toList.map fun c => if c = '/' then '_' else c)

def formPartitionDirectory (form : String) : String := "form=" ++ formPartitionName form

/-- `plan_target_file_path(form, DATA_FILE_NAME)` -/
def planTargetFilePath (form : String) : String :=
  "targets/" ++ formPartitionDirectory form ++ "/data.parquet"

def targetPlanSchemaVersion : String := "1.4"

def isSha256HexDigest (value : String) : Bool :=
  value.toList.length = 64 && value.toList.all fun c => c ∈ "0123456789abcdef".toList

structure TargetPart where
  form : String
  path : String
  rowCount : Nat
  byteSize : Nat
  sha256 : String
  deriving DecidableEq

/-- What `plan_bundle_complete` reads of a `plan.json`. -/
structure PlanDocument where
  planSchemaVersion : String
  counts : List (String × Nat)
  targetParts : Option (List TargetPart)
  deriving DecidableEq

/-- A directory that holds a plan bundle or a part of one: the files at its top, and below
`targets` the data files of the form partitions. -/
structure Bundle where
  planJson : Option PlanDocument
  selectionReport : Bool
  locatorGroups : Bool
  seedFilers : Bool
  reserveTargets : Bool
  targets : Option (Dict String Bytes)
  deriving DecidableEq

namespace Bundle

def fresh : Bundle := ⟨none, false, false, false, false, none⟩

section Completeness
variable (sha256 : Bytes → String)

def expectedParts (counts : List (String × Nat)) : List ((String × String) × Nat) :=
  counts.map fun (form, rowCount) => ((form, planTargetFilePath form), rowCount)

/-- The parts of `plan.json` one after another, and what has been observed. -/
def observeParts (counts : List (String × Nat)) (targets : Dict String Bytes) :
    List (String × String) → List TargetPart → Option (List (String × String))
  | observed, [] => some observed
  | observed, part :: rest =>
    let key := (part.form, part.path)
    match (expectedParts counts).lookup key with
    | none => none
    | some rows =>
      if key ∈ observed ∨ part.rowCount ≠ rows then none
      else if isSha256HexDigest part.sha256 = false then none
      else
        match targets.get? (formPartitionDirectory part.form) with
        | none => none
        | some bytes =>
          if part.byteSize ≠ bytes.length ∨ sha256 bytes ≠ part.sha256 then none
          else observeParts counts targets (observed ++ [key]) rest

def targetPartsComplete (counts : List (String × Nat)) (targets : Dict String Bytes)
    (parts : List TargetPart) : Bool :=
  if parts.length ≠ counts.length then false
  else
    match observeParts sha256 counts targets [] parts with
    | none => false
    | some observed => observed.toFinset = ((expectedParts counts).map Prod.fst).toFinset

def planBundleComplete (scope : PlanScope) (b : Bundle) : Bool :=
  match b.planJson, b.targets with
  | some published, some targets =>
    b.selectionReport && b.locatorGroups && (scope ≠ .policy || b.seedFilers) &&
      targets.keys.toFinset = (published.counts.map fun (form, _) => formPartitionDirectory form).toFinset &&
      match published.targetParts with
      | some parts => targetPartsComplete sha256 published.counts targets parts
      | none => published.planSchemaVersion ≠ targetPlanSchemaVersion
  | _, _ => false

end Completeness

/-! ## What a planner writes -/

inductive BodyOp where
  | makeTargets
  | writeSeedFilers
  | writePart (form : String) (bytes : Bytes)
  | writeLocatorGroups
  | writeReserveTargets
  | describePart (form : String) (rowCount : Nat)
  | fingerprintPlan
  | writePlanJson (counts : List (String × Nat))
  | writeSelectionReport
  deriving DecidableEq

def BodyOp.writes : BodyOp → Bool
  | .describePart _ _ | .fingerprintPlan => false
  | _ => true

structure PlanBody where
  parts : List (String × Bytes × Nat)
  reserve : Bool
  nodup : (parts.map Prod.fst).Nodup

namespace PlanBody

def counts (body : PlanBody) : List (String × Nat) := body.parts.map fun (form, _, rows) => (form, rows)

/-- `for form in sorted(counts)` -/
def sortedCounts (body : PlanBody) : List (String × Nat) :=
  body.counts.insertionSort fun a b => a.1 ≤ b.1

/-- The operations of `plan_policy` and of the deterministic planner, `write_plan_documents`
at the end. -/
def ops (scope : PlanScope) (body : PlanBody) : List BodyOp :=
  .makeTargets :: ((if scope = .policy then [.writeSeedFilers] else []) ++
    (body.parts.map fun (form, bytes, _) => .writePart form bytes) ++ .writeLocatorGroups ::
    ((if body.reserve then [.writeReserveTargets] else []) ++
    (body.sortedCounts.map fun (form, rows) => .describePart form rows) ++
    [.fingerprintPlan, .writePlanJson body.counts, .writeSelectionReport]))

end PlanBody

section Ops
variable (sha256 : Bytes → String)

/-- One operation, with the parts described so far; `none` where it raises. -/
def applyOp (op : BodyOp) (b : Bundle) (described : List TargetPart) : Option (Bundle × List TargetPart) :=
  match op with
  | .makeTargets => some ({ b with targets := some (b.targets.getD .empty) }, described)
  | .writeSeedFilers => some ({ b with seedFilers := true }, described)
  | .writePart form bytes =>
    some ({ b with targets := some ((b.targets.getD .empty).set (formPartitionDirectory form) bytes) }, described)
  | .writeLocatorGroups => some ({ b with locatorGroups := true }, described)
  | .writeReserveTargets => some ({ b with reserveTargets := true }, described)
  | .describePart form rowCount =>
    if described.any fun part => formPartitionName part.form = formPartitionName form then none
    else
      match (b.targets.getD .empty).get? (formPartitionDirectory form) with
      | none => none
      | some bytes => some (b, described ++
          [⟨form, planTargetFilePath form, rowCount, bytes.length, sha256 bytes⟩])
  | .fingerprintPlan => if b.locatorGroups then some (b, described) else none
  | .writePlanJson counts =>
    some ({ b with planJson := some ⟨targetPlanSchemaVersion, counts, some described⟩ }, described)
  | .writeSelectionReport => some ({ b with selectionReport := true }, described)

def runOps (ops : List BodyOp) (b : Bundle) (described : List TargetPart) :
    Option (Bundle × List TargetPart) :=
  ops.foldlM (fun s op => applyOp sha256 op s.1 s.2) (b, described)

variable {sha256} {b b' : Bundle} {described described' : List TargetPart} {ops ops' : List BodyOp}

theorem runOps_append : runOps sha256 (ops ++ ops') b described =
    (runOps sha256 ops b described).bind fun s => runOps sha256 ops' s.1 s.2 := by
  unfold runOps
  rw [List.foldlM_append]
  rfl

theorem runOps_cons {op : BodyOp} : runOps sha256 (op :: ops) b described =
    (applyOp sha256 op b described).bind fun s => runOps sha256 ops s.1 s.2 := by
  unfold runOps
  rw [List.foldlM_cons]
  rfl

theorem runOps_concat {op : BodyOp} : runOps sha256 (ops ++ [op]) b described =
    (runOps sha256 ops b described).bind fun s => applyOp sha256 op s.1 s.2 := by
  rw [runOps_append]
  congr 1
  funext s
  rw [runOps_cons]
  cases applyOp sha256 op s.1 s.2 <;> rfl

def placeParts (targets : Dict String Bytes) (parts : List (String × Bytes × Nat)) : Dict String Bytes :=
  parts.foldl (fun targets (form, bytes, _) => targets.set (formPartitionDirectory form) bytes) targets

theorem runOps_writeParts {parts : List (String × Bytes × Nat)} {targets : Dict String Bytes}
    (h : b.targets = some targets) :
    runOps sha256 (parts.map fun (form, bytes, _) => .writePart form bytes) b described =
      some ({ b with targets := some (placeParts targets parts) }, described) := by
  induction parts generalizing b targets with
  | nil =>
    rw [placeParts, List.foldl_nil, ← h]
    rfl
  | cons part parts ih =>
    have hrest := ih (b := { b with targets := some (targets.set (formPartitionDirectory part.1) part.2.1) }) rfl
    rw [List.map_cons, runOps_cons, applyOp, h]
    exact hrest

theorem mem_keys_set {targets : Dict String Bytes} {k k' : String} {v : Bytes} :
    k' ∈ (targets.set k v).keys ↔ k' = k ∨ k' ∈ targets.keys := by
  rw [← not_iff_not, ← Dict.get?_eq_none_iff, Dict.get?_set, not_or, ← Dict.get?_eq_none_iff]
  split_ifs with h <;> simp [h]

theorem mem_keys_placeParts {targets : Dict String Bytes} {parts : List (String × Bytes × Nat)} {k : String} :
    k ∈ (placeParts targets parts).keys ↔
      k ∈ targets.keys ∨ k ∈ parts.map fun part => formPartitionDirectory part.1 := by
  induction parts generalizing targets with
  | nil => simp [placeParts]
  | cons part parts ih =>
    have hrest := @ih (targets.set (formPartitionDirectory part.1) part.2.1)
    rw [mem_keys_set] at hrest
    rw [List.map_cons, List.mem_cons, ← or_assoc, or_comm (a := k ∈ targets.keys)]
    exact hrest

structure Describes (sha256 : Bytes → String) (targets : Dict String Bytes) (part : TargetPart) : Prop where
  path : part.path = planTargetFilePath part.form
  file : ∃ bytes, targets.get? (formPartitionDirectory part.form) = some bytes ∧
    part.byteSize = bytes.length ∧ part.sha256 = sha256 bytes

theorem runOps_describeParts {counts : List (String × Nat)} {targets : Dict String Bytes}
    (htargets : b.targets = some targets)
    (h : runOps sha256 (counts.map fun (form, rows) => .describePart form rows) b described =
      some (b', described')) :
    b' = b ∧ ∃ parts, described' = described ++ parts ∧
      parts.map (fun part => (part.form, part.rowCount)) = counts ∧ ∀ part ∈ parts, Describes sha256 targets part := by
  induction counts generalizing described with
  | nil =>
    obtain ⟨rfl, rfl⟩ := Prod.mk.inj (Option.some.inj h)
    exact ⟨rfl, [], (List.append_nil _).symm, rfl, by simp⟩
  | cons count counts ih =>
    rw [List.map_cons, runOps_cons, Option.bind_eq_some_iff] at h
    obtain ⟨⟨b₁, described₁⟩, hfirst, h⟩ := h
    simp only [applyOp, htargets, Option.getD_some] at hfirst
    split_ifs at hfirst
    cases hget : targets.get? (formPartitionDirectory count.1) with
    | none => simp [hget] at hfirst
    | some bytes =>
      rw [hget] at hfirst
      obtain ⟨rfl, rfl⟩ := Prod.mk.inj (Option.some.inj hfirst)
      obtain ⟨rfl, parts, rfl, hcounts, hparts⟩ := ih h
      refine ⟨rfl, _ :: parts, (List.append_assoc _ _ _), ?_, ?_⟩
      · rw [List.map_cons, hcounts]
      · intro part hpart
        rcases List.mem_cons.mp hpart with rfl | hpart
        · exact ⟨rfl, bytes, hget, rfl, rfl⟩
        · exact hparts part hpart

/-! ## A finished body makes a complete bundle -/

theorem lookup_expectedParts {counts : List (String × Nat)} (hnodup : (counts.map Prod.fst).Nodup)
    {form : String} {rows : Nat} (h : (form, rows) ∈ counts) :
    (expectedParts counts).lookup (form, planTargetFilePath form) = some rows := by
  induction counts with
  | nil => cases h
  | cons count counts ih =>
    obtain ⟨form', rows'⟩ := count
    rw [List.map_cons, List.nodup_cons] at hnodup
    rw [expectedParts, List.map_cons, List.lookup_cons]
    rcases List.mem_cons.mp h with heq | h
    · obtain ⟨rfl, rfl⟩ := Prod.mk.inj heq
      rw [beq_self_eq_true]
    · have hne : form ≠ form' := fun heq => hnodup.1 (List.mem_map.mpr ⟨_, h, heq⟩)
      have hkey : ((form, planTargetFilePath form) == (form', planTargetFilePath form')) = false :=
        beq_false_of_ne fun heq => hne (Prod.mk.inj heq).1
      rw [hkey]
      exact ih hnodup.2 h

theorem observeParts_described {counts : List (String × Nat)} {targets : Dict String Bytes}
    {observed : List (String × String)} {parts : List TargetPart} (hhex : ∀ bytes, isSha256HexDigest (sha256 bytes) = true)
    (hnodup : (counts.map Prod.fst).Nodup) (hparts : ∀ part ∈ parts, Describes sha256 targets part)
    (hcounts : ∀ part ∈ parts, (part.form, part.rowCount) ∈ counts)
    (hforms : (observed.map Prod.fst ++ parts.map TargetPart.form).Nodup) :
    observeParts sha256 counts targets observed parts =
      some (observed ++ parts.map fun part => (part.form, part.path)) := by
  induction parts generalizing observed with
  | nil => simp [observeParts]
  | cons part parts ih =>
    obtain ⟨hpath, bytes, hget, hsize, hdigest⟩ := hparts part List.mem_cons_self
    have hlookup := lookup_expectedParts hnodup (hcounts part List.mem_cons_self)
    have hfresh : (part.form, part.path) ∉ observed := by
      intro hmem
      have hdisjoint := List.disjoint_of_nodup_append hforms
      exact hdisjoint (List.mem_map_of_mem hmem) List.mem_cons_self
    have hrest := @ih (observed ++ [(part.form, part.path)])
      (fun p hp => hparts p (List.mem_cons_of_mem _ hp)) (fun p hp => hcounts p (List.mem_cons_of_mem _ hp))
      (by simpa using hforms)
    rw [← hpath] at hlookup
    rw [observeParts, hlookup]
    dsimp only
    rw [if_neg (by simp [hfresh]), if_neg (by simp [hdigest, hhex]), hget]
    dsimp only
    rw [if_neg (by simp [hsize, hdigest]), hrest, List.map_cons, List.append_assoc]
    rfl

theorem forms_counts (body : PlanBody) : body.counts.map Prod.fst = body.parts.map Prod.fst := by
  rw [PlanBody.counts, List.map_map]
  rfl

theorem complete_of_runOps {scope : PlanScope} {body : PlanBody}
    (hhex : ∀ bytes, isSha256HexDigest (sha256 bytes) = true)
    (h : runOps sha256 (body.ops scope) fresh [] = some (b, described)) :
    planBundleComplete sha256 scope b = true := by
  have hnodup : (body.counts.map Prod.fst).Nodup := forms_counts body ▸ body.nodup
  have hsorted : body.sortedCounts.Perm body.counts := List.perm_insertionSort _ _
  -- up to the locator groups
  obtain ⟨targets, htargets, hkeys⟩ : ∃ targets : Dict String Bytes,
      targets = placeParts .empty body.parts ∧
      targets.keys.toFinset = (body.counts.map fun (form, _) => formPartitionDirectory form).toFinset := by
    refine ⟨_, rfl, ?_⟩
    ext k
    rw [List.mem_toFinset, List.mem_toFinset, mem_keys_placeParts, PlanBody.counts, List.map_map]
    simp [Dict.empty, Dict.keys]
  have hwrites : ∀ seeds, runOps sha256 (body.parts.map fun (form, bytes, _) => .writePart form bytes)
      { fresh with seedFilers := seeds, targets := some .empty } [] =
        some ({ fresh with seedFilers := seeds, targets := some targets }, []) := by
    intro seeds
    rw [runOps_writeParts rfl, ← htargets]
  have hstart : ∃ seeds, (scope = .policy → seeds = true) ∧
      runOps sha256 (.makeTargets :: ((if scope = .policy then [.writeSeedFilers] else []) ++
        body.parts.map fun (form, bytes, _) => .writePart form bytes)) fresh [] =
          some ({ fresh with seedFilers := seeds, targets := some targets }, []) := by
    by_cases hscope : scope = .policy
    · refine ⟨true, fun _ => rfl, ?_⟩
      rw [if_pos hscope, runOps_cons]
      exact hwrites true
    · refine ⟨false, fun heq => absurd heq hscope, ?_⟩
      rw [if_neg hscope, runOps_cons]
      exact hwrites false
  obtain ⟨seeds, hseeds, hstart⟩ := hstart
  have hreserve : ∃ reserve, ∀ rest, runOps sha256 (.writeLocatorGroups ::
      ((if body.reserve then [.writeReserveTargets] else []) ++ rest))
        { fresh with seedFilers := seeds, targets := some targets } [] =
      runOps sha256 rest { fresh with
        locatorGroups := true, seedFilers := seeds, reserveTargets := reserve, targets := some targets } [] := by
    cases hres : body.reserve with
    | true => exact ⟨true, fun _ => rfl⟩
    | false => exact ⟨false, fun _ => rfl⟩
  obtain ⟨reserve, hreserve⟩ := hreserve
  rw [PlanBody.ops, ← List.cons_append, runOps_append, hstart, Option.bind_some, List.append_assoc, hreserve,
    runOps_append, Option.bind_eq_some_iff] at h
  obtain ⟨⟨b₁, parts⟩, hdescribe, h⟩ := h
  obtain ⟨hsame₁, parts', hdescribed, hcounts, hparts⟩ := runOps_describeParts rfl hdescribe
  rw [List.nil_append] at hdescribed
  subst hsame₁ hdescribed
  -- the documents
  obtain ⟨hdocuments, -⟩ := Prod.mk.inj (Option.some.inj h)
  subst hdocuments
  have hmem : ∀ part ∈ parts, (part.form, part.rowCount) ∈ body.counts := by
    intro part hpart
    rw [← hsorted.mem_iff, ← hcounts]
    exact List.mem_map_of_mem hpart
  have hforms : (parts.map TargetPart.form).Nodup := by
    have heq : parts.map TargetPart.form = body.sortedCounts.map Prod.fst := by
      rw [← hcounts, List.map_map]
      rfl
    rw [heq]
    exact (hsorted.map Prod.fst).nodup_iff.mpr hnodup
  have hobserved := @observeParts_described _ _ _ [] _ hhex hnodup hparts hmem hforms
  have hlength : parts.length = body.counts.length := by
    rw [← hsorted.length_eq, ← hcounts, List.length_map]
  have hsame : (parts.map fun part => (part.form, part.path)).toFinset =
      ((expectedParts body.counts).map Prod.fst).toFinset := by
    have hkey : parts.map (fun part => (part.form, part.path)) =
        (expectedParts body.sortedCounts).map Prod.fst := by
      rw [← hcounts, expectedParts, List.map_map, List.map_map]
      apply List.map_congr_left
      intro part hpart
      rw [(hparts part hpart).path]
      rfl
    rw [hkey]
    exact List.toFinset_eq_of_perm _ _ ((hsorted.map _).map _)
  have hcomplete : targetPartsComplete sha256 body.counts targets parts = true := by
    rw [targetPartsComplete, if_neg (not_not.mpr hlength), hobserved]
    exact decide_eq_true hsame
  have hscope : (decide (scope ≠ .policy) || seeds) = true := by
    by_cases hpolicy : scope = .policy
    · rw [hseeds hpolicy, Bool.or_true]
    · rw [decide_eq_true hpolicy, Bool.true_or]
  show (true && true && (decide (scope ≠ .policy) || seeds) && decide (targets.keys.toFinset = _) &&
    targetPartsComplete sha256 body.counts targets parts) = true
  rw [hscope, hcomplete, decide_eq_true hkeys]
  rfl

end Ops
end Bundle
end EdgarSec.FilingCatalog
