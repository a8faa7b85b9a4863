import EdgarSec.Foundation.Text
import EdgarSec.Lib.Dict

/-! Metadata plans, and the chunk files that count as complete. -/

namespace EdgarSec.MetadataSync
open Foundation Lib

/-! ## Plans -/

/-- A cohort in order, with display names. `write_roster_rows` refuses a duplicate CIK. -/
structure Roster where
  rosterId : String
  rows : List (String × String)
  nodup : (rows.map Prod.fst).Nodup

namespace Roster

def ciks (r : Roster) : List String := r.rows.map Prod.fst

def rowCount (r : Roster) : Nat := r.rows.length

def rangeCiks (r : Roster) (start length : Nat) : List String := (r.ciks.drop start).take length

theorem rangeCiks_nodup (r : Roster) (start length : Nat) : (r.rangeCiks start length).Nodup :=
  r.nodup.sublist ((List.take_sublist _ _).trans (List.drop_sublist _ _))

end Roster

def planFormatVersion : String := "2.1.0"

def schemaVersion : String := "1.0.0"

section PlanIds
variable (sha256 : Bytes → String)

def derivePlanId (rosterId : String) (chunkSize : Nat) (kind parentId archiveSha256 : String) : String :=
  let material := joinWith ":" ["metadata-plan-v2", planFormatVersion, schemaVersion, kind, parentId,
    rosterId, toString chunkSize, archiveSha256]
  String.ofList ((sha256Text sha256 material).toList.take 16)

end PlanIds

structure Plan where
  planId : String
  roster : Roster
  chunkSize : Nat
  kind : String
  parentId : String
  inputName : String
  inputFingerprint : String
  archiveSourceId : String
  archiveSha256 : String
  chunkSize_pos : 0 < chunkSize

namespace Plan

/-- What `build_plan` and `load_plan` settle of a plan's id: neither the input name nor the
input fingerprint takes part. -/
def Identified (sha256 : Bytes → String) (plan : Plan) : Prop :=
  plan.planId = derivePlanId sha256 plan.roster.rosterId plan.chunkSize plan.kind plan.parentId
    plan.archiveSha256

instance (sha256 : Bytes → String) (plan : Plan) : Decidable (plan.Identified sha256) :=
  inferInstanceAs (Decidable (_ = _))

def isArchivePlan (plan : Plan) : Bool := plan.archiveSha256 ≠ ""

/-- `-(-row_count // chunk_size)` -/
def chunkCount (plan : Plan) : Nat := (plan.roster.rowCount + plan.chunkSize - 1) / plan.chunkSize

def chunkIds (plan : Plan) : List Nat := List.range plan.chunkCount

def requireChunk (plan : Plan) (chunkId : Nat) : Except String Unit :=
  if chunkId < plan.chunkCount then .ok ()
  else .error ("chunk " ++ toString chunkId ++ " is not present in plan " ++ plan.planId ++ " (0.." ++
    toString ((plan.chunkCount : Int) - 1) ++ ")")

def chunkLength (plan : Plan) (chunkId : Nat) : Nat :=
  min plan.chunkSize (plan.roster.rowCount - chunkId * plan.chunkSize)

/-- The CIKs of a chunk that `requireChunk` lets through. -/
def chunkCiks (plan : Plan) (chunkId : Nat) : List String :=
  plan.roster.rangeCiks (chunkId * plan.chunkSize) (plan.chunkLength chunkId)

theorem chunkCiks_nodup (plan : Plan) (chunkId : Nat) : (plan.chunkCiks chunkId).Nodup :=
  plan.roster.rangeCiks_nodup _ _

theorem start_lt_of_requireChunk {plan : Plan} {chunkId : Nat} (h : plan.requireChunk chunkId = .ok ()) :
    chunkId * plan.chunkSize < plan.roster.rowCount := by
  unfold requireChunk at h
  split_ifs at h with hlt
  have hpos := plan.chunkSize_pos
  have hle : (chunkId + 1) * plan.chunkSize ≤ plan.roster.rowCount + plan.chunkSize - 1 :=
    (Nat.le_div_iff_mul_le hpos).mp hlt
  rw [Nat.add_mul, Nat.one_mul] at hle
  omega

theorem chunkCiks_ne_nil {plan : Plan} {chunkId : Nat} (h : plan.requireChunk chunkId = .ok ()) :
    plan.chunkCiks chunkId ≠ [] := by
  have hlt := start_lt_of_requireChunk h
  have hpos := plan.chunkSize_pos
  rw [← List.length_pos_iff]
  unfold chunkCiks Roster.rangeCiks chunkLength Roster.ciks Roster.rowCount at *
  rw [List.length_take, List.length_drop, List.length_map]
  omega

theorem mem_chunkIds {plan : Plan} {chunkId : Nat} :
    chunkId ∈ plan.chunkIds ↔ plan.requireChunk chunkId = .ok () := by
  unfold chunkIds requireChunk
  rw [List.mem_range]
  split_ifs with h <;> simp [h]

end Plan

/-! ## Chunk files -/

/-- A row of `SUBMISSION_METADATA_SCHEMA`: the columns that chunk handling looks at or
stamps, and the others. -/
structure Row (ρ : Type) where
  cik : String
  snapshotId : Option String
  fetchedAt : Option String
  status : String
  inputFingerprint : Option String
  historicalFilesTotal : Option Nat
  columns : ρ
  deriving DecidableEq

inductive ParquetFile (ρ : Type) where
  | table (rows : List (Row ρ))
  | otherSchema (rowCount : Nat)
  | unreadable
  deriving DecidableEq

structure ChunkInfo where
  chunkId : Nat
  rowCount : Nat
  ciks : List String
  fileSha256 : String
  deriving DecidableEq

section Inspection
variable {ρ : Type}

/-- The comparison `inspect_chunk` makes for one row. -/
def fingerprintExpected (expectedFingerprint : Option String)
    (expectedFingerprints : Option (Dict String String)) (row : Row ρ) : Bool :=
  match expectedFingerprints with
  | some fingerprints => row.inputFingerprint = fingerprints.get? row.cik
  | none =>
    match expectedFingerprint with
    | none => true
    | some fingerprint => fingerprint = "" || row.inputFingerprint.all (· = fingerprint)

variable (fileSha256 : ParquetFile ρ → String)

def inspectChunk (chunkId : Nat) (file : Option (ParquetFile ρ)) (expectedCiks : Option (List String))
    (expectedFingerprint : Option String) (expectedFingerprints : Option (Dict String String)) :
    Option ChunkInfo :=
  match file with
  | some (.table rows) =>
    match expectedCiks with
    | some expected =>
      let ciks := rows.map Row.cik
      if expected ≠ [] ∧ (ciks.length ≠ expected.length ∨ ciks.toFinset ≠ expected.toFinset) then none
      else if ¬ rows.all (fingerprintExpected expectedFingerprint expectedFingerprints) then none
      else some ⟨chunkId, rows.length, ciks, fileSha256 (.table rows)⟩
    | none =>
      if rows.length = 0 then none else some ⟨chunkId, rows.length, [], fileSha256 (.table rows)⟩
  | _ => none

/-- `fingerprint or None` -/
def orNone (fingerprint : String) : Option String := if fingerprint = "" then none else some fingerprint

/-- The chunks of a plan that are done. `fingerprintsFile` holds what `read_fingerprints` reads
beside the plan. -/
def discoverCompletedChunks (plan : Plan) (chunkFile : Nat → Option (ParquetFile ρ))
    (fingerprintsFile : Option (Dict String String)) : List (Nat × ChunkInfo) :=
  let fingerprints := if plan.isArchivePlan then fingerprintsFile else none
  plan.chunkIds.filterMap fun chunkId =>
    (inspectChunk fileSha256 chunkId (chunkFile chunkId) (some (plan.chunkCiks chunkId))
      (orNone plan.inputFingerprint) fingerprints).map fun info => (chunkId, info)

variable {fileSha256} {chunkId : Nat} {rows : List (Row ρ)} {expected : List String}
  {fingerprint : Option String} {fingerprints : Option (Dict String String)}

theorem perm_of_length_of_toFinset {ciks : List String} (hnodup : expected.Nodup)
    (hlength : ciks.length = expected.length) (hset : ciks.toFinset = expected.toFinset) :
    ciks.Perm expected := by
  have hsub : expected ⊆ ciks := fun c hc => by
    rwa [← List.mem_toFinset, hset, List.mem_toFinset]
  exact ((List.subperm_of_subset hnodup hsub).perm_of_length_le hlength.le).symm

theorem inspectChunk_eq_some_iff (hnodup : expected.Nodup) (hne : expected ≠ [])
    {file : Option (ParquetFile ρ)} :
    (inspectChunk fileSha256 chunkId file (some expected) fingerprint fingerprints).isSome = true ↔
      ∃ rows, file = some (.table rows) ∧ (rows.map Row.cik).Perm expected ∧
        ∀ row ∈ rows, fingerprintExpected fingerprint fingerprints row = true := by
  unfold inspectChunk
  constructor
  · intro h
    cases file with
    | none => cases h
    | some file =>
      cases file with
      | otherSchema n => cases h
      | unreadable => cases h
      | table rows =>
        dsimp only at h
        split_ifs at h with hciks hall
        · cases h
        · push Not at hciks
          obtain ⟨hlength, hset⟩ := hciks hne
          exact ⟨rows, rfl, perm_of_length_of_toFinset hnodup hlength hset, List.all_eq_true.mp hall⟩
        · cases h
  · rintro ⟨rows, rfl, hperm, hall⟩
    dsimp only
    rw [if_neg, if_neg]
    · rfl
    · exact not_not.mpr (List.all_eq_true.mpr hall)
    · rintro ⟨-, hlength | hset⟩
      · exact hlength hperm.length_eq
      · exact hset (List.toFinset_eq_of_perm _ _ hperm)

theorem mem_discoverCompletedChunks {plan : Plan} {chunkFile : Nat → Option (ParquetFile ρ)}
    {fingerprintsFile : Option (Dict String String)} :
    (∃ info, (chunkId, info) ∈ discoverCompletedChunks fileSha256 plan chunkFile fingerprintsFile) ↔
      chunkId ∈ plan.chunkIds ∧ ∃ rows, chunkFile chunkId = some (.table rows) ∧
        (rows.map Row.cik).Perm (plan.chunkCiks chunkId) ∧
        ∀ row ∈ rows, fingerprintExpected (orNone plan.inputFingerprint)
          (if plan.isArchivePlan then fingerprintsFile else none) row = true := by
  unfold discoverCompletedChunks
  simp only [List.mem_filterMap, Option.map_eq_some_iff, Prod.mk.injEq]
  constructor
  · rintro ⟨info, id, hid, i, hi, rfl, rfl⟩
    refine ⟨hid, ?_⟩
    rw [← inspectChunk_eq_some_iff (plan.chunkCiks_nodup id) (Plan.chunkCiks_ne_nil (Plan.mem_chunkIds.mp hid)),
      hi]
    rfl
  · rintro ⟨hid, hrows⟩
    rw [← inspectChunk_eq_some_iff (plan.chunkCiks_nodup chunkId)
      (Plan.chunkCiks_ne_nil (Plan.mem_chunkIds.mp hid)), Option.isSome_iff_exists] at hrows
    obtain ⟨info, hinfo⟩ := hrows
    exact ⟨info, chunkId, hid, info, hinfo, rfl, rfl⟩

end Inspection
end EdgarSec.MetadataSync
