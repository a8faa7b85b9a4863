import EdgarSec.Acquisition.RunStateWriters
import EdgarSec.FilingCatalog.PlanBundles
import EdgarSec.Foundation.JsonText
import EdgarSec.Foundation.Unicode
import EdgarSec.Lib.Outcome

/-! Receipts for the bodies that processing has consumed: their validation against the run
database, and the canonical text of the sidecar one is kept in. -/

namespace EdgarSec.Acquisition
open Foundation Lib FilingCatalog

def receiptSchemaVersion : String := "1"

def receiptFields : List String := ["receipt_schema_version", "run_id", "target_id",
  "source_response_sha256", "selected_sha256", "processing_run_id", "consumed_at_utc"]

def sidecarSizeLimit : Nat := 16384

/-- A `BodyConsumptionReceipt`, but for its schema version. -/
structure Receipt where
  runId : String
  targetId : String
  sourceResponseSha256 : String
  selectedSha256 : String
  processingRunId : String
  consumedAtUtc : String
  deriving DecidableEq

namespace Receipt
variable (r : Receipt)

def members : List (String × Json) := [("receipt_schema_version", .str receiptSchemaVersion),
  ("run_id", .str r.runId), ("target_id", .str r.targetId),
  ("source_response_sha256", .str r.sourceResponseSha256), ("selected_sha256", .str r.selectedSha256),
  ("processing_run_id", .str r.processingRunId), ("consumed_at_utc", .str r.consumedAtUtc)]

/-- `canonical_json(validated).encode("utf-8")` -/
def encoded : Bytes := utf8 (canonicalJson (.obj r.members))

def directory : String × String := (r.runId, r.targetId)

end Receipt

/-- What a call reads besides the sidecar: the databases of the runs that have one, and of
Python `str.isalnum` outside ASCII and `datetime.fromisoformat` (`none` where it raises) with
the offset from UTC that the value has. -/
structure Handoff where
  isalnum : Char → Bool
  fromisoformat : String → Option (Option Int)
  databases : String → Option Store

def textOf (mapping : List (String × Json)) (key : String) : Option String :=
  match mapping.lookup key with
  | some (.str text) => some text
  | _ => none

def require {α : Type} (value : Option α) (message : String) : Except String α :=
  match value with
  | some a => .ok a
  | none => .error message

theorem require_eq_ok {α : Type} {value : Option α} {message : String} {a : α} :
    require value message = .ok a ↔ value = some a := by
  cases value <;> simp [require]

namespace Handoff
variable (h : Handoff)

def isSafeChar (c : Char) : Bool :=
  (if isAscii c then c.isAlphanum else h.isalnum c) || c == '_' || c == '.' || c == '-'

/-- `validate_safe_id` without a bound on the length. -/
def validateSafeId (value label : String) : Except String Unit :=
  ensure (value ≠ "" ∧ value ≠ "." ∧ value ≠ ".." ∧ value.toList.all h.isSafeChar)
    ("invalid " ++ label ++ ": " ++ pyRepr value)

def getTargetState (runId targetId : String) : Except String (Option TargetState) := do
  let store ← require (h.databases runId) "unable to open database file"
  ensure (store.userVersion = schemaVersion) "unsupported run-state schema version"
  pure (store.targets.find? fun target => target.targetId = targetId)

def hasBodyIdentity (evidence : Evidence) : Bool :=
  evidence.sourceSha256.any isSha256HexDigest && evidence.sourceByteSize.any (0 ≤ ·) &&
    evidence.selectedSha256.any isSha256HexDigest && evidence.selectedByteSize.any (0 ≤ ·)

def state (runId targetId : String) : Except String TargetState := do
  h.validateSafeId runId "run_id"
  h.validateSafeId targetId "target_id"
  let found ← h.getTargetState runId targetId
  let target ← require (found.filter fun target => target.outcome = .acquired)
    "run target is not acquired"
  ensure (hasBodyIdentity target.evidence) "acquired target has incomplete body identity"
  pure target

/-- The text that is parsed: a final `Z` is written out as an offset. -/
def isoText (value : String) : String :=
  if value.toList.getLast? = some 'Z' then String.ofList (value.toList.dropLast ++ "+00:00".toList)
  else value

def validateTimestamp (value : Option String) : Except String String := do
  let text ← require (value.filter (· ≠ "")) "receipt timestamp must be an ISO-8601 UTC value"
  let offset ← require (h.fromisoformat (isoText text)) "receipt timestamp must be an ISO-8601 UTC value"
  ensure (offset = some 0) "receipt timestamp must use UTC"
  pure text

def validateReceipt (receipt : List (String × Json)) : Except String Receipt := do
  ensure ((receipt.map Prod.fst).toFinset = receiptFields.toFinset)
    "receipt fields do not match the supported schema"
  let runId ← require (textOf receipt "run_id") "receipt run and target IDs must be strings"
  let targetId ← require (textOf receipt "target_id") "receipt run and target IDs must be strings"
  let processingRunId ← require (textOf receipt "processing_run_id")
    "receipt processing_run_id must be a string"
  h.validateSafeId processingRunId "processing_run_id"
  ensure (textOf receipt "receipt_schema_version" = some receiptSchemaVersion)
    "unsupported receipt schema version"
  let source ← require ((textOf receipt "source_response_sha256").filter fun digest => isSha256HexDigest digest)
    "receipt body digests are invalid"
  let selected ← require ((textOf receipt "selected_sha256").filter fun digest => isSha256HexDigest digest)
    "receipt body digests are invalid"
  let target ← h.state runId targetId
  ensure (some source = target.evidence.sourceSha256 ∧ some selected = target.evidence.selectedSha256)
    "receipt identity does not match acquired target"
  let timestamp ← h.validateTimestamp (textOf receipt "consumed_at_utc")
  pure ⟨runId, targetId, source, selected, processingRunId, timestamp⟩

def membersOf : Json → Option (List (String × Json))
  | .obj members => some members
  | _ => none

def parseSidecar (data : Bytes) : Except String Receipt := do
  ensure (data.length ≤ sidecarSizeLimit) "receipt sidecar exceeds its size limit"
  let decoded ← require (((decodeUtf8 data).bind loads).bind membersOf) "receipt sidecar is corrupt"
  let validated ← h.validateReceipt decoded
  ensure (data = validated.encoded) "receipt sidecar is not canonical"
  pure validated

end Handoff

/-! ## What is validated -/

theorem textOf_eq_some {mapping : List (String × Json)} {key text : String} :
    textOf mapping key = some text ↔ mapping.lookup key = some (.str text) := by
  unfold textOf
  cases mapping.lookup key with
  | none => simp
  | some value => cases value <;> simp

structure Handoff.Accepts (h : Handoff) (r : Receipt) (target : TargetState) : Prop where
  processing : h.validateSafeId r.processingRunId "processing_run_id" = .ok ()
  source_digest : isSha256HexDigest r.sourceResponseSha256
  selected_digest : isSha256HexDigest r.selectedSha256
  state : h.state r.runId r.targetId = .ok target
  source : target.evidence.sourceSha256 = some r.sourceResponseSha256
  selected : target.evidence.selectedSha256 = some r.selectedSha256
  timestamp : h.validateTimestamp (some r.consumedAtUtc) = .ok r.consumedAtUtc

def Receipt.IsIn (r : Receipt) (mapping : List (String × Json)) : Prop :=
  (mapping.map Prod.fst).toFinset = receiptFields.toFinset ∧
    ∀ m ∈ r.members, mapping.lookup m.1 = some m.2

namespace Handoff
variable {h : Handoff} {r : Receipt} {mapping : List (String × Json)} {data : Bytes}

theorem validateTimestamp_eq_ok {value : Option String} {text : String}
    (hok : h.validateTimestamp value = .ok text) : value = some text := by
  unfold validateTimestamp at hok
  obtain ⟨text', htext, hok⟩ := bind_eq_ok.mp hok
  obtain ⟨offset, _, hok⟩ := bind_eq_ok.mp hok
  obtain ⟨_, _, hok⟩ := bind_eq_ok.mp hok
  obtain rfl := Except.ok.inj hok
  have hfilter := Option.filter_eq_some_iff.mp (require_eq_ok.mp htext)
  exact hfilter.1

theorem validateReceipt_eq_ok :
    h.validateReceipt mapping = .ok r ↔ r.IsIn mapping ∧ ∃ target, h.Accepts r target := by
  unfold validateReceipt
  constructor
  · intro hok
    obtain ⟨_, hfields, hok⟩ := bind_eq_ok.mp hok
    obtain ⟨runId, hrun, hok⟩ := bind_eq_ok.mp hok
    obtain ⟨targetId, htarget, hok⟩ := bind_eq_ok.mp hok
    obtain ⟨processing, hprocessing, hok⟩ := bind_eq_ok.mp hok
    obtain ⟨_, hsafe, hok⟩ := bind_eq_ok.mp hok
    obtain ⟨_, hversion, hok⟩ := bind_eq_ok.mp hok
    obtain ⟨source, hsource, hok⟩ := bind_eq_ok.mp hok
    obtain ⟨selected, hselected, hok⟩ := bind_eq_ok.mp hok
    obtain ⟨target, hstate, hok⟩ := bind_eq_ok.mp hok
    obtain ⟨_, hidentity, hok⟩ := bind_eq_ok.mp hok
    obtain ⟨timestamp, htimestamp, hok⟩ := bind_eq_ok.mp hok
    obtain rfl := Except.ok.inj hok
    have hsource' := Option.filter_eq_some_iff.mp (require_eq_ok.mp hsource)
    have hselected' := Option.filter_eq_some_iff.mp (require_eq_ok.mp hselected)
    have hidentity' := ensure_eq_ok.mp hidentity
    have htime := validateTimestamp_eq_ok htimestamp
    refine ⟨⟨ensure_eq_ok.mp hfields, ?_⟩, target, ?_⟩
    · intro m hm
      simp only [Receipt.members, List.mem_cons, List.not_mem_nil, or_false] at hm
      rcases hm with rfl | rfl | rfl | rfl | rfl | rfl | rfl
      · exact textOf_eq_some.mp (ensure_eq_ok.mp hversion)
      · exact textOf_eq_some.mp (require_eq_ok.mp hrun)
      · exact textOf_eq_some.mp (require_eq_ok.mp htarget)
      · exact textOf_eq_some.mp hsource'.1
      · exact textOf_eq_some.mp hselected'.1
      · exact textOf_eq_some.mp (require_eq_ok.mp hprocessing)
      · exact textOf_eq_some.mp htime
    · rw [htime] at htimestamp
      exact ⟨hsafe, hsource'.2, hselected'.2, hstate, hidentity'.1.symm, hidentity'.2.symm, htimestamp⟩
  · rintro ⟨⟨hfields, hmembers⟩, target, haccepts⟩
    have htext : ∀ key text, (key, Json.str text) ∈ r.members → textOf mapping key = some text :=
      fun key text hm => textOf_eq_some.mpr (hmembers _ hm)
    rw [htext "run_id" r.runId (by simp [Receipt.members]),
      htext "target_id" r.targetId (by simp [Receipt.members]),
      htext "processing_run_id" r.processingRunId (by simp [Receipt.members]),
      htext "receipt_schema_version" receiptSchemaVersion (by simp [Receipt.members]),
      htext "source_response_sha256" r.sourceResponseSha256 (by simp [Receipt.members]),
      htext "selected_sha256" r.selectedSha256 (by simp [Receipt.members]),
      htext "consumed_at_utc" r.consumedAtUtc (by simp [Receipt.members])]
    simp [bind, Except.bind, pure, Except.pure, ensure, require, hfields, haccepts.processing,
      Option.filter, haccepts.source_digest, haccepts.selected_digest, haccepts.state,
      haccepts.source, haccepts.selected, haccepts.timestamp]

end Handoff

/-! ## The text of a sidecar -/

namespace Receipt
variable {r r' : Receipt}

def sortedMembers (r : Receipt) : List (String × Json) := r.members.insertionSort keyLe

theorem nodup_members : (r.members.map Prod.fst).Nodup := by
  have hfields : receiptFields.Nodup := by decide
  have hkeys : (r.members.map Prod.fst).Perm receiptFields := List.Perm.refl _
  exact hkeys.nodup_iff.mpr hfields

theorem exact_members : (Json.obj r.members).Exact := by
  refine ⟨nodup_members, exactMembers_iff.mpr ?_⟩
  intro m hm
  simp only [members, List.mem_cons, List.not_mem_nil, or_false] at hm
  rcases hm with rfl | rfl | rfl | rfl | rfl | rfl | rfl <;> exact trivial

theorem loads_encoded : (decodeUtf8 r.encoded).bind loads = some (.obj r.sortedMembers) := by
  have hsort : (Json.obj r.members).sortKeys = .obj r.sortedMembers := rfl
  rw [encoded, decodeUtf8_utf8, Option.bind_some, loads_canonicalJson exact_members, hsort]

theorem isIn_members : r.IsIn r.members := by
  refine ⟨rfl, fun m hm => ?_⟩
  exact Dict.lookup_eq_some_of_mem nodup_members hm

theorem isIn_sortedMembers : r.IsIn r.sortedMembers := by
  have hperm : r.sortedMembers.Perm r.members := List.perm_insertionSort keyLe r.members
  have hnodup : (r.sortedMembers.map Prod.fst).Nodup := (hperm.map Prod.fst).nodup_iff.mpr nodup_members
  constructor
  · rw [List.toFinset_eq_of_perm _ _ (hperm.map Prod.fst)]
    rfl
  · intro m hm
    exact Dict.lookup_eq_some_of_mem hnodup (hperm.mem_iff.mpr hm)

theorem IsIn.unique {mapping : List (String × Json)} (hr : r.IsIn mapping) (hr' : r'.IsIn mapping) :
    r = r' := by
  have hfield : ∀ key text text', (key, Json.str text) ∈ r.members → (key, Json.str text') ∈ r'.members →
      text = text' := by
    intro key text text' hm hm'
    have heq : some (Json.str text) = some (Json.str text') := by
      rw [← hr.2 _ hm, ← hr'.2 _ hm']
    exact Json.str.inj (Option.some.inj heq)
  have hrun := hfield "run_id" r.runId r'.runId (by simp [members]) (by simp [members])
  have htarget := hfield "target_id" r.targetId r'.targetId (by simp [members]) (by simp [members])
  have hsource := hfield "source_response_sha256" r.sourceResponseSha256 r'.sourceResponseSha256
    (by simp [members]) (by simp [members])
  have hselected := hfield "selected_sha256" r.selectedSha256 r'.selectedSha256
    (by simp [members]) (by simp [members])
  have hprocessing := hfield "processing_run_id" r.processingRunId r'.processingRunId
    (by simp [members]) (by simp [members])
  have hconsumed := hfield "consumed_at_utc" r.consumedAtUtc r'.consumedAtUtc
    (by simp [members]) (by simp [members])
  cases r
  cases r'
  simp_all only

theorem encoded_injective (heq : r.encoded = r'.encoded) : r = r' := by
  have hmembers : some (Json.obj r.sortedMembers) = some (Json.obj r'.sortedMembers) := by
    rw [← loads_encoded, ← loads_encoded, heq]
  have hsame : r.sortedMembers = r'.sortedMembers := Json.obj.inj (Option.some.inj hmembers)
  have hr : r.IsIn r'.sortedMembers := hsame ▸ isIn_sortedMembers
  exact hr.unique isIn_sortedMembers

theorem length_lt_encoded (r : Receipt) : r.processingRunId.length < r.encoded.length := by
  have hmember : (quote "processing_run_id").length + 1 + (quote r.processingRunId).length ∈
      memberLengths r.members := by
    rw [memberLengths_eq_map]
    exact List.mem_map.mpr ⟨("processing_run_id", .str r.processingRunId), by simp [members], rfl⟩
  have hsum := List.single_le_sum (by simp) _ hmember
  have htext : (canonicalJson (.obj r.members)).length ≤ r.encoded.length := length_le_utf8 _
  rw [length_canonicalJson, Json.textLength] at htext
  have hquote := length_le_quote r.processingRunId
  omega

end Receipt

namespace Handoff
variable {h : Handoff} {r : Receipt} {data : Bytes}

theorem parseSidecar_eq_ok : h.parseSidecar data = .ok r ↔
    data = r.encoded ∧ data.length ≤ sidecarSizeLimit ∧ ∃ target, h.Accepts r target := by
  unfold parseSidecar
  constructor
  · intro hok
    obtain ⟨_, hsize, hok⟩ := bind_eq_ok.mp hok
    obtain ⟨decoded, _, hok⟩ := bind_eq_ok.mp hok
    obtain ⟨validated, hvalid, hok⟩ := bind_eq_ok.mp hok
    obtain ⟨_, hcanonical, hok⟩ := bind_eq_ok.mp hok
    obtain rfl := Except.ok.inj hok
    have haccepts := (validateReceipt_eq_ok.mp hvalid).2
    exact ⟨ensure_eq_ok.mp hcanonical, ensure_eq_ok.mp hsize, haccepts⟩
  · rintro ⟨rfl, hsize, haccepts⟩
    have hvalid : h.validateReceipt r.sortedMembers = .ok r :=
      validateReceipt_eq_ok.mpr ⟨Receipt.isIn_sortedMembers, haccepts⟩
    rw [Receipt.loads_encoded]
    simp [bind, Except.bind, pure, Except.pure, ensure, require, membersOf, hsize, hvalid]

end Handoff
end EdgarSec.Acquisition
