import EdgarSec.Inventory.Progress

/-! The attempts of a chunk: two Parquet files, the manifest that describes them, and the
pointer that commits one attempt. -/

namespace EdgarSec.Inventory
open Foundation Lib Dag

/-! ## Files -/

structure AttemptManifest where
  version : Nat
  chunkId : String
  attemptId : String
  runId : String
  workOrderVersion : String
  parserVersion : String
  outcomeSchemaVersion : Nat
  entrySchemaVersion : Nat
  membership : List String
  membershipDigest : String
  outcomesRows : Nat
  outcomesSha256 : String
  entriesRows : Nat
  entriesSha256 : String
  createdAt : String
  deriving DecidableEq, Repr

def attemptManifestVersion : Nat := 1

inductive Staged where
  | torn
  | closed (content : Bytes)
  deriving DecidableEq, Repr

structure StagedFile where
  final : Option Bytes
  tmp : Option Staged
  deriving DecidableEq, Repr

structure Attempt where
  database : Option ProgressDatabase
  outcomes : StagedFile
  entries : StagedFile
  manifest : Option AttemptManifest

def Attempt.empty : Attempt := ⟨none, ⟨none, none⟩, ⟨none, none⟩, none⟩

structure ChunkPointer where
  chunkId : String
  attemptId : String
  pointedAt : String
  deriving DecidableEq, Repr

structure ProgressPointer where
  chunkId : String
  attemptId : String
  deriving DecidableEq, Repr

structure ChunkStore where
  chunkPointer : Option ChunkPointer
  progressPointer : Option ProgressPointer
  attempts : String → Attempt

def ChunkStore.empty : ChunkStore := ⟨none, none, fun _ => .empty⟩

/-- `os.urandom(8).hex()` -/
def newAttemptId (random : List.Vector UInt8 8) : String :=
  String.ofList (random.toList.flatMap fun b => [hexDigit (b.toNat / 16), hexDigit (b.toNat % 16)])

theorem newAttemptId_ne_empty (random : List.Vector UInt8 8) : newAttemptId random ≠ "" := by
  intro hempty
  have hlength := congrArg (·.toList.length) hempty
  simp [newAttemptId, List.length_flatMap] at hlength

def outcomesPath (chunkDir attemptId : String) : String :=
  chunkDir ++ "/attempt-" ++ attemptId ++ "/outcomes.parquet"

def entriesPath (chunkDir attemptId : String) : String :=
  chunkDir ++ "/attempt-" ++ attemptId ++ "/entries.parquet"

/-! ## Parquet -/

section Parquet
variable (engine : Engine Cell)

def writeTable (schema : Schema) (rows : Table Cell) : Bytes :=
  if h : schema.Fits rows then engine.encode ⟨schema, rows, h⟩ else []

def readParquet (file : StagedFile) : Except InventoryError (Parquet Cell) :=
  match file.final with
  | none => .error (.osError "No such file or directory")
  | some content =>
    match engine.decode content with
    | none => .error (.valueError "Parquet magic bytes not found in footer")
    | some parquet => .ok parquet

/-- `StagedParquetWriter.commit` after the batches of `rows`: a writer that was given no batch
takes over the staging file that an earlier one left. -/
def commitStaged (schema : Schema) (rows : Table Cell) (file : StagedFile) :
    Except InventoryError StagedFile :=
  if rows ≠ [] then .ok ⟨some (writeTable engine schema rows), none⟩
  else
    match file.tmp with
    | none => .ok ⟨some (writeTable engine schema []), none⟩
    | some .torn => .error (.valueError "Parquet magic bytes not found in footer")
    | some (.closed content) => .ok ⟨some content, none⟩

/-- What a writer that did not get through leaves: the file as it was, a torn or a closed
staging file, or a file with the first rows. -/
inductive Leftover where
  | kept
  | torn
  | closed (count : Nat)
  | promoted (count : Nat)
  deriving DecidableEq, Repr

def leave (schema : Schema) (rows : Table Cell) (file : StagedFile) : Leftover → StagedFile
  | .kept => file
  | .torn => { file with tmp := some .torn }
  | .closed count => { file with tmp := some (.closed (writeTable engine schema (rows.take count))) }
  | .promoted count =>
    match commitStaged engine schema (rows.take count) file with
    | .ok promoted => promoted
    | .error _ => file

end Parquet

/-! ## Committing an attempt -/

/-- Raises `AttemptValidationError` unless the condition holds. -/
def ensureAttempt (p : Prop) [Decidable p] (message : String) : Except InventoryError Unit :=
  ensure p (.attemptValidationError message)

def validateMembership (outcomes entries : Table Cell) (membership : List String) :
    Except InventoryError Unit := do
  let expected := membership.map text
  let actual := outcomes.map outcomeAccession
  ensureAttempt actual.Nodup "outcome accessions are not unique"
  ensureAttempt ((∀ a ∈ actual, a ∈ expected) ∧ ∀ e ∈ expected, e ∈ actual)
    "outcome accessions do not exactly match chunk membership"
  ensureAttempt (∀ e ∈ entries, entryAccession e ∈ expected) "entry accessions fall outside chunk membership"

section Digest
variable (engine : Engine Cell) (sha256 : Bytes → String)

/-- The manifest `finalize_attempt` writes before it advances the pointer. -/
def finalizeAttempt (chunkDir chunkId attemptId : String) (membership : List String)
    (run : InventoryRunManifest) (now : String) (attempt : Attempt) :
    Except InventoryError AttemptManifest := do
  let outcomes ← readParquet engine attempt.outcomes
  ensureAttempt (outcomes.schema = outcomeSchema)
    ("outcomes schema mismatch in " ++ outcomesPath chunkDir attemptId)
  let entries ← readParquet engine attempt.entries
  ensureAttempt (entries.schema = entrySchema)
    ("entries schema mismatch in " ++ entriesPath chunkDir attemptId)
  let ordered := membership.insertionSort (· ≤ ·)
  validateMembership outcomes.rows entries.rows ordered
  return {
    version := attemptManifestVersion
    chunkId := chunkId
    attemptId := attemptId
    runId := run.runId
    workOrderVersion := run.workOrderVersion
    parserVersion := run.parserVersion
    outcomeSchemaVersion := outcomeSchemaVersion
    entrySchemaVersion := entrySchemaVersion
    membership := ordered
    membershipDigest := membershipDigest sha256 ordered
    outcomesRows := outcomes.rows.length
    outcomesSha256 := sha256 (attempt.outcomes.final.getD [])
    entriesRows := entries.rows.length
    entriesSha256 := sha256 (attempt.entries.final.getD [])
    createdAt := now }

/-! ## Accepting an attempt -/

def validateFiles (attempt : Attempt) (manifest : AttemptManifest) : Except InventoryError Unit := do
  ensureAttempt (attempt.outcomes.final.isSome = true ∧ attempt.entries.final.isSome = true)
    "attempt Parquet files are missing"
  let outcomes ← readParquet engine attempt.outcomes
  ensureAttempt (outcomes.schema = outcomeSchema) "outcomes schema mismatch"
  let entries ← readParquet engine attempt.entries
  ensureAttempt (entries.schema = entrySchema) "entries schema mismatch"
  ensureAttempt (outcomes.rows.length = manifest.outcomesRows) "outcome row count does not match manifest"
  ensureAttempt (entries.rows.length = manifest.entriesRows) "entry row count does not match manifest"
  ensureAttempt (sha256 (attempt.outcomes.final.getD []) = manifest.outcomesSha256)
    "outcomes file digest does not match manifest"
  ensureAttempt (sha256 (attempt.entries.final.getD []) = manifest.entriesSha256)
    "entries file digest does not match manifest"
  validateMembership outcomes.rows entries.rows manifest.membership

structure ChunkValidation where
  valid : Bool
  attemptId : Option String
  reason : String
  manifest : Option AttemptManifest
  deriving DecidableEq, Repr

def ChunkValidation.refused (attemptId : Option String) (reason : String) : ChunkValidation :=
  ⟨false, attemptId, reason, none⟩

def manifestMismatch (manifest : AttemptManifest) (run : InventoryRunManifest)
    (chunk : ChunkIdentity) : Option String :=
  if manifest.runId ≠ run.runId then some "run_id mismatch"
  else if manifest.workOrderVersion ≠ run.workOrderVersion then some "work_order_version mismatch"
  else if manifest.parserVersion ≠ run.parserVersion then some "parser_version mismatch"
  else if manifest.outcomeSchemaVersion ≠ outcomeSchemaVersion then
    some "outcome schema version mismatch"
  else if manifest.entrySchemaVersion ≠ entrySchemaVersion then some "entry schema version mismatch"
  else if manifest.membershipDigest ≠ chunk.membershipDigest then some "membership digest mismatch"
  else if manifest.membership.length ≠ chunk.membershipCount then some "membership count mismatch"
  else if membershipDigest sha256 manifest.membership ≠ manifest.membershipDigest then
    some "stored membership is corrupt"
  else none

def validateCommittedChunk (store : ChunkStore) (run : InventoryRunManifest) (chunk : ChunkIdentity) :
    ChunkValidation :=
  match store.chunkPointer with
  | none => .refused none "no chunk pointer"
  | some pointer =>
    if pointer.attemptId = "" then .refused none "pointer names no attempt"
    else
      match (store.attempts pointer.attemptId).manifest with
      | none => .refused pointer.attemptId "attempt manifest missing or malformed"
      | some manifest =>
        match manifestMismatch sha256 manifest run chunk with
        | some reason => .refused pointer.attemptId reason
        | none =>
          match validateFiles engine sha256 (store.attempts pointer.attemptId) manifest with
          | .error e => .refused pointer.attemptId e.message
          | .ok () => ⟨true, pointer.attemptId, "", manifest⟩

/-! ## What is committed is accepted -/

variable {engine sha256}

theorem readParquet_writeTable {schema : Schema} {rows : Table Cell} (h : schema.Fits rows)
    {file : StagedFile} (hfile : file.final = some (writeTable engine schema rows)) :
    readParquet engine file = .ok ⟨schema, rows, h⟩ := by
  have hwrite : writeTable engine schema rows = engine.encode ⟨schema, rows, h⟩ := dif_pos h
  rw [readParquet, hfile, hwrite]
  simp only [engine.decode_encode]

theorem isSome_of_readParquet {file : StagedFile} {parquet : Parquet Cell}
    (h : readParquet engine file = .ok parquet) : file.final.isSome = true := by
  unfold readParquet at h
  cases hfinal : file.final with
  | none => simp [hfinal] at h
  | some content => rfl

theorem membershipDigest_insertionSort (membership : List String) :
    membershipDigest sha256 (membership.insertionSort (· ≤ ·)) = membershipDigest sha256 membership := by
  have hsorted := List.pairwise_insertionSort (· ≤ · : String → String → Prop) membership
  rw [membershipDigest, hsorted.insertionSort_eq]
  rfl

theorem validateMembership_eq_ok {outcomes entries : Table Cell} {membership : List String} :
    validateMembership outcomes entries membership = .ok () ↔
      (outcomes.map outcomeAccession).Nodup ∧
      ((∀ a ∈ outcomes.map outcomeAccession, a ∈ membership.map text) ∧
        ∀ e ∈ membership.map text, e ∈ outcomes.map outcomeAccession) ∧
      ∀ e ∈ entries, entryAccession e ∈ membership.map text := by
  simp only [validateMembership, bind_eq_ok, ensureAttempt, ensure_eq_ok]
  constructor
  · rintro ⟨_, hnodup, _, hsame, hentries⟩
    exact ⟨hnodup, hsame, hentries⟩
  · rintro ⟨hnodup, hsame, hentries⟩
    exact ⟨(), hnodup, (), hsame, hentries⟩

theorem finalizeAttempt_eq_ok {chunkDir chunkId attemptId now : String} {membership : List String}
    {run : InventoryRunManifest} {attempt : Attempt} {manifest : AttemptManifest} :
    finalizeAttempt engine sha256 chunkDir chunkId attemptId membership run now attempt = .ok manifest ↔
      ∃ outcomes entries, readParquet engine attempt.outcomes = .ok outcomes ∧
        outcomes.schema = outcomeSchema ∧ readParquet engine attempt.entries = .ok entries ∧
        entries.schema = entrySchema ∧
        validateMembership outcomes.rows entries.rows (membership.insertionSort (· ≤ ·)) = .ok () ∧
        manifest = {
          version := attemptManifestVersion
          chunkId := chunkId
          attemptId := attemptId
          runId := run.runId
          workOrderVersion := run.workOrderVersion
          parserVersion := run.parserVersion
          outcomeSchemaVersion := outcomeSchemaVersion
          entrySchemaVersion := entrySchemaVersion
          membership := membership.insertionSort (· ≤ ·)
          membershipDigest := membershipDigest sha256 (membership.insertionSort (· ≤ ·))
          outcomesRows := outcomes.rows.length
          outcomesSha256 := sha256 (attempt.outcomes.final.getD [])
          entriesRows := entries.rows.length
          entriesSha256 := sha256 (attempt.entries.final.getD [])
          createdAt := now } := by
  simp only [finalizeAttempt, bind_eq_ok, ensureAttempt, ensure_eq_ok]
  constructor
  · rintro ⟨outcomes, houtcomes, _, hschema, entries, hentries, _, hschema', _, hmembers, hmanifest⟩
    exact ⟨outcomes, entries, houtcomes, hschema, hentries, hschema', hmembers,
      (Except.ok.inj hmanifest).symm⟩
  · rintro ⟨outcomes, entries, houtcomes, hschema, hentries, hschema', hmembers, hmanifest⟩
    exact ⟨outcomes, houtcomes, (), hschema, entries, hentries, (), hschema', (), hmembers,
      congrArg Except.ok hmanifest.symm⟩

theorem validateCommittedChunk_of_finalize {chunkDir attemptId now : String} {ordinal : Nat}
    {members : List IndexWorkItem} {run : InventoryRunManifest} {manifest : AttemptManifest}
    {store : ChunkStore} {pointer : ChunkPointer} (hid : attemptId ≠ "")
    (hpointer : store.chunkPointer = some pointer) (hnames : pointer.attemptId = attemptId)
    (hfinal : finalizeAttempt engine sha256 chunkDir
      (chunkIdentity sha256 run.workOrderVersion ordinal members).chunkId attemptId
      (accessions members) run now (store.attempts attemptId) = .ok manifest)
    (hmanifest : (store.attempts attemptId).manifest = some manifest) :
    validateCommittedChunk engine sha256 store run
      (chunkIdentity sha256 run.workOrderVersion ordinal members) =
      ⟨true, attemptId, "", manifest⟩ := by
  obtain ⟨outcomes, entries, houtcomes, hschema, hentries, hschema', hmembers, hfields⟩ :=
    finalizeAttempt_eq_ok.mp hfinal
  have hmatch : manifestMismatch sha256 manifest run
      (chunkIdentity sha256 run.workOrderVersion ordinal members) = none := by
    subst hfields
    simp [manifestMismatch, chunkIdentity, membershipDigest_insertionSort, accessions]
  have hfiles : validateFiles engine sha256 (store.attempts attemptId) manifest = .ok () := by
    simp only [validateFiles, bind_eq_ok, ensureAttempt, ensure_eq_ok]
    subst hfields
    exact ⟨(), ⟨isSome_of_readParquet houtcomes, isSome_of_readParquet hentries⟩, outcomes, houtcomes,
      (), hschema, entries, hentries, (), hschema', (), rfl, (), rfl, (), rfl, (), rfl, hmembers⟩
  subst hnames
  simp only [validateCommittedChunk, hpointer, if_neg hid, hmanifest, hmatch, hfiles]

end Digest
end EdgarSec.Inventory
