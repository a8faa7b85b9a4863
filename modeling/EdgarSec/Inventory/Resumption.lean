import EdgarSec.Foundation.Sha256
import EdgarSec.Inventory.CellEngine
import EdgarSec.Inventory.Journal

/-! Chunks resume without loss: whatever the order of calls, results and crashes, a committed
attempt holds one outcome for each member with the entries of its result, and the pointer names
only attempts that are accepted. -/

namespace EdgarSec.Inventory
open Foundation Lib Dag

variable {engine : Engine Cell} {sha256 : Bytes → String} {work : ChunkWork} {s t : ChunkState}

/-! ## Writing a table -/

def StagedOk (engine : Engine Cell) (schema : Schema) (rows : Table Cell) (file : StagedFile) : Prop :=
  ∀ content, file.tmp = some (.closed content) → rows = [] → content = writeTable engine schema []

theorem commitStaged_final {schema : Schema} {rows : Table Cell} {file promoted : StagedFile}
    (hstaged : StagedOk engine schema rows file)
    (hok : commitStaged engine schema rows file = .ok promoted) :
    promoted = ⟨some (writeTable engine schema rows), none⟩ := by
  unfold commitStaged at hok
  split_ifs at hok with hrows
  · exact (Except.ok.inj hok).symm
  · obtain rfl : rows = [] := not_not.mp hrows
    cases htmp : file.tmp with
    | none => simpa [htmp] using hok.symm
    | some staged =>
      cases staged with
      | torn => simp [htmp] at hok
      | closed content =>
        have hcontent := hstaged content htmp rfl
        simpa [htmp, hcontent] using hok.symm

theorem StagedOk.written {schema : Schema} {rows : Table Cell} {final : Option Bytes} :
    StagedOk engine schema rows ⟨final, none⟩ := by
  intro content htmp
  simp at htmp

theorem StagedOk.leave {schema : Schema} {rows : Table Cell} {file : StagedFile}
    (h : StagedOk engine schema rows file) (left : Leftover) :
    StagedOk engine schema rows (leave engine schema rows file left) := by
  cases left with
  | kept => exact h
  | torn =>
    intro content htmp
    simp [Inventory.leave] at htmp
  | closed count =>
    intro content htmp hrows
    subst hrows
    simpa [Inventory.leave] using htmp.symm
  | promoted count =>
    simp only [Inventory.leave]
    cases hok : commitStaged engine schema (rows.take count) file with
    | error e => exact h
    | ok promoted =>
      intro content htmp hrows
      subst hrows
      rw [List.take_nil] at hok
      rw [commitStaged_final h hok] at htmp
      simp at htmp

theorem StagedOk.mono {schema : Schema} {rows rows' : Table Cell} {file : StagedFile}
    (h : StagedOk engine schema rows file) (hrows : rows' = [] → rows = []) :
    StagedOk engine schema rows' file := fun content htmp hnil => h content htmp (hrows hnil)

/-! ## The invariant -/

namespace ChunkState

def Seeded (s : ChunkState) (attemptId : String) (db : ProgressDatabase) : Prop :=
  ∀ prior, db.payload.sourceAttemptId = some prior →
    ∀ x ∈ s.journal prior, isRetryable x.row = false → x ∈ s.journal attemptId

structure AttemptOk (engine : Engine Cell) (s : ChunkState) (attemptId : String)
    (db : ProgressDatabase) : Prop where
  named : attemptId ≠ ""
  holds : Holds db (s.journal attemptId)
  source : ∀ prior, db.payload.sourceAttemptId = some prior → prior ∈ s.committed
  carried : ∀ prior, db.payload.sourceAttemptId = some prior → ∀ x ∈ s.journal prior,
    isRetryable x.row = false → x.accession ∈ (s.journal attemptId).map Recorded.accession →
      x ∈ s.journal attemptId
  outcomes : StagedOk engine outcomeSchema (db.exportOutcomes engine.toChoice)
    (s.attempt attemptId).outcomes
  entries : StagedOk engine entrySchema (db.exportEntries engine.toChoice) (s.attempt attemptId).entries

def OutcomesWritten (engine : Engine Cell) (s : ChunkState) (attemptId : String)
    (db : ProgressDatabase) : Prop :=
  (s.attempt attemptId).outcomes.final =
    some (writeTable engine outcomeSchema (db.exportOutcomes engine.toChoice))

def EntriesWritten (engine : Engine Cell) (s : ChunkState) (attemptId : String)
    (db : ProgressDatabase) : Prop :=
  (s.attempt attemptId).entries.final =
    some (writeTable engine entrySchema (db.exportEntries engine.toChoice))

structure Finalized (engine : Engine Cell) (sha256 : Bytes → String) (work : ChunkWork) (s : ChunkState)
    (attemptId : String) (db : ProgressDatabase) : Prop where
  database : (s.attempt attemptId).database = some db
  seeded : s.Seeded attemptId db
  outcomes : OutcomesWritten engine s attemptId db
  entries : EntriesWritten engine s attemptId db
  manifest : ∃ now manifest, finalizeAttempt engine sha256 work.chunkDir
      (work.identity sha256).chunkId attemptId (accessions work.members) work.run now
      (s.attempt attemptId) = .ok manifest ∧ (s.attempt attemptId).manifest = some manifest

structure Open (s : ChunkState) (attemptId : String) (db : ProgressDatabase) : Prop where
  database : (s.attempt attemptId).database = some db
  uncommitted : attemptId ∉ s.committed

def PhaseOk (engine : Engine Cell) (sha256 : Bytes → String) (work : ChunkWork) (s : ChunkState) : Prop :=
  match s.phase with
  | .idle => True
  | .created mode attemptId =>
    ∃ db, s.Open attemptId db ∧ db.payload.sourceAttemptId = mode.sourceAttemptId
  | .seeding attemptId prior rest =>
    ∃ db, s.Open attemptId db ∧ db.payload.sourceAttemptId = some prior ∧
      (∀ row ∈ rest, ∃ x ∈ s.journal prior, row = x.row) ∧
      ∀ x ∈ s.journal prior, isRetryable x.row = false → x ∈ s.journal attemptId ∨ x.row ∈ rest
  | .recording attemptId _ => ∃ db, s.Open attemptId db ∧ s.Seeded attemptId db
  | .exporting attemptId => ∃ db, s.Open attemptId db ∧ s.Seeded attemptId db
  | .exportingEntries attemptId =>
    ∃ db, s.Open attemptId db ∧ s.Seeded attemptId db ∧ OutcomesWritten engine s attemptId db
  | .finalizing attemptId =>
    ∃ db, s.Open attemptId db ∧ s.Seeded attemptId db ∧ OutcomesWritten engine s attemptId db ∧
      EntriesWritten engine s attemptId db
  | .pointing attemptId =>
    ∃ db, s.Open attemptId db ∧ Finalized engine sha256 work s attemptId db

structure Resumable (engine : Engine Cell) (sha256 : Bytes → String) (work : ChunkWork)
    (s : ChunkState) : Prop where
  blank : ∀ id, (s.attempt id).database = none → s.attempt id = .empty
  attempts : ∀ id db, (s.attempt id).database = some db → AttemptOk engine s id db
  committed : ∀ id ∈ s.committed, ∃ db, Finalized engine sha256 work s id db
  unpointed : s.store.chunkPointer = none → s.committed = []
  pointed : ∀ pointer, s.store.chunkPointer = some pointer → pointer.attemptId ∈ s.committed
  newest : ∀ pointer, s.store.chunkPointer = some pointer → ∀ id ∈ s.committed, ∀ db,
    (s.attempt id).database = some db → db.payload.sourceAttemptId ≠ some pointer.attemptId
  phase : PhaseOk engine sha256 work s

theorem resumable_start : Resumable engine sha256 work .start where
  blank _ _ := rfl
  attempts id db h := by simp [attempt, start, ChunkStore.empty, Attempt.empty] at h
  committed id h := by simp [start] at h
  unpointed _ := rfl
  pointed pointer h := by simp [start, ChunkStore.empty] at h
  newest pointer h := by simp [start, ChunkStore.empty] at h
  phase := trivial

/-! ## What a step leaves alone -/

@[simp] theorem attempt_put (s : ChunkState) (id id' : String) (a : Attempt) (items : List Recorded) :
    (s.put id a items).attempt id' = if id' = id then a else s.attempt id' :=
  Function.update_apply ..

@[simp] theorem journal_put (s : ChunkState) (id id' : String) (a : Attempt) (items : List Recorded) :
    (s.put id a items).journal id' = if id' = id then items else s.journal id' :=
  Function.update_apply ..

@[simp] theorem committed_put (s : ChunkState) (id : String) (a : Attempt) (items : List Recorded) :
    (s.put id a items).committed = s.committed := rfl

@[simp] theorem attempt_setPhase (s : ChunkState) (phase : Phase) (id : String) :
    (s.setPhase phase).attempt id = s.attempt id := rfl

@[simp] theorem journal_setPhase (s : ChunkState) (phase : Phase) :
    (s.setPhase phase).journal = s.journal := rfl

@[simp] theorem committed_setPhase (s : ChunkState) (phase : Phase) :
    (s.setPhase phase).committed = s.committed := rfl

/-- `t` has what `s` has for the attempt and for every committed one. -/
structure Agrees (s t : ChunkState) (id : String) : Prop where
  attempt : t.attempt id = s.attempt id
  journal : t.journal id = s.journal id
  committed : ∀ c ∈ s.committed, t.journal c = s.journal c
  grows : ∀ c ∈ s.committed, c ∈ t.committed

variable {id : String} {db : ProgressDatabase}

theorem AttemptOk.congr (h : AttemptOk engine s id db) (hsame : Agrees s t id) :
    AttemptOk engine t id db where
  named := h.named
  holds := hsame.journal ▸ h.holds
  source prior hprior := hsame.grows prior (h.source prior hprior)
  carried prior hprior := by
    rw [hsame.journal, hsame.committed prior (h.source prior hprior)]
    exact h.carried prior hprior
  outcomes := hsame.attempt ▸ h.outcomes
  entries := hsame.attempt ▸ h.entries

theorem Finalized.congr (h : Finalized engine sha256 work s id db) (hok : AttemptOk engine s id db)
    (hsame : Agrees s t id) : Finalized engine sha256 work t id db where
  database := hsame.attempt ▸ h.database
  seeded prior hprior := by
    rw [hsame.journal, hsame.committed prior (hok.source prior hprior)]
    exact h.seeded prior hprior
  outcomes := by
    have houtcomes := h.outcomes
    unfold OutcomesWritten at houtcomes ⊢
    rwa [hsame.attempt]
  entries := by
    have hentries := h.entries
    unfold EntriesWritten at hentries ⊢
    rwa [hsame.attempt]
  manifest := hsame.attempt ▸ h.manifest

theorem Resumable.put (h : Resumable engine sha256 work s) (hid : id ∉ s.committed) {a : Attempt}
    {items : List Recorded} {phase : Phase} (hdb : a.database = some db)
    (hok : AttemptOk engine (s.put id a items) id db)
    (hphase : PhaseOk engine sha256 work ((s.put id a items).setPhase phase)) :
    Resumable engine sha256 work ((s.put id a items).setPhase phase) := by
  have hsame : ∀ c, c ≠ id → Agrees s ((s.put id a items).setPhase phase) c := by
    intro c hc
    refine ⟨by simp [hc], by simp [hc], ?_, fun _ hmem => hmem⟩
    intro c' hc'
    have hne : c' ≠ id := fun heq => hid (heq ▸ hc')
    simp [hne]
  have hcommitted : ∀ c ∈ s.committed, c ≠ id := fun c hc heq => hid (heq ▸ hc)
  refine ⟨?_, ?_, ?_, h.unpointed, h.pointed, ?_, hphase⟩
  · intro c hc
    by_cases heq : c = id
    · subst heq
      simp [hdb] at hc
    · rw [(hsame c heq).attempt] at hc ⊢
      exact h.blank c hc
  · intro c db' hc
    by_cases heq : c = id
    · subst heq
      obtain rfl : db' = db := by simpa [hdb] using hc.symm
      exact hok.congr ⟨rfl, rfl, fun _ _ => rfl, fun _ hmem => hmem⟩
    · rw [(hsame c heq).attempt] at hc
      exact (h.attempts c db' hc).congr (hsame c heq)
  · intro c hc
    obtain ⟨db', hfinal⟩ := h.committed c hc
    have hne := hcommitted c hc
    exact ⟨db', hfinal.congr (h.attempts c db' hfinal.database) (hsame c hne)⟩
  · intro pointer hpointer c hc db' hdb'
    have hne := hcommitted c hc
    rw [(hsame c hne).attempt] at hdb'
    exact h.newest pointer hpointer c hc db' hdb'

theorem Resumable.setPhase (h : Resumable engine sha256 work s) {phase : Phase}
    (hphase : PhaseOk engine sha256 work (s.setPhase phase)) :
    Resumable engine sha256 work (s.setPhase phase) where
  blank := h.blank
  attempts id db hdb := (h.attempts id db hdb).congr ⟨rfl, rfl, fun _ _ => rfl, fun _ hmem => hmem⟩
  committed id hid := by
    obtain ⟨db, hfinal⟩ := h.committed id hid
    exact ⟨db, hfinal.congr (h.attempts id db hfinal.database)
      ⟨rfl, rfl, fun _ _ => rfl, fun _ hmem => hmem⟩⟩
  unpointed := h.unpointed
  pointed := h.pointed
  newest := h.newest
  phase := hphase

theorem Resumable.idle (h : Resumable engine sha256 work s) :
    Resumable engine sha256 work (s.setPhase .idle) := h.setPhase trivial

/-! ## Opening -/

theorem AttemptOk.put {a : Attempt} {items : List Recorded}
    (hid : id ∉ s.committed) (hnamed : id ≠ "") (hholds : Holds db items)
    (hsource : ∀ prior, db.payload.sourceAttemptId = some prior → prior ∈ s.committed ∧
      ∀ x ∈ s.journal prior, isRetryable x.row = false →
        x.accession ∈ items.map Recorded.accession → x ∈ items)
    (houtcomes : StagedOk engine outcomeSchema (db.exportOutcomes engine.toChoice) a.outcomes)
    (hentries : StagedOk engine entrySchema (db.exportEntries engine.toChoice) a.entries) :
    AttemptOk engine (s.put id a items) id db where
  named := hnamed
  holds := by simpa using hholds
  source prior hprior := (hsource prior hprior).1
  carried prior hprior := by
    obtain ⟨hmem, hcarried⟩ := hsource prior hprior
    have hne : prior ≠ id := fun heq => hid (heq ▸ hmem)
    simpa [hne] using hcarried
  outcomes := by simpa using houtcomes
  entries := by simpa using hentries

theorem AttemptOk.files {a : Attempt} (hid : id ∉ s.committed) (hok : AttemptOk engine s id db)
    (houtcomes : StagedOk engine outcomeSchema (db.exportOutcomes engine.toChoice) a.outcomes)
    (hentries : StagedOk engine entrySchema (db.exportEntries engine.toChoice) a.entries) :
    AttemptOk engine (s.put id a (s.journal id)) id db :=
  AttemptOk.put hid hok.named hok.holds
    (fun prior hprior => ⟨hok.source prior hprior, hok.carried prior hprior⟩) houtcomes hentries

theorem Seeded.put {a : Attempt} {items : List Recorded} (hid : id ∉ s.committed)
    (hsource : ∀ prior, db.payload.sourceAttemptId = some prior → prior ∈ s.committed)
    (hitems : ∀ prior, db.payload.sourceAttemptId = some prior → ∀ x ∈ s.journal prior,
      isRetryable x.row = false → x ∈ items) : (s.put id a items).Seeded id db := by
  intro prior hprior
  have hne : prior ≠ id := fun heq => hid (heq ▸ hsource prior hprior)
  simpa [hne] using hitems prior hprior

theorem decideChunk_eq_some {retryFailures : Bool} {mode : Mode}
    (h : decideChunk engine sha256 work s.store retryFailures = .ok (some mode)) :
    (mode = .fresh ∧ s.store.chunkPointer = none) ∨ mode = .freshReset ∨
      ∃ pointer, s.store.chunkPointer = some pointer ∧ mode = .retry pointer.attemptId := by
  unfold decideChunk at h
  cases hpointer : s.store.chunkPointer with
  | none =>
    have hrefused : validateCommittedChunk engine sha256 s.store work.run (work.identity sha256) =
        .refused none "no chunk pointer" := by
      simp only [validateCommittedChunk, hpointer]
    left
    simp only [hrefused, ChunkValidation.refused, hpointer] at h
    simpa using h.symm
  | some pointer =>
    right
    have hid : ∀ attemptId,
        (validateCommittedChunk engine sha256 s.store work.run (work.identity sha256)).attemptId =
          some attemptId → attemptId = pointer.attemptId := by
      intro attemptId hid
      unfold validateCommittedChunk at hid
      simp only [hpointer] at hid
      split_ifs at hid
      · simp [ChunkValidation.refused] at hid
      · split at hid
        · simpa [ChunkValidation.refused] using hid.symm
        · split at hid
          · simpa [ChunkValidation.refused] using hid.symm
          · split at hid
            · simpa [ChunkValidation.refused] using hid.symm
            · simpa using hid.symm
    simp only at h
    split at h
    · rename_i attemptId _ _ hattempt _
      obtain ⟨outcomes, -, hmode⟩ := map_eq_ok.mp h
      split_ifs at hmode
      obtain rfl := Option.some.inj hmode
      exact Or.inr ⟨pointer, rfl, congrArg Mode.retry (hid attemptId hattempt)⟩
    · left
      simpa [hpointer] using h.symm

theorem resumable_eq_some {mode : Mode} (h : Inventory.resumable sha256 work s.store mode = some id) :
    mode.forceNew = false ∧ ∃ db, (s.attempt id).database = some db ∧
      db.payload = work.metadata sha256 mode id := by
  unfold Inventory.resumable at h
  cases hpointer : s.store.progressPointer with
  | none => simp [hpointer] at h
  | some pointer =>
    simp only [hpointer] at h
    split_ifs at h with hforce hchunk
    cases hdb : (s.store.attempts pointer.attemptId).database with
    | none => simp [hdb] at h
    | some db =>
      simp only [hdb, ProgressDatabase.validate] at h
      split_ifs at h with hpayload hconsistent
      obtain rfl := Option.some.inj h
      exact ⟨by simpa using hforce, db, hdb, not_not.mp hpayload⟩

theorem Resumable.readOutcomes (h : Resumable engine sha256 work s) {prior : String}
    (hprior : prior ∈ s.committed) :
    ∃ outcomes, readParquet engine (s.attempt prior).outcomes = .ok outcomes ∧
      outcomes.rows.Perm ((s.journal prior).map Recorded.row) := by
  obtain ⟨db, hfinal⟩ := h.committed prior hprior
  have hholds := (h.attempts prior db hfinal.database).holds
  exact ⟨_, readParquet_writeTable (hholds.fits_exportOutcomes engine.toChoice) hfinal.outcomes,
    hholds.perm_exportOutcomes engine.toChoice⟩

theorem Resumable.readEntries (h : Resumable engine sha256 work s) {prior : String}
    (hprior : prior ∈ s.committed) :
    ∃ entries, readParquet engine (s.attempt prior).entries = .ok entries ∧
      ∀ x ∈ s.journal prior, (ProgressDatabase.carriedEntries engine.toChoice entries.rows
        x.accession).Perm x.entryRows := by
  obtain ⟨db, hfinal⟩ := h.committed prior hprior
  have hholds := (h.attempts prior db hfinal.database).holds
  exact ⟨_, readParquet_writeTable (hholds.fits_exportEntries engine.toChoice) hfinal.entries,
    fun x hx => hholds.perm_carriedEntries engine.toChoice hx⟩

theorem phaseOk_fetch (hopen : s.Open id db) (hseeded : s.Seeded id db) :
    PhaseOk engine sha256 work (s.setPhase (fetchPhase work s.store id)) := by
  unfold fetchPhase
  cases hdb : (s.store.attempts id).database with
  | none => trivial
  | some db' =>
    cases hmissing : db'.completedAccessions work.members with
    | error e =>
      simp only [hmissing]
      trivial
    | ok missing =>
      simp only [hmissing]
      exact ⟨db, ⟨hopen.database, hopen.uncommitted⟩, hseeded⟩

theorem phaseOk_opened (h : Resumable engine sha256 work s) (hopen : s.Open id db) {mode : Mode}
    (hmode : db.payload.sourceAttemptId = mode.sourceAttemptId) :
    PhaseOk engine sha256 work (s.setPhase (openedPhase engine work s.store mode id)) := by
  have hfetch : mode.sourceAttemptId = none →
      PhaseOk engine sha256 work (s.setPhase (fetchPhase work s.store id)) := by
    intro hnone
    apply phaseOk_fetch hopen
    intro prior hprior
    rw [hmode, hnone] at hprior
    simp at hprior
  cases mode with
  | fresh => exact hfetch rfl
  | freshReset => exact hfetch rfl
  | retry prior =>
    have hprior := (h.attempts id db hopen.database).source prior hmode
    obtain ⟨outcomes, hread, hrows⟩ := h.readOutcomes hprior
    have hsort := (engine.sort_perm (columnsBefore outcomeSchema ["accession"]) outcomes.rows).trans hrows
    simp only [openedPhase]
    rw [show readParquet engine (s.store.attempts prior).outcomes = .ok outcomes from hread]
    refine ⟨db, ⟨hopen.database, hopen.uncommitted⟩, hmode, ?_, ?_⟩
    · intro row hrow
      obtain ⟨x, hx, hxrow⟩ := List.mem_map.mp (hsort.mem_iff.mp hrow)
      exact ⟨x, hx, hxrow.symm⟩
    · intro x hx _
      exact Or.inr (hsort.mem_iff.mpr (List.mem_map_of_mem hx))

/-! ## The steps -/

theorem Resumable.call (h : Resumable engine sha256 work s) (retryFailures : Bool)
    (random : List.Vector UInt8 8) :
    Resumable engine sha256 work (s.call engine sha256 work retryFailures random) := by
  unfold ChunkState.call
  cases hdecide : decideChunk engine sha256 work s.store retryFailures with
  | error e => exact h
  | ok decided =>
    cases decided with
    | none => exact h
    | some mode =>
      have hdecided := decideChunk_eq_some hdecide
      simp only
      cases hresume : Inventory.resumable sha256 work s.store mode with
      | some id =>
        obtain ⟨hforce, db, hdb, hpayload⟩ := resumable_eq_some hresume
        have hsource : db.payload.sourceAttemptId = mode.sourceAttemptId := by rw [hpayload]; rfl
        have hopen : s.Open id db := by
          refine ⟨hdb, ?_⟩
          rcases hdecided with ⟨-, hnone⟩ | rfl | ⟨pointer, hpointer, rfl⟩
          · simp [h.unpointed hnone]
          · simp [Mode.forceNew] at hforce
          · -- a committed attempt was never carried forward from the newest one
            intro hid
            exact h.newest pointer hpointer id hid db hdb hsource
        exact h.setPhase (phaseOk_opened h hopen hsource)
      | none =>
        simp only
        split_ifs with hthere
        · exact h
        · have hdb : (s.attempt (newAttemptId random)).database = none := by simpa using hthere
          have hid : newAttemptId random ∉ s.committed := by
            intro hmem
            obtain ⟨db, hfinal⟩ := h.committed _ hmem
            rw [hfinal.database] at hdb
            simp at hdb
          have hblank := h.blank _ hdb
          refine h.put hid rfl ?_ ⟨.create (work.metadata sha256 mode (newAttemptId random)),
            ⟨by simp, hid⟩, rfl⟩
          refine AttemptOk.put hid (newAttemptId_ne_empty random) (Holds.create _) ?_ ?_ ?_
          · intro prior hprior
            refine ⟨?_, by simp⟩
            rcases hdecided with ⟨rfl, -⟩ | rfl | ⟨pointer, hpointer, rfl⟩
            · simp [ProgressDatabase.create, ChunkWork.metadata, progressMetadata,
                Mode.sourceAttemptId] at hprior
            · simp [ProgressDatabase.create, ChunkWork.metadata, progressMetadata,
                Mode.sourceAttemptId] at hprior
            · obtain rfl := Option.some.inj hprior
              exact h.pointed pointer hpointer
          · simpa [hblank, Attempt.empty] using StagedOk.written
          · simpa [hblank, Attempt.empty] using StagedOk.written

theorem Resumable.importAccession (h : Resumable engine sha256 work s) (hopen : s.Open id db)
    {x : Recorded} {rows : Table Cell} (hrows : rows.Perm x.entryRows) {db' : ProgressDatabase}
    (himport : db.importAccession x.row rows = .ok db')
    (hsource : ∀ prior, db.payload.sourceAttemptId = some prior → ∀ y ∈ s.journal prior,
      isRetryable y.row = false → y.accession = x.accession → y ∈ s.journal id ++ [x]) :
    AttemptOk engine (s.put id { s.attempt id with database := some db' } (s.journal id ++ [x])) id db' ∧
      db'.payload = db.payload := by
  have hok := h.attempts id db hopen.database
  obtain ⟨hholds, hpayload⟩ := hok.holds.importAccession hrows himport
  refine ⟨AttemptOk.put hopen.uncommitted hok.named hholds ?_ ?_ ?_, hpayload⟩
  · intro prior hprior
    rw [hpayload] at hprior
    refine ⟨hok.source prior hprior, ?_⟩
    intro y hy hkeep hmem
    rw [List.map_append, List.mem_append] at hmem
    rcases hmem with hold | hnew
    · exact List.mem_append_left _ (hok.carried prior hprior y hy hkeep hold)
    · exact hsource prior hprior y hy hkeep (by simpa using hnew)
  · apply hok.outcomes.mono
    intro hnil
    have hperm := hholds.perm_exportOutcomes engine.toChoice
    rw [hnil] at hperm
    simpa using hperm.length_eq
  · apply hok.entries.mono
    intro hnil
    have hperm := hholds.perm_exportEntries engine.toChoice
    rw [hnil] at hperm
    have hempty := hperm.symm.eq_nil
    rw [List.flatMap_append, List.append_eq_nil_iff] at hempty
    have hbefore := hok.holds.perm_exportEntries engine.toChoice
    rw [hempty.1] at hbefore
    exact hbefore.eq_nil

theorem Resumable.seed (h : Resumable engine sha256 work s) {prior : String} {outcome : Row Cell}
    {rest : Table Cell} (hphase : s.phase = .seeding id prior (outcome :: rest)) :
    Resumable engine sha256 work (s.seed engine id prior outcome rest) := by
  have hreached := h.phase
  unfold PhaseOk at hreached
  rw [hphase] at hreached
  obtain ⟨db, hopen, hsource, hrows, hseeding⟩ := hreached
  have hok := h.attempts id db hopen.database
  have hprior := hok.source prior hsource
  have hne : prior ≠ id := fun heq => hopen.uncommitted (heq ▸ hprior)
  obtain ⟨entries, hread, hcarried⟩ := h.readEntries hprior
  obtain ⟨x, hx, rfl⟩ := hrows outcome List.mem_cons_self
  obtain ⟨priorDb, hfinal⟩ := h.committed prior hprior
  have hnodup := (h.attempts prior priorDb hfinal.database).holds.nodup
  have hsame : ∀ y ∈ s.journal prior, y.accession = x.accession → y = x := fun y hy heq =>
    List.inj_on_of_nodup_map hnodup hy hx heq
  have hrest : ∀ row ∈ rest, ∃ y ∈ s.journal prior, row = y.row := fun row hrow =>
    hrows row (List.mem_cons_of_mem _ hrow)
  -- what the attempt must hold after this turn
  have hnext : ∀ items : List Recorded, (∀ y ∈ s.journal id, y ∈ items) →
      (isRetryable x.row = false → x ∈ items) →
      ∀ y ∈ s.journal prior, isRetryable y.row = false → y ∈ items ∨ y.row ∈ rest := by
    intro items hold hnew y hy hkeep
    rcases hseeding y hy hkeep with hthere | hmem
    · exact Or.inl (hold y hthere)
    · rcases List.mem_cons.mp hmem with heq | hmem
      · have hacc : y.accession = x.accession := by
          rw [← Recorded.outcomeAccession_row, heq, Recorded.outcomeAccession_row]
        have hyx := hsame y hy hacc
        exact Or.inl (hyx ▸ hnew (hyx ▸ hkeep))
      · exact Or.inr hmem
  unfold ChunkState.seed
  simp only [hopen.database, hread, ProgressDatabase.seedCarry, Recorded.outcomeAccession_row]
  by_cases hretry : isRetryable x.row = true
  · -- the outcome is to be fetched again
    have hreached := hnext (s.journal id) (fun _ hy => hy) (by simp [hretry])
    simp only [hretry, if_true, true_or, List.append_nil]
    refine h.put hopen.uncommitted rfl ?_ ⟨db, ⟨by simp, hopen.uncommitted⟩, hsource,
      by simpa [hne] using hrest, by simpa [hne] using hreached⟩
    exact AttemptOk.files hopen.uncommitted hok hok.outcomes hok.entries
  · have hkeep : isRetryable x.row = false := by simpa using hretry
    by_cases hdone : db.hasCompleted x.accession = true
    · -- an earlier call has carried it
      have hmem : x ∈ s.journal id := by
        apply hok.carried prior hsource x hx hkeep
        rw [← hok.holds.completed]
        simpa [ProgressDatabase.hasCompleted] using hdone
      have hreached := hnext (s.journal id) (fun _ hy => hy) (fun _ => hmem)
      simp only [hkeep, hdone, if_true, or_true, List.append_nil, Bool.false_eq_true, if_false]
      refine h.put hopen.uncommitted rfl ?_ ⟨db, ⟨by simp, hopen.uncommitted⟩, hsource,
        by simpa [hne] using hrest, by simpa [hne] using hreached⟩
      exact AttemptOk.files hopen.uncommitted hok hok.outcomes hok.entries
    · have hreached := hnext (s.journal id ++ [x]) (fun y hy => List.mem_append_left _ hy)
        (fun _ => by simp)
      simp only [hkeep, hdone, if_false, or_self, Bool.false_eq_true,
        filter_key_eq_singleton hnodup hx]
      cases himport : db.importAccession x.row
          (ProgressDatabase.carriedEntries engine.toChoice entries.rows x.accession) with
      | error e => exact h.idle
      | ok db' =>
        obtain ⟨hok', hpayload⟩ := h.importAccession hopen (hcarried x hx) himport (by
          intro prior' hprior' y hy _ hacc
          obtain rfl := Option.some.inj (hprior'.symm.trans hsource)
          simp [hsame y hy hacc])
        exact h.put hopen.uncommitted rfl hok' ⟨db', ⟨by simp, hopen.uncommitted⟩,
          hpayload ▸ hsource, by simpa [hne] using hrest, by simpa [hne] using hreached⟩

theorem Resumable.recordResult (h : Resumable engine sha256 work s) {r : TypedResult}
    (hstep : s.recordResult work r = some t) : Resumable engine sha256 work t := by
  unfold ChunkState.recordResult at hstep
  cases hphase : s.phase with
  | recording id pending =>
    have hreached := h.phase
    unfold PhaseOk at hreached
    rw [hphase] at hreached
    obtain ⟨db, hopen, hseeded⟩ := hreached
    simp only [hphase, hopen.database] at hstep
    cases hurl : urlIndex work.members r.result.accession with
    | none => simp [hurl] at hstep
    | some indexUrl =>
      simp only [hurl] at hstep
      split_ifs at hstep
      cases hrecord : db.record r.result indexUrl with
      | error e =>
        simp only [hrecord, Option.some.injEq] at hstep
        exact hstep ▸ h.idle
      | ok db' =>
        simp only [hrecord, Option.some.injEq] at hstep
        have hok := h.attempts id db hopen.database
        obtain ⟨hok', hpayload⟩ := h.importAccession (x := ⟨r, indexUrl⟩) hopen (List.Perm.refl _)
          hrecord fun prior hprior y hy hkeep _ =>
            List.mem_append_left _ (hseeded prior hprior y hy hkeep)
        have hseeded' : (s.put id { s.attempt id with database := some db' }
            (s.journal id ++ [⟨r, indexUrl⟩])).Seeded id db := by
          apply Seeded.put hopen.uncommitted hok.source
          intro prior hprior y hy hkeep
          exact List.mem_append_left _ (hseeded prior hprior y hy hkeep)
        subst hstep
        refine h.put hopen.uncommitted rfl hok' ⟨db', ⟨by simp, hopen.uncommitted⟩, ?_⟩
        intro prior hprior
        exact hseeded' prior (hpayload ▸ hprior)
  | _ => simp [hphase] at hstep

theorem Resumable.files (h : Resumable engine sha256 work s) (hopen : s.Open id db)
    (hseeded : s.Seeded id db) {a : Attempt} {phase : Phase} (hdb : a.database = some db)
    (houtcomes : StagedOk engine outcomeSchema (db.exportOutcomes engine.toChoice) a.outcomes)
    (hentries : StagedOk engine entrySchema (db.exportEntries engine.toChoice) a.entries)
    (hphase : ∀ t, t = (s.put id a (s.journal id)).setPhase phase → t.Open id db → t.Seeded id db →
      t.attempt id = a → PhaseOk engine sha256 work t) :
    Resumable engine sha256 work ((s.put id a (s.journal id)).setPhase phase) := by
  have hok := h.attempts id db hopen.database
  have hseeded' : (s.put id a (s.journal id)).Seeded id db :=
    Seeded.put hopen.uncommitted hok.source hseeded
  refine h.put hopen.uncommitted hdb (AttemptOk.files hopen.uncommitted hok houtcomes hentries) ?_
  exact hphase _ rfl ⟨by simpa using hdb, hopen.uncommitted⟩ hseeded' (by simp)

theorem Resumable.exportTo (h : Resumable engine sha256 work s) (hphase : s.phase = .exporting id) :
    Resumable engine sha256 work (s.exportTo engine id) := by
  have hreached := h.phase
  unfold PhaseOk at hreached
  rw [hphase] at hreached
  obtain ⟨db, hopen, hseeded⟩ := hreached
  have hok := h.attempts id db hopen.database
  unfold ChunkState.exportTo
  simp only [hopen.database]
  cases hcommit : commitStaged engine outcomeSchema (db.exportOutcomes engine.toChoice)
      (s.attempt id).outcomes with
  | error e => exact h.idle
  | ok file =>
    have hfile := commitStaged_final hok.outcomes hcommit
    refine h.files hopen hseeded rfl (hfile ▸ StagedOk.written) hok.entries ?_
    rintro t rfl hopen' hseeded' hattempt
    refine ⟨db, hopen', hseeded', ?_⟩
    rw [OutcomesWritten, hattempt, hfile]

theorem Resumable.exportEntriesTo (h : Resumable engine sha256 work s)
    (hphase : s.phase = .exportingEntries id) :
    Resumable engine sha256 work (s.exportEntriesTo engine id) := by
  have hreached := h.phase
  unfold PhaseOk at hreached
  rw [hphase] at hreached
  obtain ⟨db, hopen, hseeded, hwritten⟩ := hreached
  have hok := h.attempts id db hopen.database
  unfold ChunkState.exportEntriesTo
  simp only [hopen.database]
  cases hcommit : commitStaged engine entrySchema (db.exportEntries engine.toChoice)
      (s.attempt id).entries with
  | error e => exact h.idle
  | ok file =>
    have hfile := commitStaged_final hok.entries hcommit
    refine h.files hopen hseeded rfl hok.outcomes (hfile ▸ StagedOk.written) ?_
    rintro t rfl hopen' hseeded' hattempt
    refine ⟨db, hopen', hseeded', ?_, ?_⟩
    · rw [OutcomesWritten, hattempt]
      exact hwritten
    · rw [EntriesWritten, hattempt, hfile]

theorem Resumable.finalize (h : Resumable engine sha256 work s) (now : String)
    (hphase : s.phase = .finalizing id) :
    Resumable engine sha256 work (s.finalize engine sha256 work id now) := by
  have hreached := h.phase
  unfold PhaseOk at hreached
  rw [hphase] at hreached
  obtain ⟨db, hopen, hseeded, houtcomes, hentries⟩ := hreached
  have hok := h.attempts id db hopen.database
  unfold ChunkState.finalize
  cases hfinal : finalizeAttempt engine sha256 work.chunkDir (work.identity sha256).chunkId id
      (accessions work.members) work.run now (s.attempt id) with
  | error e => exact h.idle
  | ok manifest =>
    refine h.files hopen hseeded hopen.database hok.outcomes hok.entries ?_
    rintro t rfl hopen' hseeded' hattempt
    refine ⟨db, hopen', hopen'.database, hseeded', ?_, ?_, now, manifest, ?_, ?_⟩
    · rw [OutcomesWritten, hattempt]
      exact houtcomes
    · rw [EntriesWritten, hattempt]
      exact hentries
    · rw [hattempt]
      exact hfinal
    · rw [hattempt]

theorem Resumable.advancePointer (h : Resumable engine sha256 work s) {pointer : ChunkPointer}
    (hphase : s.phase = .pointing pointer.attemptId) :
    Resumable engine sha256 work ((s.advancePointer pointer).setPhase .idle) := by
  have hreached := h.phase
  unfold PhaseOk at hreached
  rw [hphase] at hreached
  obtain ⟨db, hopen, hfinal⟩ := hreached
  have hsame : ∀ id, Agrees s ((s.advancePointer pointer).setPhase .idle) id := fun id =>
    ⟨rfl, rfl, fun _ _ => rfl, fun _ hmem => List.mem_append_left _ hmem⟩
  have hsource : ∀ id db, (s.attempt id).database = some db →
      db.payload.sourceAttemptId ≠ some pointer.attemptId := by
    intro id db hdb heq
    exact hopen.uncommitted ((h.attempts id db hdb).source _ heq)
  refine ⟨h.blank, ?_, ?_, ?_, ?_, ?_, trivial⟩
  · intro id db hdb
    exact (h.attempts id db hdb).congr (hsame id)
  · intro id hid
    rcases List.mem_append.mp hid with hold | hnew
    · obtain ⟨db, hfinal⟩ := h.committed id hold
      exact ⟨db, hfinal.congr (h.attempts id db hfinal.database) (hsame id)⟩
    · obtain rfl := List.mem_singleton.mp hnew
      exact ⟨db, hfinal.congr (h.attempts _ db hfinal.database) (hsame _)⟩
  · intro hnone
    simp [ChunkState.advancePointer, ChunkState.setPhase] at hnone
  · intro pointer' hpointer
    obtain rfl := Option.some.inj hpointer
    exact List.mem_append_right _ (List.mem_singleton_self _)
  · intro pointer' hpointer id _ db hdb
    obtain rfl := Option.some.inj hpointer
    exact hsource id db hdb

theorem Resumable.setProgressPointer (h : Resumable engine sha256 work s) (pointer : ProgressPointer)
    (hphase : PhaseOk engine sha256 work (s.setProgressPointer pointer)) :
    Resumable engine sha256 work (s.setProgressPointer pointer) where
  blank := h.blank
  attempts id db hdb := (h.attempts id db hdb).congr ⟨rfl, rfl, fun _ _ => rfl, fun _ hmem => hmem⟩
  committed id hid := by
    obtain ⟨db, hfinal⟩ := h.committed id hid
    exact ⟨db, hfinal.congr (h.attempts id db hfinal.database)
      ⟨rfl, rfl, fun _ _ => rfl, fun _ hmem => hmem⟩⟩
  unpointed := h.unpointed
  pointed := h.pointed
  newest := h.newest
  phase := hphase

theorem Resumable.advance (h : Resumable engine sha256 work s) {now : String}
    (hstep : s.advance engine sha256 work now = some t) : Resumable engine sha256 work t := by
  have hreached := h.phase
  unfold PhaseOk at hreached
  unfold ChunkState.advance at hstep
  cases hphase : s.phase with
  | idle => simp [hphase] at hstep
  | created mode id =>
    simp only [hphase, Option.some.injEq] at hstep hreached
    obtain ⟨db, hopen, hsource⟩ := hreached
    have hpointed : Resumable engine sha256 work
        (s.setProgressPointer ⟨(work.identity sha256).chunkId, id⟩) := by
      apply h.setProgressPointer
      unfold PhaseOk
      rw [show (s.setProgressPointer ⟨(work.identity sha256).chunkId, id⟩).phase = _ from hphase]
      exact ⟨db, ⟨hopen.database, hopen.uncommitted⟩, hsource⟩
    exact hstep ▸ hpointed.setPhase (phaseOk_opened hpointed ⟨hopen.database, hopen.uncommitted⟩ hsource)
  | seeding id prior rest =>
    cases rest with
    | nil =>
      simp only [hphase, Option.some.injEq] at hstep hreached
      obtain ⟨db, hopen, hsource, -, hseeding⟩ := hreached
      refine hstep ▸ h.setPhase (phaseOk_fetch hopen ?_)
      intro prior' hprior' x hx hkeep
      obtain rfl := Option.some.inj (hprior'.symm.trans hsource)
      simpa using hseeding x hx hkeep
    | cons outcome rest =>
      simp only [hphase, Option.some.injEq] at hstep
      exact hstep ▸ h.seed hphase
  | recording id pending =>
    simp only [hphase] at hstep hreached
    split at hstep
    · obtain rfl := Option.some.inj hstep
      exact h.setPhase (by
        obtain ⟨db, hopen, hseeded⟩ := hreached
        exact ⟨db, ⟨hopen.database, hopen.uncommitted⟩, hseeded⟩)
    · obtain rfl := Option.some.inj hstep
      exact h.idle
  | exporting id =>
    simp only [hphase, Option.some.injEq] at hstep
    exact hstep ▸ h.exportTo hphase
  | exportingEntries id =>
    simp only [hphase, Option.some.injEq] at hstep
    exact hstep ▸ h.exportEntriesTo hphase
  | finalizing id =>
    simp only [hphase, Option.some.injEq] at hstep
    exact hstep ▸ h.finalize now hphase
  | pointing id =>
    simp only [hphase, Option.some.injEq] at hstep
    exact hstep ▸ h.advancePointer hphase

theorem Resumable.crash (h : Resumable engine sha256 work s) (outcomes entries : Leftover) :
    Resumable engine sha256 work (s.crash engine outcomes entries) := by
  have hreached := h.phase
  unfold PhaseOk at hreached
  unfold ChunkState.crash
  cases hphase : s.phase with
  | exporting id =>
    rw [hphase] at hreached
    obtain ⟨db, hopen, hseeded⟩ := hreached
    have hok := h.attempts id db hopen.database
    simp only [hopen.database]
    refine h.files hopen hseeded rfl (hok.outcomes.leave _) (hok.entries.leave _) ?_
    rintro t rfl _ _ _
    trivial
  | exportingEntries id =>
    rw [hphase] at hreached
    obtain ⟨db, hopen, hseeded, -⟩ := hreached
    have hok := h.attempts id db hopen.database
    simp only [hopen.database]
    refine h.files hopen hseeded rfl hok.outcomes (hok.entries.leave _) ?_
    rintro t rfl _ _ _
    trivial
  | _ => exact h.idle

theorem Resumable.step (h : Resumable engine sha256 work s) {event : Event}
    (hstep : s.step engine sha256 work event = some t) : Resumable engine sha256 work t := by
  cases event with
  | call retryFailures random =>
    simp only [ChunkState.step] at hstep
    split_ifs at hstep
    obtain rfl := Option.some.inj hstep
    exact h.call retryFailures random
  | advance now => exact h.advance hstep
  | result r => exact h.recordResult hstep
  | crash outcomes entries =>
    obtain rfl := Option.some.inj hstep
    exact h.crash outcomes entries

theorem resumable_run {events : List Event}
    (hrun : run (ChunkState.step engine sha256 work) .start events = some t) :
    Resumable engine sha256 work t :=
  run_preserves (fun _ _ _ h hstep => Resumable.step h hstep) resumable_start hrun

/-! ## Where a journal comes from -/

/-- The journals of `t` have nothing that those of `s` do not have. -/
def Keeps (s t : ChunkState) : Prop := ∀ id, ∀ x ∈ t.journal id, ∃ id', x ∈ s.journal id'

theorem Keeps.refl (s : ChunkState) : Keeps s s := fun id _ hx => ⟨id, hx⟩

theorem Keeps.put {a : Attempt} {items : List Recorded} {phase : Phase}
    (hitems : ∀ x ∈ items, ∃ id', x ∈ s.journal id') :
    Keeps s ((s.put id a items).setPhase phase) := by
  intro id' x hx
  simp only [journal_setPhase, journal_put] at hx
  split_ifs at hx
  · exact hitems x hx
  · exact ⟨id', hx⟩

theorem keeps_call (retryFailures : Bool) (random : List.Vector UInt8 8) :
    Keeps s (s.call engine sha256 work retryFailures random) := by
  unfold ChunkState.call
  cases decideChunk engine sha256 work s.store retryFailures with
  | error e => exact Keeps.refl s
  | ok decided =>
    cases decided with
    | none => exact Keeps.refl s
    | some mode =>
      simp only
      cases Inventory.resumable sha256 work s.store mode with
      | some attemptId => exact Keeps.refl s
      | none =>
        simp only
        split_ifs
        · exact Keeps.refl s
        · exact Keeps.put (by simp)

theorem keeps_seed (attemptId prior : String) (outcome : Row Cell) (rest : Table Cell) :
    Keeps s (s.seed engine attemptId prior outcome rest) := by
  unfold ChunkState.seed
  split
  · split
    · exact Keeps.refl s
    · apply Keeps.put
      intro x hx
      rcases List.mem_append.mp hx with hold | hcarried
      · exact ⟨attemptId, hold⟩
      · split_ifs at hcarried
        · simp at hcarried
        · exact ⟨prior, (List.mem_filter.mp hcarried).1⟩
  · exact Keeps.refl s

theorem keeps_exportTo (attemptId : String) : Keeps s (s.exportTo engine attemptId) := by
  unfold ChunkState.exportTo
  split
  · exact Keeps.refl s
  · split
    · exact Keeps.refl s
    · exact Keeps.put fun x hx => ⟨attemptId, hx⟩

theorem keeps_exportEntriesTo (attemptId : String) : Keeps s (s.exportEntriesTo engine attemptId) := by
  unfold ChunkState.exportEntriesTo
  split
  · exact Keeps.refl s
  · split
    · exact Keeps.refl s
    · exact Keeps.put fun x hx => ⟨attemptId, hx⟩

theorem keeps_finalize (attemptId now : String) :
    Keeps s (s.finalize engine sha256 work attemptId now) := by
  unfold ChunkState.finalize
  split
  · exact Keeps.refl s
  · exact Keeps.put fun x hx => ⟨attemptId, hx⟩

theorem keeps_advance {now : String} (hstep : s.advance engine sha256 work now = some t) : Keeps s t := by
  unfold ChunkState.advance at hstep
  split at hstep
  · simp at hstep
  · exact Option.some.inj hstep ▸ Keeps.refl s
  · exact Option.some.inj hstep ▸ Keeps.refl s
  · exact Option.some.inj hstep ▸ keeps_seed _ _ _ _
  · split at hstep <;> exact Option.some.inj hstep ▸ Keeps.refl s
  · exact Option.some.inj hstep ▸ keeps_exportTo _
  · exact Option.some.inj hstep ▸ keeps_exportEntriesTo _
  · exact Option.some.inj hstep ▸ keeps_finalize _ _
  · exact Option.some.inj hstep ▸ Keeps.refl s

theorem keeps_crash (outcomes entries : Leftover) : Keeps s (s.crash engine outcomes entries) := by
  unfold ChunkState.crash
  split
  · split
    · exact Keeps.refl s
    · exact Keeps.put fun x hx => ⟨_, hx⟩
  · split
    · exact Keeps.refl s
    · exact Keeps.put fun x hx => ⟨_, hx⟩
  · exact Keeps.refl s

theorem mem_journal_recordResult {r : TypedResult} (hstep : s.recordResult work r = some t)
    {x : Recorded} (hx : x ∈ t.journal id) : (∃ id', x ∈ s.journal id') ∨
      (x.result = r ∧ urlIndex work.members r.result.accession = some x.indexUrl) := by
  unfold ChunkState.recordResult at hstep
  split at hstep
  · split at hstep
    · rename_i indexUrl _ hurl
      split_ifs at hstep
      split at hstep
      · obtain rfl := Option.some.inj hstep
        exact Or.inl ⟨id, hx⟩
      · obtain rfl := Option.some.inj hstep
        simp only [journal_setPhase, journal_put] at hx
        split_ifs at hx
        · rcases List.mem_append.mp hx with hold | hnew
          · exact Or.inl ⟨_, hold⟩
          · obtain rfl := List.mem_singleton.mp hnew
            exact Or.inr ⟨rfl, hurl⟩
        · exact Or.inl ⟨id, hx⟩
    · simp at hstep
  · simp at hstep

theorem journal_of_run {events : List Event}
    (hrun : run (ChunkState.step engine sha256 work) .start events = some t) :
    ∀ id, ∀ x ∈ t.journal id, Event.result x.result ∈ events ∧
      urlIndex work.members x.result.result.accession = some x.indexUrl := by
  refine run_history (P := fun events t => ∀ id, ∀ x ∈ t.journal id,
    Event.result x.result ∈ events ∧
      urlIndex work.members x.result.result.accession = some x.indexUrl) (by simp [start]) ?_ hrun
  intro events s event t hold hstep id x hx
  have hkept : Keeps s t → Event.result x.result ∈ events ++ [event] ∧
      urlIndex work.members x.result.result.accession = some x.indexUrl := by
    intro hkeeps
    obtain ⟨id', hx'⟩ := hkeeps id x hx
    obtain ⟨hmem, hurl⟩ := hold id' x hx'
    exact ⟨List.mem_append_left _ hmem, hurl⟩
  cases event with
  | call retryFailures random =>
    simp only [ChunkState.step] at hstep
    split_ifs at hstep
    exact hkept (Option.some.inj hstep ▸ keeps_call retryFailures random)
  | advance now => exact hkept (keeps_advance hstep)
  | crash outcomes entries => exact hkept (Option.some.inj hstep ▸ keeps_crash outcomes entries)
  | result r =>
    rcases mem_journal_recordResult hstep hx with ⟨id', hx'⟩ | ⟨rfl, hurl⟩
    · obtain ⟨hmem, hurl⟩ := hold id' x hx'
      exact ⟨List.mem_append_left _ hmem, hurl⟩
    · exact ⟨List.mem_append_right _ (List.mem_singleton_self _), hurl⟩

/-! ## Committed attempts -/

def outcomeTable (engine : Engine Cell) (s : ChunkState) (id : String) : Table Cell :=
  match readParquet engine (s.attempt id).outcomes with
  | .ok outcomes => outcomes.rows
  | .error _ => []

def entryTable (engine : Engine Cell) (s : ChunkState) (id : String) : Table Cell :=
  match readParquet engine (s.attempt id).entries with
  | .ok entries => entries.rows
  | .error _ => []

def sourceOf (s : ChunkState) (id : String) : Option String :=
  (s.attempt id).database.bind fun db => db.payload.sourceAttemptId

structure Lossless (engine : Engine Cell) (work : ChunkWork) (s : ChunkState) (id : String) : Prop where
  once : ∀ item ∈ work.members,
    ((outcomeTable engine s id).filter (outcomeAccession · = text item.accession)).length = 1
  members : ∀ row ∈ outcomeTable engine s id, ∃ item ∈ work.members,
    outcomeAccession row = text item.accession
  outcomes : (outcomeTable engine s id).Perm ((s.journal id).map Recorded.row)
  entries : (entryTable engine s id).Perm ((s.journal id).flatMap Recorded.entryRows)
  carried : ∀ prior, s.sourceOf id = some prior → prior ∈ s.committed ∧
    ∀ row ∈ outcomeTable engine s prior, isRetryable row = false → row ∈ outcomeTable engine s id ∧
      ((entryTable engine s id).filter (entryAccession · = outcomeAccession row)).Perm
        ((entryTable engine s prior).filter (entryAccession · = outcomeAccession row))

theorem Finalized.tables (h : Finalized engine sha256 work s id db) (hok : AttemptOk engine s id db) :
    outcomeTable engine s id = db.exportOutcomes engine.toChoice ∧
      entryTable engine s id = db.exportEntries engine.toChoice := by
  have houtcomes := readParquet_writeTable (hok.holds.fits_exportOutcomes engine.toChoice) h.outcomes
  have hentries := readParquet_writeTable (hok.holds.fits_exportEntries engine.toChoice) h.entries
  simp [outcomeTable, entryTable, houtcomes, hentries]

theorem Resumable.tables (h : Resumable engine sha256 work s) (hid : id ∈ s.committed) :
    (outcomeTable engine s id).Perm ((s.journal id).map Recorded.row) ∧
      (entryTable engine s id).Perm ((s.journal id).flatMap Recorded.entryRows) ∧
      ((s.journal id).map Recorded.accession).Nodup := by
  obtain ⟨db, hfinal⟩ := h.committed id hid
  have hok := h.attempts id db hfinal.database
  obtain ⟨houtcomes, hentries⟩ := hfinal.tables hok
  exact ⟨houtcomes ▸ hok.holds.perm_exportOutcomes engine.toChoice,
    hentries ▸ hok.holds.perm_exportEntries engine.toChoice, hok.holds.nodup⟩

theorem Finalized.membership (h : Finalized engine sha256 work s id db) :
    ((outcomeTable engine s id).map outcomeAccession).Nodup ∧
      ∀ a, a ∈ (outcomeTable engine s id).map outcomeAccession ↔
        a ∈ (accessions work.members).map text := by
  obtain ⟨now, manifest, hfinal, -⟩ := h.manifest
  obtain ⟨outcomes, entries, houtcomes, -, -, -, hmembers, -⟩ := finalizeAttempt_eq_ok.mp hfinal
  obtain ⟨hnodup, ⟨hin, hall⟩, -⟩ := validateMembership_eq_ok.mp hmembers
  have htable : outcomeTable engine s id = outcomes.rows := by simp [outcomeTable, houtcomes]
  have hsorted : ∀ a, a ∈ ((accessions work.members).insertionSort (· ≤ ·)).map text ↔
      a ∈ (accessions work.members).map text := fun a =>
    ((List.perm_insertionSort (· ≤ ·) (accessions work.members)).map text).mem_iff
  rw [htable]
  exact ⟨hnodup, fun a => ⟨fun ha => (hsorted a).mp (hin a ha), fun ha => hall a ((hsorted a).mpr ha)⟩⟩

theorem length_filter_of_nodup {rows : Table Cell} {a : Option Cell}
    (hnodup : (rows.map outcomeAccession).Nodup) (ha : a ∈ rows.map outcomeAccession) :
    (rows.filter (outcomeAccession · = a)).length = 1 := by
  have hcount := List.count_eq_one_of_mem hnodup ha
  rw [← List.countP_eq_length_filter, ← hcount, List.count, List.countP_map]
  apply List.countP_congr
  intro row _
  simp

theorem Resumable.lossless (h : Resumable engine sha256 work s) (hid : id ∈ s.committed) :
    Lossless engine work s id := by
  obtain ⟨db, hfinal⟩ := h.committed id hid
  have hok := h.attempts id db hfinal.database
  obtain ⟨hnodup, hmembers⟩ := hfinal.membership
  obtain ⟨houtcomes, hentries, hdistinct⟩ := h.tables hid
  refine ⟨?_, ?_, houtcomes, hentries, ?_⟩
  · intro item hitem
    apply length_filter_of_nodup hnodup
    exact (hmembers _).mpr (List.mem_map_of_mem (List.mem_map_of_mem hitem))
  · intro row hrow
    have hmem := (hmembers _).mp (List.mem_map_of_mem hrow)
    obtain ⟨accession, haccession, heq⟩ := List.mem_map.mp hmem
    obtain ⟨item, hitem, rfl⟩ := List.mem_map.mp haccession
    exact ⟨item, hitem, heq.symm⟩
  · intro prior hsource
    have hsource' : db.payload.sourceAttemptId = some prior := by
      simpa [sourceOf, hfinal.database] using hsource
    have hprior := hok.source prior hsource'
    refine ⟨hprior, ?_⟩
    intro row hrow hkeep
    obtain ⟨hpriorOutcomes, hpriorEntries, hpriorDistinct⟩ := h.tables hprior
    obtain ⟨x, hx, rfl⟩ := List.mem_map.mp (hpriorOutcomes.mem_iff.mp hrow)
    have hmem := hfinal.seeded prior hsource' x hx hkeep
    have hhere := hentries.filter (entryAccession · = x.accession)
    have hthere := hpriorEntries.filter (entryAccession · = x.accession)
    rw [Recorded.filter_entryRows hdistinct hmem] at hhere
    rw [Recorded.filter_entryRows hpriorDistinct hx] at hthere
    rw [Recorded.outcomeAccession_row]
    exact ⟨houtcomes.mem_iff.mpr (List.mem_map_of_mem hmem), hhere.trans hthere.symm⟩

theorem Resumable.accepted (h : Resumable engine sha256 work s) (hid : id ∈ s.committed)
    {store : ChunkStore} {pointer : ChunkPointer} (hattempts : store.attempts = s.store.attempts)
    (hpointer : store.chunkPointer = some pointer) (hnames : pointer.attemptId = id) :
    (validateCommittedChunk engine sha256 store work.run (work.identity sha256)).valid = true := by
  obtain ⟨db, hfinal⟩ := h.committed id hid
  have hok := h.attempts id db hfinal.database
  obtain ⟨now, manifest, hwritten, hmanifest⟩ := hfinal.manifest
  have hwritten' : finalizeAttempt engine sha256 work.chunkDir (work.identity sha256).chunkId id
      (accessions work.members) work.run now (store.attempts id) = .ok manifest := by
    rw [hattempts]
    exact hwritten
  have hvalid := validateCommittedChunk_of_finalize hok.named hpointer hnames hwritten'
    (by rw [hattempts]; exact hmanifest)
  exact congrArg ChunkValidation.valid hvalid

end ChunkState

/-- Every run of a chunk, from the empty directory: calls with and without a retry, results in
any order, crashes between any two writes. -/
theorem chunk_resumes_without_loss {events : List Event}
    (hrun : run (ChunkState.step engine sha256 work) .start events = some t) :
    (∀ id ∈ t.committed, t.Lossless engine work id ∧
      (∀ x ∈ t.journal id, Event.result x.result ∈ events ∧
        urlIndex work.members x.result.result.accession = some x.indexUrl) ∧
      ∀ pointer : ChunkPointer, pointer.attemptId = id →
        (validateCommittedChunk engine sha256 { t.store with chunkPointer := some pointer } work.run
          (work.identity sha256)).valid = true) ∧
      ∀ pointer, t.store.chunkPointer = some pointer → pointer.attemptId ∈ t.committed ∧
        (validateCommittedChunk engine sha256 t.store work.run (work.identity sha256)).valid = true := by
  have hresumable := ChunkState.resumable_run hrun
  refine ⟨?_, ?_⟩
  · intro id hid
    refine ⟨hresumable.lossless hid, ChunkState.journal_of_run hrun id, ?_⟩
    intro pointer hnames
    exact hresumable.accepted hid rfl rfl hnames
  · intro pointer hpointer
    have hmem := hresumable.pointed pointer hpointer
    exact ⟨hmem, hresumable.accepted hmem rfl hpointer rfl⟩

def oneMember : ChunkWork where
  run := ⟨"run", "1", "p1"⟩
  chunkDir := "chunks"
  ordinal := 0
  members := [⟨"0001", "u"⟩]

def fetchFailed : TypedResult where
  result := .indexFetchFailure "0001" "timeout" .index
  own := by simp [WorkerResult.entries]

def parsedPage : TypedResult where
  result := .parsedIndexPage "0001" "u" "d" [] none none none ⟨[], 0⟩
  own := by simp [WorkerResult.entries]

def failAndRetry : List Event :=
  [.call false (.replicate 8 1), .advance "", .result fetchFailed, .advance "", .advance "",
    .crash .kept (.closed 0),
    .call false (.replicate 8 3), .advance "", .advance "", .advance "", .advance "", .advance "t1",
    .call true (.replicate 8 2), .advance "", .advance "", .advance "", .result parsedPage,
    .advance "", .advance "", .advance "", .advance "", .advance "t2"]

theorem chunk_resumes_after_crash_and_retry :
    ∃ t, run (ChunkState.step cellEngine sha256Hex oneMember) .start failAndRetry = some t ∧
      t.committed = ["0101010101010101", "0202020202020202"] ∧
      t.Lossless cellEngine oneMember "0202020202020202" := by
  have hdone : (run (ChunkState.step cellEngine sha256Hex oneMember) .start failAndRetry).map
      (·.committed) = some ["0101010101010101", "0202020202020202"] := by decide +kernel
  obtain ⟨t, hrun, hcommitted⟩ := Option.map_eq_some_iff.mp hdone
  obtain ⟨hlossless, -⟩ := chunk_resumes_without_loss hrun
  exact ⟨t, hrun, hcommitted, (hlossless _ (by simp [hcommitted])).1⟩

end EdgarSec.Inventory
