import EdgarSec.MetadataSync.ChunkDone

/-! Worker bundles of a metadata plan: their execution, their adoption, and the chunks the
coordinator finds complete afterwards. -/

namespace EdgarSec.MetadataSync
open Foundation Lib

variable {ρ : Type}

/-- A file below a bundle's `chunks` directory: the chunk file of an id, or another name. -/
inductive OutputName where
  | chunk (chunkId : Nat)
  | other (path : String)
  deriving DecidableEq

structure WorkerReceipt where
  workId : String
  workDigest : String
  workerId : String
  completedChunks : List Nat
  fileRecords : Dict OutputName String

structure ImportReport where
  workId : String
  workerId : String
  adoptedChunks : List Nat
  ignoredChunks : List Nat

/-- The `run_chunk` calls of `execute_worker`: no per-CIK fingerprints, nothing carried. -/
def workerCall (plan : Plan) : ChunkCall ρ where
  plan := plan
  snapshotId := none
  force := false
  fingerprints := none
  carryRows := .empty
  carryRows_keyed e he := by cases he

section Bundles
variable (fileSha256 : ParquetFile ρ → String) (workDigest : Plan → String)

/-- What `execute_worker` calls, over any number of executions of a fresh bundle, leave of one
chunk when the last of them returned. -/
def ExecutedChunk (plan : Plan) (chunkId : Nat) (file : ParquetFile ρ) : Prop :=
  ∃ actions s result, run (ChunkFiles.step fileSha256 chunkId) (.initial none) actions = some s ∧
    (∀ c ∈ actions.filterMap ChunkAction.call?, c = workerCall plan) ∧
    s.phase = .returned (workerCall plan) result ∧ s.file = some file

/-- An exported bundle after `execute_worker` returned its receipt. -/
structure Executed (plan : Plan) (workerId : String) (chunkIds : List Nat)
    (bundle : Dict OutputName (ParquetFile ρ)) (receipt : WorkerReceipt) : Prop where
  outputs : bundle.keys = chunkIds.map .chunk
  chunks : ∀ chunkId file, bundle.get? (.chunk chunkId) = some file →
    ExecutedChunk fileSha256 plan chunkId file
  receipt_eq : receipt = ⟨plan.planId, workDigest plan, workerId, chunkIds.dedup.mergeSort,
    bundle.mapValues fileSha256⟩

def filesByChunk (receipt : WorkerReceipt) : Except String (List (Nat × String)) :=
  receipt.fileRecords.items.mapM fun (name, sha256) =>
    match name with
    | .other path => .error ("unexpected metadata output file: " ++ path)
    | .chunk chunkId =>
      if chunkId ∈ receipt.completedChunks then .ok (chunkId, sha256)
      else .error ("metadata output is not in completed chunks: " ++ toString chunkId)

inductive Verdict (ρ : Type) where
  | ignored
  | pending (incoming : ParquetFile ρ)

def inspectPlanned (plan : Plan) (chunkId : Nat) (file : Option (ParquetFile ρ)) : Option ChunkInfo :=
  inspectChunk fileSha256 chunkId file (some (plan.chunkCiks chunkId)) (orNone plan.inputFingerprint) none

def judgeChunk (plan : Plan) (coordinator : Nat → Option (ParquetFile ρ))
    (bundle : Dict OutputName (ParquetFile ρ)) (chunkId : Nat) (expectedDigest : String) :
    Except String (Verdict ρ) :=
  match plan.requireChunk chunkId with
  | .error e => .error e
  | .ok () =>
    match bundle.get? (.chunk chunkId), inspectPlanned fileSha256 plan chunkId (bundle.get? (.chunk chunkId)) with
    | some incoming, some _ =>
      match coordinator chunkId with
      | none => .ok (.pending incoming)
      | some target =>
        match inspectPlanned fileSha256 plan chunkId (some target) with
        | some existing =>
          if existing.fileSha256 = expectedDigest then .ok .ignored
          else .error ("chunk " ++ toString chunkId ++ " already exists with different content")
        | none => .error ("chunk " ++ toString chunkId ++ " already exists with different content")
    | _, _ => .error ("chunk " ++ toString chunkId ++ " failed schema/row validation")

def judgeChunks (plan : Plan) (coordinator : Nat → Option (ParquetFile ρ))
    (bundle : Dict OutputName (ParquetFile ρ)) :
    List (Nat × String) → Except String (List (Nat × Verdict ρ))
  | [] => .ok []
  | (chunkId, digest) :: rest => do
    let verdict ← judgeChunk fileSha256 plan coordinator bundle chunkId digest
    let verdicts ← judgeChunks plan coordinator bundle rest
    .ok ((chunkId, verdict) :: verdicts)

def pendingFiles (verdicts : List (Nat × Verdict ρ)) : List (Nat × ParquetFile ρ) :=
  verdicts.filterMap fun
    | (chunkId, .pending incoming) => some (chunkId, incoming)
    | (_, .ignored) => none

def ignoredIds (verdicts : List (Nat × Verdict ρ)) : List Nat :=
  verdicts.filterMap fun
    | (_, .pending _) => none
    | (chunkId, .ignored) => some chunkId

def place (coordinator : Nat → Option (ParquetFile ρ)) (pending : List (Nat × ParquetFile ρ)) :
    Nat → Option (ParquetFile ρ) :=
  pending.foldl (fun files (chunkId, incoming) => Function.update files chunkId (some incoming)) coordinator

def adoptWorkerBundle (plan : Plan) (coordinator : Nat → Option (ParquetFile ρ))
    (bundle : Dict OutputName (ParquetFile ρ)) (receipt : WorkerReceipt) :
    Except String (ImportReport × (Nat → Option (ParquetFile ρ))) := do
  if receipt.workId ≠ plan.planId then
    .error "receipt does not belong to the resolved metadata plan"
  else if workDigest plan ≠ receipt.workDigest then .error "work digest does not match the resolved work"
  else
    let files ← filesByChunk receipt
    if (files.map Prod.fst).toFinset ≠ receipt.completedChunks.toFinset then
      .error "metadata receipt is missing a completed chunk file"
    else if bundle.keys.toFinset ≠ receipt.fileRecords.keys.toFinset then
      .error "metadata bundle has unreceipted or unexpected output files"
    else
      let verdicts ← judgeChunks fileSha256 plan coordinator bundle
        (files.mergeSort fun a b => decide (a.1 ≤ b.1))
      .ok (⟨plan.planId, receipt.workerId, ((pendingFiles verdicts).map Prod.fst).mergeSort,
        (ignoredIds verdicts).mergeSort⟩, place coordinator (pendingFiles verdicts))

variable {fileSha256} {workDigest} {plan : Plan} {coordinator : Nat → Option (ParquetFile ρ)}
  {bundle : Dict OutputName (ParquetFile ρ)} {chunkId : Nat}

theorem inspectPlanned_isSome (h : plan.requireChunk chunkId = .ok ()) {file : Option (ParquetFile ρ)} :
    (inspectPlanned fileSha256 plan chunkId file).isSome = true ↔
      ∃ rows, file = some (.table rows) ∧ (rows.map Row.cik).Perm (plan.chunkCiks chunkId) ∧
        ∀ row ∈ rows, fingerprintExpected (orNone plan.inputFingerprint) none row = true :=
  inspectChunk_eq_some_iff (plan.chunkCiks_nodup chunkId) (Plan.chunkCiks_ne_nil h)

theorem judgeChunk_ignored {digest : String}
    (h : judgeChunk fileSha256 plan coordinator bundle chunkId digest = .ok .ignored) :
    plan.requireChunk chunkId = .ok () ∧ (coordinator chunkId).isSome = true ∧
      (inspectPlanned fileSha256 plan chunkId (coordinator chunkId)).isSome = true := by
  unfold judgeChunk at h
  cases hplanned : plan.requireChunk chunkId with
  | error e => simp [hplanned] at h
  | ok u =>
    simp only [hplanned] at h
    split at h
    · cases htarget : coordinator chunkId with
      | none => simp [htarget] at h
      | some target =>
        cases hinspect : inspectPlanned fileSha256 plan chunkId (some target) with
        | none => simp [htarget, hinspect] at h
        | some existing => exact ⟨rfl, rfl, rfl⟩
    · cases h

theorem judgeChunk_pending {digest : String} {incoming : ParquetFile ρ}
    (h : judgeChunk fileSha256 plan coordinator bundle chunkId digest = .ok (.pending incoming)) :
    plan.requireChunk chunkId = .ok () ∧ coordinator chunkId = none ∧
      bundle.get? (.chunk chunkId) = some incoming ∧
      (inspectPlanned fileSha256 plan chunkId (some incoming)).isSome = true := by
  unfold judgeChunk at h
  cases hplanned : plan.requireChunk chunkId with
  | error e => simp [hplanned] at h
  | ok u =>
    simp only [hplanned] at h
    split at h
    · next incoming' info hget hinspect =>
      cases htarget : coordinator chunkId with
      | none =>
        simp only [htarget, Except.ok.injEq, Verdict.pending.injEq] at h
        subst h
        rw [hget] at hinspect
        exact ⟨rfl, rfl, hget, by rw [hinspect]; rfl⟩
      | some target =>
        simp only [htarget] at h
        split at h
        · split_ifs at h
          cases Except.ok.inj h
        · cases h
    · cases h

theorem mem_judgeChunks {files : List (Nat × String)} {verdicts : List (Nat × Verdict ρ)}
    (h : judgeChunks fileSha256 plan coordinator bundle files = .ok verdicts) {verdict : Verdict ρ}
    (hv : (chunkId, verdict) ∈ verdicts) :
    ∃ digest, judgeChunk fileSha256 plan coordinator bundle chunkId digest = .ok verdict := by
  induction files generalizing verdicts with
  | nil =>
    obtain rfl := Except.ok.inj h
    cases hv
  | cons file rest ih =>
    obtain ⟨id, digest⟩ := file
    simp only [judgeChunks] at h
    cases hfirst : judgeChunk fileSha256 plan coordinator bundle id digest with
    | error e => simp [hfirst, bind, Except.bind] at h
    | ok first =>
      cases hrest : judgeChunks fileSha256 plan coordinator bundle rest with
      | error e => simp [hfirst, hrest, bind, Except.bind] at h
      | ok others =>
        simp only [hfirst, hrest, bind, Except.bind, Except.ok.injEq] at h
        subst h
        rcases List.mem_cons.mp hv with heq | hv
        · obtain ⟨rfl, rfl⟩ := Prod.mk.inj heq
          exact ⟨digest, hfirst⟩
        · exact ih hrest hv

theorem place_of_not_mem {pending : List (Nat × ParquetFile ρ)} (h : chunkId ∉ pending.map Prod.fst) :
    place coordinator pending chunkId = coordinator chunkId := by
  induction pending generalizing coordinator with
  | nil => rfl
  | cons first rest ih =>
    simp only [List.map_cons, List.mem_cons, not_or] at h
    have hrest : place coordinator (first :: rest) chunkId =
        Function.update coordinator first.1 (some first.2) chunkId := ih h.2
    exact hrest.trans (Function.update_of_ne h.1 _ _)

theorem place_of_mem {pending : List (Nat × ParquetFile ρ)} {file : ParquetFile ρ}
    (hsame : ∀ f, (chunkId, f) ∈ pending → f = file)
    (h : chunkId ∈ pending.map Prod.fst ∨ coordinator chunkId = some file) :
    place coordinator pending chunkId = some file := by
  induction pending generalizing coordinator with
  | nil =>
    rcases h with h | h
    · cases h
    · exact h
  | cons first rest ih =>
    obtain ⟨id, f⟩ := first
    show place (Function.update coordinator id (some f)) rest chunkId = some file
    apply ih (fun g hg => hsame g (List.mem_cons_of_mem _ hg))
    by_cases hid : chunkId = id
    · subst hid
      have hf : f = file := hsame f List.mem_cons_self
      exact .inr (by rw [Function.update_self, hf])
    · rw [Function.update_of_ne hid]
      rcases h with h | h
      · rw [List.map_cons, List.mem_cons] at h
        exact .inl (h.resolve_left hid)
      · exact .inr h

structure Adoption (fileSha256 : ParquetFile ρ → String) (plan : Plan)
    (coordinator : Nat → Option (ParquetFile ρ)) (bundle : Dict OutputName (ParquetFile ρ))
    (report : ImportReport) (files : Nat → Option (ParquetFile ρ)) : Prop where
  adopted : ∀ chunkId ∈ report.adoptedChunks, plan.requireChunk chunkId = .ok () ∧
    ∃ incoming, bundle.get? (.chunk chunkId) = some incoming ∧ files chunkId = some incoming ∧
      (inspectPlanned fileSha256 plan chunkId (some incoming)).isSome = true
  ignored : ∀ chunkId ∈ report.ignoredChunks, plan.requireChunk chunkId = .ok () ∧
    files chunkId = coordinator chunkId ∧
      (inspectPlanned fileSha256 plan chunkId (coordinator chunkId)).isSome = true

theorem mem_pendingFiles {verdicts : List (Nat × Verdict ρ)} {incoming : ParquetFile ρ} :
    (chunkId, incoming) ∈ pendingFiles verdicts ↔ (chunkId, .pending incoming) ∈ verdicts := by
  unfold pendingFiles
  rw [List.mem_filterMap]
  constructor
  · rintro ⟨⟨id, verdict⟩, hv, heq⟩
    cases verdict with
    | ignored => cases heq
    | pending f =>
      obtain ⟨rfl, rfl⟩ := Prod.mk.inj (Option.some.inj heq)
      exact hv
  · exact fun hv => ⟨_, hv, rfl⟩

theorem mem_ignoredIds {verdicts : List (Nat × Verdict ρ)} :
    chunkId ∈ ignoredIds verdicts ↔ (chunkId, .ignored) ∈ verdicts := by
  unfold ignoredIds
  rw [List.mem_filterMap]
  constructor
  · rintro ⟨⟨id, verdict⟩, hv, heq⟩
    cases verdict with
    | pending f => cases heq
    | ignored => exact Option.some.inj heq ▸ hv
  · exact fun hv => ⟨_, hv, rfl⟩

theorem adoption_of_ok {receipt : WorkerReceipt} {report : ImportReport}
    {files : Nat → Option (ParquetFile ρ)}
    (h : adoptWorkerBundle fileSha256 workDigest plan coordinator bundle receipt = .ok (report, files)) :
    Adoption fileSha256 plan coordinator bundle report files := by
  unfold adoptWorkerBundle at h
  cases hfiles : filesByChunk receipt with
  | error e =>
    simp only [hfiles, bind, Except.bind] at h
    split_ifs at h
  | ok recorded =>
    simp only [hfiles, bind, Except.bind] at h
    split_ifs at h
    cases hjudged : judgeChunks fileSha256 plan coordinator bundle
        (recorded.mergeSort fun a b => decide (a.1 ≤ b.1)) with
    | error e => simp [hjudged] at h
    | ok verdicts =>
      simp only [hjudged, Except.ok.injEq, Prod.mk.injEq] at h
      obtain ⟨rfl, rfl⟩ := h
      have hpending : ∀ {id f}, (id, f) ∈ pendingFiles verdicts → plan.requireChunk id = .ok () ∧
          coordinator id = none ∧ bundle.get? (.chunk id) = some f ∧
          (inspectPlanned fileSha256 plan id (some f)).isSome = true := by
        intro id f hf
        obtain ⟨digest, hd⟩ := mem_judgeChunks hjudged (mem_pendingFiles.mp hf)
        exact judgeChunk_pending hd
      constructor
      · intro id hid
        rw [List.mem_mergeSort, List.mem_map] at hid
        obtain ⟨⟨_, f⟩, hf, rfl⟩ := hid
        obtain ⟨hplanned, _, hget, hinspect⟩ := hpending hf
        refine ⟨hplanned, f, hget, place_of_mem (fun g hg => ?_) (.inl (List.mem_map_of_mem hf)), hinspect⟩
        exact Option.some.inj ((hpending hg).2.2.1.symm.trans hget)
      · intro id hid
        rw [List.mem_mergeSort] at hid
        obtain ⟨digest, hd⟩ := mem_judgeChunks hjudged (mem_ignoredIds.mp hid)
        obtain ⟨hplanned, hthere, hinspect⟩ := judgeChunk_ignored hd
        refine ⟨hplanned, place_of_not_mem ?_, hinspect⟩
        intro hmem
        obtain ⟨⟨_, f⟩, hf, rfl⟩ := List.mem_map.mp hmem
        rw [(hpending hf).2.1] at hthere
        cases hthere

theorem ExecutedChunk.fingerprint {rows : List (Row ρ)}
    (h : ExecutedChunk fileSha256 plan chunkId (.table rows)) :
    ∀ row ∈ rows, row.inputFingerprint = some plan.inputFingerprint := by
  obtain ⟨actions, s, result, hrun, hcalls, -, hfile⟩ := h
  have horigin := (ChunkFiles.origin_of_run hrun).rows.file
  rw [hfile] at horigin
  intro row hrow
  rcases horigin row hrow with hfirst | ⟨c, hc, -, hcarried | hfetched⟩
  · cases hfirst
  · rw [hcalls c hc] at hcarried
    cases hcarried
  · rw [hcalls c hc] at hfetched
    exact hfetched

theorem counts_iff {files : Nat → Option (ParquetFile ρ)} {fingerprintsFile : Option (Dict String String)}
    (hplanned : plan.requireChunk chunkId = .ok ()) {rows : List (Row ρ)}
    (hfile : files chunkId = some (.table rows))
    (hinspect : (inspectPlanned fileSha256 plan chunkId (some (.table rows))).isSome = true) :
    (∃ info, (chunkId, info) ∈ discoverCompletedChunks fileSha256 plan files fingerprintsFile) ↔
      (plan.isArchivePlan = true → ∀ fingerprints, fingerprintsFile = some fingerprints →
        ∀ row ∈ rows, row.inputFingerprint = fingerprints.get? row.cik) := by
  obtain ⟨_, heq, hperm, hexpected⟩ := (inspectPlanned_isSome hplanned).mp hinspect
  obtain rfl := ParquetFile.table.inj (Option.some.inj heq)
  rw [mem_discoverCompletedChunks, and_iff_right (Plan.mem_chunkIds.mpr hplanned)]
  cases harchive : plan.isArchivePlan with
  | false =>
    simp only [Bool.false_eq_true, if_false, false_implies, iff_true]
    exact ⟨rows, hfile, hperm, hexpected⟩
  | true =>
    simp only [if_true, true_implies]
    cases fingerprintsFile with
    | none =>
      simp only [reduceCtorEq, false_implies, implies_true, iff_true]
      exact ⟨rows, hfile, hperm, hexpected⟩
    | some fingerprints =>
      constructor
      · rintro ⟨rows', hfile', -, hall⟩ _ hfps row hrow
        obtain rfl := Option.some.inj hfps
        obtain rfl := ParquetFile.table.inj (Option.some.inj (hfile.symm.trans hfile'))
        exact of_decide_eq_true (hall row hrow)
      · exact fun hall => ⟨rows, hfile, hperm, fun row hrow => decide_eq_true (hall fingerprints rfl row hrow)⟩

theorem table_of_inspectPlanned (hplanned : plan.requireChunk chunkId = .ok ()) {file : Option (ParquetFile ρ)}
    (h : (inspectPlanned fileSha256 plan chunkId file).isSome = true) :
    ∃ rows, file = some (.table rows) ∧ (rows.map Row.cik).Perm (plan.chunkCiks chunkId) := by
  obtain ⟨rows, rfl, hperm, -⟩ := (inspectPlanned_isSome hplanned).mp h
  exact ⟨rows, rfl, hperm⟩

/-- Every chunk that is reported adopted or ignored counts as complete unless, for an archive
plan with its fingerprints file, that file names for a CIK another fingerprint than its row has:
for an adopted chunk another than the plan's own. -/
theorem adoptWorkerBundle_counts_iff {fingerprintsFile : Option (Dict String String)} {workerId : String}
    {chunkIds : List Nat} {receipt : WorkerReceipt} {report : ImportReport}
    {files : Nat → Option (ParquetFile ρ)}
    (hexecuted : Executed fileSha256 workDigest plan workerId chunkIds bundle receipt)
    (hadopt : adoptWorkerBundle fileSha256 workDigest plan coordinator bundle receipt = .ok (report, files)) :
    (∀ chunkId ∈ report.adoptedChunks ++ report.ignoredChunks, ∃ info,
        (chunkId, info) ∈ discoverCompletedChunks fileSha256 plan files fingerprintsFile) ↔
      (plan.isArchivePlan = true → ∀ fingerprints, fingerprintsFile = some fingerprints →
        (∀ chunkId ∈ report.adoptedChunks, ∀ cik ∈ plan.chunkCiks chunkId,
          fingerprints.get? cik = some plan.inputFingerprint) ∧
        ∀ chunkId ∈ report.ignoredChunks, ∀ row ∈ ChunkFiles.rowsOf (coordinator chunkId),
          row.inputFingerprint = fingerprints.get? row.cik) := by
  have hadoption := adoption_of_ok hadopt
  -- an adopted chunk: its rows are those the worker wrote
  have hadopted : ∀ chunkId ∈ report.adoptedChunks,
      (∃ info, (chunkId, info) ∈ discoverCompletedChunks fileSha256 plan files fingerprintsFile) ↔
        (plan.isArchivePlan = true → ∀ fingerprints, fingerprintsFile = some fingerprints →
          ∀ cik ∈ plan.chunkCiks chunkId, fingerprints.get? cik = some plan.inputFingerprint) := by
    intro chunkId hid
    obtain ⟨hplanned, incoming, hget, hfile, hinspect⟩ := hadoption.adopted chunkId hid
    obtain ⟨rows, heq, hperm⟩ := table_of_inspectPlanned hplanned hinspect
    obtain rfl := Option.some.inj heq
    have hwritten := (hexecuted.chunks chunkId _ hget).fingerprint
    rw [counts_iff hplanned hfile hinspect]
    refine forall_congr' fun _ => forall_congr' fun fingerprints => forall_congr' fun _ => ?_
    constructor
    · intro hall cik hcik
      obtain ⟨row, hrow, rfl⟩ := List.mem_map.mp (hperm.mem_iff.mpr hcik)
      rw [← hall row hrow, hwritten row hrow]
    · intro hall row hrow
      rw [hwritten row hrow, hall row.cik (hperm.mem_iff.mp (List.mem_map_of_mem hrow))]
  -- an ignored one is the coordinator's own file
  have hignored : ∀ chunkId ∈ report.ignoredChunks,
      (∃ info, (chunkId, info) ∈ discoverCompletedChunks fileSha256 plan files fingerprintsFile) ↔
        (plan.isArchivePlan = true → ∀ fingerprints, fingerprintsFile = some fingerprints →
          ∀ row ∈ ChunkFiles.rowsOf (coordinator chunkId), row.inputFingerprint = fingerprints.get? row.cik) := by
    intro chunkId hid
    obtain ⟨hplanned, hfile, hinspect⟩ := hadoption.ignored chunkId hid
    obtain ⟨rows, heq, -⟩ := table_of_inspectPlanned hplanned hinspect
    rw [heq] at hinspect hfile ⊢
    exact counts_iff hplanned hfile hinspect
  constructor
  · intro hall harchive fingerprints hfps
    exact ⟨fun id hid => (hadopted id hid).mp (hall id (List.mem_append_left _ hid)) harchive fingerprints hfps,
      fun id hid => (hignored id hid).mp (hall id (List.mem_append_right _ hid)) harchive fingerprints hfps⟩
  · intro hall id hid
    rcases List.mem_append.mp hid with hid | hid
    · exact (hadopted id hid).mpr fun harchive fingerprints hfps => (hall harchive fingerprints hfps).1 id hid
    · exact (hignored id hid).mpr fun harchive fingerprints hfps => (hall harchive fingerprints hfps).2 id hid

end Bundles

/-! ### A worker's chunk of an archive plan -/

def archivePlan : Plan :=
  { documentOf "A" with
    planId := derivePlanId sha256Hex "r" 2 "full" "" "A"
    archiveSourceId := "submissions_bulk"
    archiveSha256 := "A" }

def archiveFingerprints : Dict String String := ⟨[("1", "one"), ("2", "two")], by decide⟩

def workerRows : List (Row Unit) :=
  [(workerCall archivePlan).normalizeOneCik "1" someFetch, (workerCall archivePlan).normalizeOneCik "2" someFetch]

def workerBundle : Dict OutputName (ParquetFile Unit) := ⟨[(.chunk 0, .table workerRows)], by decide⟩

def digestOfPlan (plan : Plan) : String := sha256Text sha256Hex (plan.planId ++ plan.inputFingerprint)

def workerReceipt : WorkerReceipt :=
  ⟨archivePlan.planId, digestOfPlan archivePlan, "w1", [0], workerBundle.mapValues digestOf⟩

def workerRun : List (ChunkAction Unit) :=
  [.call (workerCall archivePlan), .advance, .advance, .advance, .fetched "1" someFetch, .fetched "2" someFetch,
    .advance, .advance, .advance, .advance, .advance, .advance]

theorem workerRun_end : (run (ChunkFiles.step digestOf 0) (.initial none) workerRun).map
    (fun s => (s.phase, s.file)) =
      some (.returned (workerCall archivePlan) ⟨0, 2, false, countStatuses workerRows, 0⟩,
        some (.table workerRows)) := by
  rfl

theorem executed_workerBundle :
    Executed digestOf digestOfPlan archivePlan "w1" [0] workerBundle workerReceipt where
  outputs := rfl
  chunks chunkId file hget := by
    have hmem := Dict.get?_eq_some_iff.mp hget
    obtain ⟨hname, rfl⟩ := Prod.mk.inj (List.mem_singleton.mp hmem)
    obtain rfl := OutputName.chunk.inj hname
    obtain ⟨s, hrun, hend⟩ := Option.map_eq_some_iff.mp workerRun_end
    obtain ⟨hphase, hfile⟩ := Prod.mk.inj hend
    refine ⟨workerRun, s, _, hrun, ?_, hphase, hfile⟩
    intro c hc
    exact List.mem_singleton.mp hc
  receipt_eq := by
    simp [workerReceipt]

theorem adopt_workerBundle : adoptWorkerBundle digestOf digestOfPlan archivePlan (fun _ => none) workerBundle
    workerReceipt = .ok (⟨archivePlan.planId, "w1", [0], []⟩,
      place (fun _ => none) [(0, .table workerRows)]) := by
  have hfiles : filesByChunk workerReceipt = .ok [(0, digestOf (.table workerRows))] := rfl
  have hinspect : inspectPlanned digestOf archivePlan 0 (some (.table workerRows)) =
      some ⟨0, 2, ["1", "2"], digestOf (.table workerRows)⟩ := by
    rfl
  have hjudged : judgeChunk digestOf archivePlan (fun _ => none) workerBundle 0 (digestOf (.table workerRows)) =
      .ok (.pending (.table workerRows)) := by
    unfold judgeChunk
    rw [show archivePlan.requireChunk 0 = .ok () from rfl,
      show workerBundle.get? (.chunk 0) = some (.table workerRows) from rfl, hinspect]
  unfold adoptWorkerBundle
  rw [if_neg (by simp [workerReceipt]), if_neg (by simp [workerReceipt]), hfiles]
  simp [judgeChunks, hjudged, bind, Except.bind, pendingFiles, ignoredIds, workerReceipt, Dict.mapValues,
    Dict.keys, Function.comp_def]

theorem adoptWorkerBundle_counts_iff_archive :
    (∀ chunkId ∈ [0] ++ ([] : List Nat), ∃ info, (chunkId, info) ∈ discoverCompletedChunks digestOf archivePlan
        (place (fun _ => none) [(0, .table workerRows)]) (some archiveFingerprints)) ↔
      (archivePlan.isArchivePlan = true → ∀ fingerprints, some archiveFingerprints = some fingerprints →
        (∀ chunkId ∈ [0], ∀ cik ∈ archivePlan.chunkCiks chunkId,
          fingerprints.get? cik = some archivePlan.inputFingerprint) ∧
        ∀ chunkId ∈ ([] : List Nat), ∀ row ∈ ChunkFiles.rowsOf (none : Option (ParquetFile Unit)),
          row.inputFingerprint = fingerprints.get? row.cik) :=
  adoptWorkerBundle_counts_iff executed_workerBundle adopt_workerBundle

/-- The coordinator does not find the adopted chunk complete. -/
theorem adoptWorkerBundle_not_counted : ∃ report files,
    Executed digestOf digestOfPlan archivePlan "w1" [0] workerBundle workerReceipt ∧
    adoptWorkerBundle digestOf digestOfPlan archivePlan (fun _ => none) workerBundle workerReceipt =
      .ok (report, files) ∧
    0 ∈ report.adoptedChunks ∧
    discoverCompletedChunks digestOf archivePlan files (some archiveFingerprints) = [] := by
  refine ⟨_, _, executed_workerBundle, adopt_workerBundle, List.mem_singleton_self 0, ?_⟩
  decide +kernel

end EdgarSec.MetadataSync
