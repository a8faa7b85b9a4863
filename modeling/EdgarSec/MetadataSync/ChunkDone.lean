import EdgarSec.Foundation.Sha256
import EdgarSec.MetadataSync.ChunkStages

/-! What a returned `run_chunk` call leaves: the file that `inspect_chunk` accepts, unless rows
were kept or carried whose fingerprint the call does not expect. -/

namespace EdgarSec.MetadataSync
open Lib

variable {ρ : Type} {chunkId : Nat}

namespace ChunkCall
variable (call : ChunkCall ρ) (chunkId)

def Expects (row : Row ρ) : Prop :=
  fingerprintExpected (orNone call.plan.inputFingerprint) call.fingerprints row = true

instance (row : Row ρ) : Decidable (call.Expects row) := inferInstanceAs (Decidable (_ = _))

def kept : Option (ParquetFile ρ) → List (Row ρ)
  | some (.table rows) => if call.force then [] else rows
  | _ => []

def remaining (tmp : Option (ParquetFile ρ)) : List String :=
  (call.plan.chunkCiks chunkId).filter (· ∉ (call.kept tmp).map Row.cik)

structure Staged (tmp : Option (ParquetFile ρ)) (rows : List (Row ρ)) (pending : List String) : Prop where
  split : ∃ fetched, rows = call.kept tmp ++ call.carried (call.remaining chunkId tmp) ++ fetched ∧
    (∀ row ∈ fetched, row.inputFingerprint = some (call.fingerprintFor row.cik)) ∧
    (fetched.map Row.cik ++ pending).Perm (call.uncarried (call.remaining chunkId tmp))

variable {call} {chunkId} {tmp : Option (ParquetFile ρ)} {rows : List (Row ρ)} {pending : List String}

theorem carried_cik {row : Row ρ} {ciks : List String} (h : row ∈ call.carried ciks) :
    row.cik ∈ ciks ∧ call.carryRows.get? row.cik = some row := by
  obtain ⟨cik, hcik, hget⟩ := List.mem_filterMap.mp h
  have hkey : row.cik = cik := call.carryRows_keyed (cik, row) (Dict.get?_eq_some_iff.mp hget)
  rw [hkey]
  exact ⟨hcik, hget⟩

theorem mem_carried_or_uncarried {cik : String} {ciks : List String} (h : cik ∈ ciks) :
    cik ∈ (call.carried ciks).map Row.cik ∨ cik ∈ call.uncarried ciks := by
  cases hget : call.carryRows.get? cik with
  | some row =>
    left
    have hrow : row ∈ call.carried ciks := List.mem_filterMap.mpr ⟨cik, h, hget⟩
    have hkey : row.cik = cik := call.carryRows_keyed (cik, row) (Dict.get?_eq_some_iff.mp hget)
    exact List.mem_map.mpr ⟨row, hrow, hkey⟩
  | none =>
    right
    exact List.mem_filter.mpr ⟨h, by simp [Dict.contains, hget]⟩

theorem Staged.covers (h : call.Staged chunkId tmp rows []) :
    call.plan.chunkCiks chunkId ⊆ rows.map Row.cik := by
  obtain ⟨fetched, rfl, -, hperm⟩ := h.split
  rw [List.append_nil] at hperm
  intro cik hcik
  rw [List.map_append, List.map_append, List.mem_append, List.mem_append]
  by_cases hkept : cik ∈ (call.kept tmp).map Row.cik
  · exact .inl (.inl hkept)
  · have hremaining : cik ∈ call.remaining chunkId tmp :=
      List.mem_filter.mpr ⟨hcik, decide_eq_true hkept⟩
    rcases mem_carried_or_uncarried hremaining with hcarried | huncarried
    · exact .inl (.inr hcarried)
    · exact .inr (hperm.mem_iff.mpr huncarried)

theorem Staged.perm (h : call.Staged chunkId tmp rows [])
    (hlength : rows.length = (call.plan.chunkCiks chunkId).length) :
    (rows.map Row.cik).Perm (call.plan.chunkCiks chunkId) := by
  have hsub := List.subperm_of_subset (call.plan.chunkCiks_nodup chunkId) h.covers
  exact (hsub.perm_of_length_le (by rw [List.length_map, hlength])).symm

theorem Staged.ne_nil (h : call.Staged chunkId tmp rows [])
    (hplanned : call.plan.requireChunk chunkId = .ok ()) : rows ≠ [] := by
  rintro rfl
  obtain ⟨cik, hcik⟩ := List.exists_mem_of_ne_nil _ (Plan.chunkCiks_ne_nil hplanned)
  cases h.covers hcik

theorem Staged.start (hrows : rows = call.kept tmp) (hnone : call.carried (call.remaining chunkId tmp) = []) :
    call.Staged chunkId tmp rows (call.remaining chunkId tmp) := by
  refine ⟨[], by rw [hrows, hnone, List.append_nil, List.append_nil], by simp, ?_⟩
  have hall : call.uncarried (call.remaining chunkId tmp) = call.remaining chunkId tmp := by
    rw [uncarried, List.filter_eq_self]
    intro cik hcik
    have hnone' := List.filterMap_eq_nil_iff.mp hnone cik hcik
    simp [Dict.contains, hnone']
  rw [hall]
  exact List.Perm.refl _

theorem Staged.carry (hrows : rows = call.kept tmp) :
    call.Staged chunkId tmp (rows ++ call.carried (call.remaining chunkId tmp))
      (call.uncarried (call.remaining chunkId tmp)) :=
  ⟨[], by rw [hrows, List.append_nil], by simp, List.Perm.refl _⟩

theorem Staged.fetch (h : call.Staged chunkId tmp rows pending) {cik : String} (hcik : cik ∈ pending)
    (fetched : Fetched ρ) :
    call.Staged chunkId tmp (rows ++ [call.normalizeOneCik cik fetched]) (pending.erase cik) := by
  obtain ⟨before, rfl, hfp, hperm⟩ := h.split
  refine ⟨before ++ [call.normalizeOneCik cik fetched], by simp, ?_, ?_⟩
  · intro row hrow
    rcases List.mem_append.mp hrow with hbefore | hnew
    · exact hfp row hbefore
    · obtain rfl := List.mem_singleton.mp hnew
      rfl
  · have hmoved : (cik :: pending.erase cik).Perm pending := (List.perm_cons_erase hcik).symm
    rw [List.map_append, List.append_assoc]
    exact (hmoved.append_left _).trans hperm

end ChunkCall

def ChunkAction.call? : ChunkAction ρ → Option (ChunkCall ρ)
  | .call c => some c
  | _ => none

def ChunkPhase.call? : ChunkPhase ρ → Option (ChunkCall ρ)
  | .idle => none
  | .starting c | .staging c | .carrying c _ | .fetching c _ | .committing c | .closing c | .counting c
  | .replacing c _ | .summarizing c _ | .returned c _ => some c

def ChunkCall.Wrote (chunkId : Nat) (call : ChunkCall ρ) (row : Row ρ) : Prop :=
  row.cik ∈ call.plan.chunkCiks chunkId ∧
    (call.carryRows.get? row.cik = some row ∨ row.inputFingerprint = some (call.fingerprintFor row.cik))

def ChunkPhase.remaining : ChunkPhase ρ → List String
  | .carrying _ remaining | .fetching _ remaining => remaining
  | _ => []

namespace ChunkFiles
variable {fileSha256 : ParquetFile ρ → String} {s s' s₀ : ChunkFiles ρ} {call : ChunkCall ρ}

def contents (s : ChunkFiles ρ) : List (Row ρ) := s.writer.written.getD (s.writer.preloaded.getD [])

theorem written_ensureWriter : s.ensureWriter.writer.written = some s.contents := by
  unfold ensureWriter contents
  cases h : s.writer.written with
  | some rows => simp [h]
  | none => rfl

theorem contents_writeBatch (rows : List (Row ρ)) : (s.writeBatch rows).contents = s.contents ++ rows := by
  unfold writeBatch
  rw [contents]
  simp [written_ensureWriter]

theorem tmp_closeWriter {rows : List (Row ρ)} (h : s.writer.written = some rows) :
    s.closeWriter.tmp = some (.table rows) := by
  simp [closeWriter, h]

variable (fileSha256) (chunkId) (s₀) (call)

/-- The call finds the chunk complete and does nothing. -/
def Skips : Prop := call.force = false ∧ (call.inspect fileSha256 chunkId s₀.file).isSome = true

structure Works : Prop where
  planned : call.plan.requireChunk chunkId = .ok ()
  unskipped : ¬ Skips chunkId fileSha256 s₀ call

def During (s : ChunkFiles ρ) : Prop :=
  match s.phase with
  | .idle => True
  | .starting c => c = call ∧ s.file = s₀.file ∧ s.tmp = s₀.tmp
  | .staging c => c = call ∧ Works chunkId fileSha256 s₀ call ∧ s.tmp = s₀.tmp
  | .carrying c remaining => c = call ∧ Works chunkId fileSha256 s₀ call ∧
      remaining = call.remaining chunkId s₀.tmp ∧ s.contents = call.kept s₀.tmp
  | .fetching c remaining => c = call ∧ Works chunkId fileSha256 s₀ call ∧
      call.Staged chunkId s₀.tmp s.contents remaining
  | .committing c => c = call ∧ Works chunkId fileSha256 s₀ call ∧
      call.Staged chunkId s₀.tmp s.contents []
  | .closing c => c = call ∧ Works chunkId fileSha256 s₀ call ∧
      ∃ rows, s.writer.written = some rows ∧ call.Staged chunkId s₀.tmp rows []
  | .counting c => c = call ∧ Works chunkId fileSha256 s₀ call ∧
      ∃ rows, s.tmp = some (.table rows) ∧ call.Staged chunkId s₀.tmp rows []
  | .replacing c _ => c = call ∧ Works chunkId fileSha256 s₀ call ∧
      ∃ rows, s.tmp = some (.table rows) ∧ call.Staged chunkId s₀.tmp rows [] ∧
        rows.length = (call.plan.chunkCiks chunkId).length
  | .summarizing c _ => c = call ∧ Works chunkId fileSha256 s₀ call ∧
      ∃ rows, s.file = some (.table rows) ∧ call.Staged chunkId s₀.tmp rows [] ∧
        rows.length = (call.plan.chunkCiks chunkId).length
  | .returned c _ => c = call ∧ call.plan.requireChunk chunkId = .ok () ∧
      ((Skips chunkId fileSha256 s₀ call ∧ s.file = s₀.file) ∨
        Works chunkId fileSha256 s₀ call ∧
          ∃ rows, s.file = some (.table rows) ∧ call.Staged chunkId s₀.tmp rows [] ∧
            rows.length = (call.plan.chunkCiks chunkId).length)

variable {fileSha256} {chunkId} {s₀} {call}

theorem contents_loadStage (hforce : call.force = false) (hwriter : s.writer = ⟨none, none⟩) :
    s.loadStage.contents = call.kept s.tmp := by
  unfold loadStage ChunkCall.kept contents
  cases htmp : s.tmp with
  | none => simp [hwriter]
  | some file => cases file <;> simp [hforce]

theorem existingIds_eq (hwritten : s.writer.written = none) : s.existingIds = s.contents.map Row.cik := by
  simp [existingIds, contents, hwritten]

theorem written_loadStage (hwriter : s.writer = ⟨none, none⟩) : s.loadStage.writer.written = none := by
  unfold loadStage
  cases htmp : s.tmp with
  | none => simp [hwriter]
  | some file => cases file <;> rfl

theorem During.advance (h : During chunkId fileSha256 s₀ call s) :
    During chunkId fileSha256 s₀ call (s.advance fileSha256 chunkId s.phase) := by
  unfold During at h
  cases hphase : s.phase with
  | idle =>
    simp only [ChunkFiles.advance]
    unfold During
    rw [hphase]
    trivial
  | starting c =>
    rw [hphase] at h
    obtain ⟨rfl, hfile, htmp⟩ := h
    simp only [ChunkFiles.advance]
    cases hplanned : c.plan.requireChunk chunkId with
    | error e => trivial
    | ok u =>
      dsimp only
      by_cases hforce : c.force = true
      · rw [if_pos hforce]
        have hskip : ¬ Skips chunkId fileSha256 s₀ c := fun hskip =>
          absurd hforce (by rw [hskip.1]; decide)
        exact ⟨rfl, ⟨hplanned, hskip⟩, htmp⟩
      · rw [if_neg hforce]
        cases hinspect : c.inspect fileSha256 chunkId s.file with
        | some existing =>
          refine ⟨rfl, hplanned, .inl ⟨⟨by simpa using hforce, ?_⟩, hfile⟩⟩
          rw [← hfile, hinspect]
          rfl
        | none =>
          refine ⟨rfl, ⟨hplanned, fun hskip => ?_⟩, htmp⟩
          have hsome := hskip.2
          rw [← hfile, hinspect] at hsome
          cases hsome
  | staging c =>
    rw [hphase] at h
    obtain ⟨rfl, hworks, htmp⟩ := h
    simp only [ChunkFiles.advance]
    by_cases hforce : c.force = true
    · rw [if_pos hforce]
      have hkept : c.kept s₀.tmp = [] := by
        unfold ChunkCall.kept
        split <;> simp [hforce]
      refine ⟨rfl, hworks, ?_, by rw [hkept]; rfl⟩
      unfold ChunkCall.remaining
      rw [hkept]
      rfl
    · rw [if_neg hforce]
      have hfalse : c.force = false := by simpa using hforce
      have hcontents : ({ s with writer := ⟨none, none⟩ } : ChunkFiles ρ).loadStage.contents =
          c.kept s₀.tmp := by
        rw [← htmp]
        exact contents_loadStage hfalse rfl
      have hids := existingIds_eq (written_loadStage (s := { s with writer := ⟨none, none⟩ }) rfl)
      refine ⟨rfl, hworks, ?_, hcontents⟩
      rw [hids, hcontents]
      rfl
  | carrying c remaining =>
    rw [hphase] at h
    obtain ⟨rfl, hworks, rfl, hcontents⟩ := h
    simp only [ChunkFiles.advance]
    by_cases hnone : c.carried (c.remaining chunkId s₀.tmp) = []
    · rw [if_pos hnone]
      exact ⟨rfl, hworks, .start hcontents hnone⟩
    · rw [if_neg hnone]
      refine ⟨rfl, hworks, ?_⟩
      show c.Staged chunkId s₀.tmp (s.writeBatch _).contents _
      rw [contents_writeBatch]
      exact .carry hcontents
  | fetching c remaining =>
    rw [hphase] at h
    simp only [ChunkFiles.advance]
    by_cases hnil : remaining = []
    · rw [if_pos hnil]
      exact ⟨h.1, h.2.1, hnil ▸ h.2.2⟩
    · rw [if_neg hnil]
      unfold During
      rw [hphase]
      exact h
  | committing c =>
    rw [hphase] at h
    obtain ⟨rfl, hworks, hstaged⟩ := h
    have hensured : During chunkId fileSha256 s₀ c (s.ensureWriter.become (.closing c)) :=
      ⟨rfl, hworks, s.contents, written_ensureWriter, hstaged⟩
    simp only [ChunkFiles.advance]
    split
    · next hwritten hpreloaded _ =>
      -- nothing was kept and nothing written: no rows would cover the chunk
      have hnil : s.contents = [] := by simp [contents, hwritten, hpreloaded]
      exact absurd hnil (hstaged.ne_nil hworks.planned)
    · exact hensured
  | closing c =>
    rw [hphase] at h
    obtain ⟨rfl, hworks, rows, hwritten, hstaged⟩ := h
    exact ⟨rfl, hworks, rows, tmp_closeWriter hwritten, hstaged⟩
  | counting c =>
    rw [hphase] at h
    obtain ⟨rfl, hworks, rows, htmp, hstaged⟩ := h
    simp only [ChunkFiles.advance, htmp, Option.bind_some, countRows]
    by_cases hlength : rows.length = (c.plan.chunkCiks chunkId).length
    · rw [if_pos hlength]
      exact ⟨rfl, hworks, rows, htmp, hstaged, hlength⟩
    · rw [if_neg hlength]
      trivial
  | replacing c totalRows =>
    rw [hphase] at h
    obtain ⟨rfl, hworks, rows, htmp, hstaged, hlength⟩ := h
    exact ⟨rfl, hworks, rows, htmp, hstaged, hlength⟩
  | summarizing c totalRows =>
    rw [hphase] at h
    obtain ⟨rfl, hworks, rows, hfile, hstaged, hlength⟩ := h
    simp only [ChunkFiles.advance, hfile]
    exact ⟨rfl, hworks.planned, .inr ⟨hworks, rows, hfile, hstaged, hlength⟩⟩
  | returned c result =>
    rw [hphase] at h
    exact h

theorem During.step {a : ChunkAction ρ} (h : During chunkId fileSha256 s₀ call s) (hown : a.call? = none)
    (hstep : s.step fileSha256 chunkId a = some s') : During chunkId fileSha256 s₀ call s' := by
  cases a with
  | call c => cases hown
  | advance =>
    obtain rfl := Option.some.inj hstep
    exact h.advance
  | fetched cik fetched =>
    cases hphase : s.phase with
    | fetching c remaining =>
      simp only [ChunkFiles.step, hphase, Option.ite_none_right_eq_some, Option.some.injEq] at hstep
      obtain ⟨hcik, rfl⟩ := hstep
      unfold During at h
      rw [hphase] at h
      obtain ⟨rfl, hworks, hstaged⟩ := h
      refine ⟨rfl, hworks, ?_⟩
      show c.Staged chunkId s₀.tmp (s.writeBatch _).contents _
      rw [contents_writeBatch]
      exact hstaged.fetch hcik fetched
    | _ => simp [ChunkFiles.step, hphase] at hstep
  | raise closes =>
    have hraised : s.raise closes = s' := by
      simp only [ChunkFiles.step] at hstep
      split at hstep
      · cases hstep
      · cases hstep
      · exact Option.some.inj hstep
    rw [← hraised]
    trivial
  | kill =>
    obtain rfl := Option.some.inj hstep
    trivial

theorem during_of_run {actions : List (ChunkAction ρ)} (hown : ∀ a ∈ actions, a.call? = none)
    (hrun : run (ChunkFiles.step fileSha256 chunkId) s₀ (.call call :: actions) = some s) :
    During chunkId fileSha256 s₀ call s := by
  obtain ⟨s₁, hcall, hrest⟩ := Option.bind_eq_some_iff.mp hrun
  have hstart : s₁ = s₀.become (.starting call) := by
    simp only [ChunkFiles.step] at hcall
    split at hcall
    · exact (Option.some.inj hcall).symm
    · exact (Option.some.inj hcall).symm
    · cases hcall
  have hbegin : During chunkId fileSha256 s₀ call s₁ := by
    rw [hstart]
    exact ⟨rfl, rfl, rfl⟩
  have hmeets : Meets (ChunkFiles.step fileSha256 chunkId) (fun _ a => a.call? = none) s₁ actions :=
    @meets_of_invariant _ _ _ _ _ _ (fun _ => True) (fun _ _ _ _ _ _ => trivial) (fun _ a ha _ => hown a ha)
      trivial
  exact run_invariant (fun _ _ _ h ha hs => h.step ha hs) hbegin hmeets hrest

/-! ### Where the staged rows come from -/

def rowsOf : Option (ParquetFile ρ) → List (Row ρ)
  | some (.table rows) => rows
  | _ => []

structure Holds (P Q : Row ρ → Prop) (s : ChunkFiles ρ) : Prop where
  tmp : ∀ row ∈ rowsOf s.tmp, P row
  preloaded : ∀ row ∈ s.writer.preloaded.getD [], P row
  written : ∀ row ∈ s.writer.written.getD [], P row
  file : ∀ row ∈ rowsOf s.file, Q row

variable {P Q : Row ρ → Prop}

theorem Holds.ensureWriter (h : Holds P Q s) : Holds P Q s.ensureWriter := by
  unfold ChunkFiles.ensureWriter
  cases hwritten : s.writer.written with
  | some rows => exact h
  | none => exact ⟨by simp [rowsOf], by simp, h.preloaded, h.file⟩

theorem Holds.writeBatch (h : Holds P Q s) {rows : List (Row ρ)} (hrows : ∀ row ∈ rows, P row) :
    Holds P Q (s.writeBatch rows) := by
  have hensured := h.ensureWriter
  refine ⟨hensured.tmp, hensured.preloaded, ?_, hensured.file⟩
  intro row hrow
  have hwritten := hensured.written
  unfold ChunkFiles.writeBatch at hrow
  dsimp only at hrow
  rw [written_ensureWriter] at hwritten hrow
  rcases List.mem_append.mp hrow with hold | hnew
  · exact hwritten row hold
  · exact hrows row hnew

theorem Holds.closeWriter (h : Holds P Q s) : Holds P Q s.closeWriter := by
  unfold ChunkFiles.closeWriter
  cases hwritten : s.writer.written with
  | none => exact h
  | some rows =>
    have hrows := h.written
    rw [hwritten] at hrows
    exact ⟨hrows, h.preloaded, by simp, h.file⟩

theorem Holds.reset (h : Holds P Q s) : Holds P Q { s with writer := ⟨none, none⟩ } :=
  ⟨h.tmp, by simp, by simp, h.file⟩

theorem Holds.loadStage (h : Holds P Q s) : Holds P Q s.loadStage := by
  unfold ChunkFiles.loadStage
  cases htmp : s.tmp with
  | none => exact h
  | some file =>
    have hrows := h.tmp
    rw [htmp] at hrows
    cases file with
    | table rows => exact ⟨hrows, hrows, by simp, h.file⟩
    | otherSchema n => exact ⟨by simp [rowsOf], by simp, by simp, h.file⟩
    | unreadable => exact ⟨by simp [rowsOf], by simp, by simp, h.file⟩

theorem Holds.become (h : Holds P Q s) (phase : ChunkPhase ρ) : Holds P Q (s.become phase) :=
  ⟨h.tmp, h.preloaded, h.written, h.file⟩

theorem Holds.mono {P' Q' : Row ρ → Prop} (h : Holds P Q s) (hP : ∀ row, P row → P' row)
    (hQ : ∀ row, Q row → Q' row) : Holds P' Q' s :=
  ⟨fun row hrow => hP row (h.tmp row hrow), fun row hrow => hP row (h.preloaded row hrow),
    fun row hrow => hP row (h.written row hrow), fun row hrow => hQ row (h.file row hrow)⟩

variable (chunkId) in
def WrittenBy (calls : List (ChunkCall ρ)) (row : Row ρ) : Prop := ∃ c ∈ calls, c.Wrote chunkId row

variable (chunkId) in
structure Origin (file : Option (ParquetFile ρ)) (calls : List (ChunkCall ρ)) (s : ChunkFiles ρ) : Prop where
  rows : Holds (WrittenBy chunkId calls) (fun row => row ∈ rowsOf file ∨ WrittenBy chunkId calls row) s
  call : ∀ c, s.phase.call? = some c → c ∈ calls ∧ s.phase.remaining ⊆ c.plan.chunkCiks chunkId

variable {file : Option (ParquetFile ρ)} {calls : List (ChunkCall ρ)}

theorem advance_call (c : ChunkCall ρ) :
    (s.advance fileSha256 chunkId s.phase).phase.call? = some c →
      s.phase.call? = some c ∧ (s.phase.remaining ⊆ c.plan.chunkCiks chunkId →
        (s.advance fileSha256 chunkId s.phase).phase.remaining ⊆ c.plan.chunkCiks chunkId) := by
  generalize hphase : s.phase = phase
  fun_cases ChunkFiles.advance fileSha256 chunkId s phase <;>
    simp_all [become, ChunkPhase.call?, ChunkPhase.remaining, ChunkCall.uncarried]
  · next c' remaining hcarried =>
    intro hc hremaining
    subst hc
    exact List.Subset.trans (List.filter_subset_self _) hremaining

theorem Origin.advance (h : Origin chunkId file calls s) : Origin chunkId file calls (s.advance fileSha256 chunkId s.phase) := by
  have hrows := h.rows
  refine ⟨?_, fun c hc => ?_⟩
  rotate_left
  · obtain ⟨hsame, hremaining⟩ := advance_call c hc
    obtain ⟨hcall, hplanned⟩ := h.call c hsame
    exact ⟨hcall, hremaining hplanned⟩
  cases hphase : s.phase with
  | idle => exact hrows
  | starting c =>
    simp only [ChunkFiles.advance]
    split
    · exact hrows.become _
    · split_ifs
      · exact hrows.become _
      · split <;> exact hrows.become _
  | staging c =>
    simp only [ChunkFiles.advance]
    split_ifs
    · exact hrows.reset.become _
    · exact hrows.reset.loadStage.become _
  | carrying c remaining =>
    simp only [ChunkFiles.advance]
    split_ifs
    · exact hrows.become _
    · obtain ⟨hcall, hplanned⟩ := h.call c (by rw [hphase]; rfl)
      rw [hphase] at hplanned
      have hcarried : ∀ row ∈ c.carried remaining, WrittenBy chunkId calls row := fun row hrow =>
        ⟨c, hcall, hplanned (ChunkCall.carried_cik hrow).1, .inl (ChunkCall.carried_cik hrow).2⟩
      exact (hrows.writeBatch hcarried).become _
  | fetching c remaining =>
    simp only [ChunkFiles.advance]
    split_ifs
    · exact hrows.become _
    · exact hrows
  | committing c =>
    simp only [ChunkFiles.advance]
    split
    · exact hrows.become _
    · exact hrows.ensureWriter.become _
  | closing c => exact hrows.closeWriter.become _
  | counting c =>
    simp only [ChunkFiles.advance]
    split
    · exact hrows.become _
    · split_ifs <;> exact hrows.become _
  | replacing c totalRows =>
    exact ⟨by simp [rowsOf, ChunkFiles.advance], hrows.preloaded, hrows.written,
      fun row hrow => .inr (hrows.tmp row hrow)⟩
  | summarizing c totalRows =>
    simp only [ChunkFiles.advance]
    split <;> exact hrows.become _
  | returned c result => exact hrows.become _

theorem Origin.step {a : ChunkAction ρ} (h : Origin chunkId file calls s)
    (hstep : s.step fileSha256 chunkId a = some s') : Origin chunkId file (calls ++ a.call?.toList) s' := by
  have hmono : ∀ row, WrittenBy chunkId calls row → WrittenBy chunkId (calls ++ a.call?.toList) row :=
    fun row ⟨c, hc, hrow⟩ => ⟨c, List.mem_append_left _ hc, hrow⟩
  cases a with
  | call c =>
    have hstart : s' = s.become (.starting c) := by
      simp only [ChunkFiles.step] at hstep
      split at hstep
      · exact (Option.some.inj hstep).symm
      · exact (Option.some.inj hstep).symm
      · cases hstep
    rw [hstart]
    refine ⟨(h.rows.mono hmono fun row hrow => hrow.imp_right (hmono row)).become _, ?_⟩
    intro c' hc'
    obtain rfl := Option.some.inj hc'
    exact ⟨List.mem_append_right _ List.mem_cons_self, List.nil_subset _⟩
  | advance =>
    obtain rfl := Option.some.inj hstep
    show Origin chunkId file (calls ++ []) _
    rw [List.append_nil]
    exact h.advance
  | fetched cik fetched =>
    show Origin chunkId file (calls ++ []) _
    rw [List.append_nil]
    cases hphase : s.phase with
    | fetching c remaining =>
      simp only [ChunkFiles.step, hphase, Option.ite_none_right_eq_some, Option.some.injEq] at hstep
      obtain ⟨hcik, rfl⟩ := hstep
      obtain ⟨hcall, hplanned⟩ := h.call c (by rw [hphase]; rfl)
      rw [hphase] at hplanned
      refine ⟨(h.rows.writeBatch fun row hrow => ?_).become _, fun c' hc' => ?_⟩
      · obtain rfl := List.mem_singleton.mp hrow
        exact ⟨c, hcall, hplanned hcik, .inr rfl⟩
      · obtain rfl := Option.some.inj hc'
        exact ⟨hcall, List.Subset.trans List.erase_subset hplanned⟩
    | _ => simp [ChunkFiles.step, hphase] at hstep
  | raise closes =>
    have hraised : s.raise closes = s' := by
      simp only [ChunkFiles.step] at hstep
      split at hstep
      · cases hstep
      · cases hstep
      · exact Option.some.inj hstep
    show Origin chunkId file (calls ++ []) _
    rw [List.append_nil, ← hraised]
    have hclosed : Holds (WrittenBy chunkId calls) (fun row => row ∈ rowsOf file ∨ WrittenBy chunkId calls row)
        (if closes then s.closeWriter else s) := by
      split_ifs
      · exact h.rows.closeWriter
      · exact h.rows
    exact ⟨hclosed.reset.become _, fun c hc => by cases hc⟩
  | kill =>
    obtain rfl := Option.some.inj hstep
    show Origin chunkId file (calls ++ []) _
    rw [List.append_nil]
    exact ⟨h.rows.reset.become _, fun c hc => by cases hc⟩

theorem origin_of_run {actions : List (ChunkAction ρ)}
    (hrun : run (ChunkFiles.step fileSha256 chunkId) (.initial file) actions = some s) :
    Origin chunkId file (actions.filterMap ChunkAction.call?) s := by
  apply run_history (P := fun as t => Origin chunkId file (as.filterMap ChunkAction.call?) t) _ _ hrun
  · exact ⟨⟨by simp [rowsOf, initial], by simp [initial], by simp [initial], fun row hrow => .inl hrow⟩,
      fun c hc => by cases hc⟩
  · intro as t a u hP hstep
    rw [List.filterMap_append]
    have hlast : [a].filterMap ChunkAction.call? = a.call?.toList := by
      cases a <;> rfl
    rw [hlast]
    exact hP.step hstep

/-! ### Done -/

theorem expects_fetched {row : Row ρ} (h : row.inputFingerprint = some (call.fingerprintFor row.cik)) :
    call.Expects row ↔ ∀ fingerprints, call.fingerprints = some fingerprints → row.cik ∈ fingerprints.keys := by
  unfold ChunkCall.Expects fingerprintExpected
  rw [h]
  unfold ChunkCall.fingerprintFor orNone
  cases hfps : call.fingerprints with
  | none => split_ifs with hempty <;> simp [hempty]
  | some fingerprints =>
    cases hget : fingerprints.get? row.cik with
    | none =>
      have hkey := Dict.get?_eq_none_iff.mp hget
      simp [hget, hkey]
    | some fingerprint =>
      have hkey : row.cik ∈ fingerprints.keys := by
        by_contra hnot
        rw [Dict.get?_eq_none_iff.mpr hnot] at hget
        cases hget
      simp [hget, hkey]

variable (chunkId) (s₀) (call) in
/-- The rows that the call keeps or carries have the fingerprints it expects, and the map it was
given, if any, names the CIKs it is to fetch. -/
structure Fits : Prop where
  kept : ∀ row ∈ call.kept s₀.tmp, call.Expects row
  carried : ∀ row ∈ call.carried (call.remaining chunkId s₀.tmp), call.Expects row
  fetched : ∀ fingerprints, call.fingerprints = some fingerprints →
    ∀ cik ∈ call.uncarried (call.remaining chunkId s₀.tmp), cik ∈ fingerprints.keys

theorem expects_iff_fits {rows : List (Row ρ)} (h : call.Staged chunkId s₀.tmp rows []) :
    (∀ row ∈ rows, call.Expects row) ↔ Fits chunkId s₀ call := by
  obtain ⟨fetched, rfl, hfetched, hperm⟩ := h.split
  rw [List.append_nil] at hperm
  have hkeys : (∀ row ∈ fetched, call.Expects row) ↔ ∀ fingerprints, call.fingerprints = some fingerprints →
      ∀ cik ∈ call.uncarried (call.remaining chunkId s₀.tmp), cik ∈ fingerprints.keys := by
    constructor
    · intro hall fingerprints hfps cik hcik
      obtain ⟨row, hrow, rfl⟩ := List.mem_map.mp (hperm.mem_iff.mpr hcik)
      exact (expects_fetched (hfetched row hrow)).mp (hall row hrow) fingerprints hfps
    · intro hall row hrow
      have hcik := hperm.mem_iff.mp (List.mem_map_of_mem hrow)
      exact (expects_fetched (hfetched row hrow)).mpr fun fingerprints hfps => hall fingerprints hfps _ hcik
  simp only [List.mem_append, or_imp, forall_and, hkeys]
  exact ⟨fun ⟨⟨hkept, hcarried⟩, hfetch⟩ => ⟨hkept, hcarried, hfetch⟩,
    fun ⟨hkept, hcarried, hfetch⟩ => ⟨⟨hkept, hcarried⟩, hfetch⟩⟩

variable (fileSha256) (chunkId) (call) in
/-- `inspect_chunk` with the call's expectations accepts the file, with each planned CIK once. -/
def Done (file : Option (ParquetFile ρ)) : Prop :=
  ∃ info, call.inspect fileSha256 chunkId file = some info ∧
    info.ciks.Perm (call.plan.chunkCiks chunkId)

theorem done_iff (hplanned : call.plan.requireChunk chunkId = .ok ()) {file : Option (ParquetFile ρ)} :
    Done chunkId fileSha256 call file ↔ (call.inspect fileSha256 chunkId file).isSome = true := by
  constructor
  · rintro ⟨info, hinfo, -⟩
    rw [hinfo]
    rfl
  · intro hsome
    have hrows := (inspectChunk_eq_some_iff (call.plan.chunkCiks_nodup chunkId)
      (Plan.chunkCiks_ne_nil hplanned)).mp hsome
    obtain ⟨rows, rfl, hperm, -⟩ := hrows
    obtain ⟨info, hinfo⟩ := Option.isSome_iff_exists.mp hsome
    refine ⟨info, hinfo, ?_⟩
    have hciks : info.ciks = rows.map Row.cik := by
      unfold ChunkCall.inspect inspectChunk at hinfo
      dsimp only at hinfo
      split_ifs at hinfo
      rw [← Option.some.inj hinfo]
    rw [hciks]
    exact hperm

/-- The rows that the calls put on the stage suit another call. -/
def Supply (chunkId : Nat) (calls : List (ChunkCall ρ)) (call : ChunkCall ρ) : Prop :=
  ∀ row, WrittenBy chunkId calls row → call.Expects row

theorem kept_subset {tmp : Option (ParquetFile ρ)} : call.kept tmp ⊆ rowsOf tmp := by
  intro row hrow
  unfold ChunkCall.kept at hrow
  split at hrow
  · split_ifs at hrow
    · cases hrow
    · exact hrow
  · cases hrow

theorem expects_of_supply {calls : List (ChunkCall ρ)} {rows : List (Row ρ)}
    (hkept : ∀ row ∈ rowsOf s₀.tmp, WrittenBy chunkId calls row)
    (hsupply : Supply chunkId (calls ++ [call]) call) (h : call.Staged chunkId s₀.tmp rows []) :
    ∀ row ∈ rows, call.Expects row := by
  have hremaining : call.remaining chunkId s₀.tmp ⊆ call.plan.chunkCiks chunkId :=
    List.filter_subset_self _
  obtain ⟨fetched, rfl, hfetched, hperm⟩ := h.split
  rw [List.append_nil] at hperm
  intro row hrow
  apply hsupply
  rw [List.mem_append, List.mem_append] at hrow
  rcases hrow with (hrow | hrow) | hrow
  · obtain ⟨c, hc, hwrote⟩ := hkept row (kept_subset hrow)
    exact ⟨c, List.mem_append_left _ hc, hwrote⟩
  · obtain ⟨hcik, hcarry⟩ := ChunkCall.carried_cik hrow
    exact ⟨call, List.mem_append_right _ List.mem_cons_self, hremaining hcik, .inl hcarry⟩
  · have hcik := hperm.mem_iff.mp (List.mem_map_of_mem hrow)
    have hplanned : row.cik ∈ call.plan.chunkCiks chunkId :=
      hremaining (List.filter_subset_self _ hcik)
    exact ⟨call, List.mem_append_right _ List.mem_cons_self, hplanned, .inr (hfetched row hrow)⟩

/-- After any earlier calls, however they ended, a call that returns leaves the chunk done just
when it found it so, or what it kept, carried and fetched has the fingerprints it expects; and
so it does when all calls so far write the fingerprints it expects. -/
theorem runChunk_done_iff {file₀ : Option (ParquetFile ρ)} {earlier own : List (ChunkAction ρ)}
    {result : ChunkResult}
    (hearlier : run (ChunkFiles.step fileSha256 chunkId) (.initial file₀) earlier = some s₀)
    (hrun : run (ChunkFiles.step fileSha256 chunkId) s₀ (.call call :: own) = some s)
    (hown : ∀ a ∈ own, a.call? = none) (hreturned : s.phase = .returned call result) :
    (Done chunkId fileSha256 call s.file ↔ Skips chunkId fileSha256 s₀ call ∨ Fits chunkId s₀ call) ∧
    (Supply chunkId (earlier.filterMap ChunkAction.call? ++ [call]) call →
      Done chunkId fileSha256 call s.file) := by
  have hduring := during_of_run hown hrun
  unfold During at hduring
  rw [hreturned] at hduring
  obtain ⟨-, hplanned, ⟨hskips, hfile⟩ | ⟨hworks, rows, hfile, hstaged, hlength⟩⟩ := hduring
  · have hdone : Done chunkId fileSha256 call s.file := by
      rw [done_iff hplanned, hfile]
      exact hskips.2
    exact ⟨iff_of_true hdone (.inl hskips), fun _ => hdone⟩
  · have hiff : Done chunkId fileSha256 call s.file ↔ ∀ row ∈ rows, call.Expects row := by
      rw [done_iff hplanned, hfile]
      unfold ChunkCall.inspect
      rw [inspectChunk_eq_some_iff (call.plan.chunkCiks_nodup chunkId) (Plan.chunkCiks_ne_nil hplanned)]
      constructor
      · rintro ⟨rows', heq, -, hall⟩
        obtain rfl := ParquetFile.table.inj (Option.some.inj heq)
        exact hall
      · exact fun hall => ⟨rows, rfl, hstaged.perm hlength, hall⟩
    refine ⟨?_, fun hsupply => hiff.mpr ?_⟩
    · rw [hiff, expects_iff_fits hstaged, or_iff_right hworks.unskipped]
    · exact expects_of_supply (origin_of_run hearlier).rows.tmp hsupply hstaged

end ChunkFiles

/-! ### Two documents of one plan -/

open Foundation

def twoCiks : Roster := ⟨"r", [("1", "a"), ("2", "b")], by decide⟩

def documentOf (inputFingerprint : String) : Plan where
  planId := derivePlanId sha256Hex "r" 2 "full" "" ""
  roster := twoCiks
  chunkSize := 2
  kind := "full"
  parentId := ""
  inputName := "cohort"
  inputFingerprint := inputFingerprint
  archiveSourceId := ""
  archiveSha256 := ""
  chunkSize_pos := by decide

def plainCall (inputFingerprint : String) : ChunkCall Unit where
  plan := documentOf inputFingerprint
  snapshotId := none
  force := false
  fingerprints := none
  carryRows := .empty
  carryRows_keyed e he := by cases he

def digestOf : ParquetFile Unit → String
  | .table rows => sha256Text sha256Hex
      (joinWith "\n" (rows.map fun row => row.cik ++ "," ++ row.inputFingerprint.getD ""))
  | .otherSchema rowCount => sha256Text sha256Hex (toString rowCount)
  | .unreadable => sha256Hex []

def someFetch : Fetched Unit := ⟨"2025-01-01T00:00:00Z", "ok", 0, ()⟩

def interrupted (inputFingerprint : String) : List (ChunkAction Unit) :=
  [.call (plainCall inputFingerprint), .advance, .advance, .advance, .fetched "1" someFetch, .raise true]

def resumed : List (ChunkAction Unit) :=
  [.advance, .advance, .advance, .fetched "2" someFetch, .advance, .advance, .advance, .advance, .advance,
    .advance]

def finalRows (inputFingerprint : String) : List (Row Unit) :=
  [(plainCall inputFingerprint).normalizeOneCik "1" someFetch, (plainCall "B").normalizeOneCik "2" someFetch]

theorem run_interrupted_resumed {inputFingerprint : String}
    (h : inputFingerprint = "A" ∨ inputFingerprint = "B") :
    ((run (ChunkFiles.step digestOf 0) (.initial none) (interrupted inputFingerprint)).bind fun s₀ =>
      run (ChunkFiles.step digestOf 0) s₀ (.call (plainCall "B") :: resumed)).map
        (fun s => (s.phase, s.file)) =
      some (.returned (plainCall "B") ⟨0, 2, false, countStatuses (finalRows inputFingerprint), 0⟩,
        some (.table (finalRows inputFingerprint))) := by
  rcases h with rfl | rfl <;> rfl

theorem resumed_returns {inputFingerprint : String}
    (h : inputFingerprint = "A" ∨ inputFingerprint = "B") : ∃ s₀ s result,
    run (ChunkFiles.step digestOf 0) (.initial none) (interrupted inputFingerprint) = some s₀ ∧
    run (ChunkFiles.step digestOf 0) s₀ (.call (plainCall "B") :: resumed) = some s ∧
    s.phase = .returned (plainCall "B") result ∧ s.file = some (.table (finalRows inputFingerprint)) := by
  obtain ⟨s, hrun, hend⟩ := Option.map_eq_some_iff.mp (run_interrupted_resumed h)
  obtain ⟨s₀, hearlier, hrun⟩ := Option.bind_eq_some_iff.mp hrun
  obtain ⟨hphase, hfile⟩ := Prod.mk.inj hend
  exact ⟨s₀, s, _, hearlier, hrun, hphase, hfile⟩

theorem runChunk_done_iff_resumed : ∃ s₀ s result,
    run (ChunkFiles.step digestOf 0) (.initial none) (interrupted "B") = some s₀ ∧
    run (ChunkFiles.step digestOf 0) s₀ (.call (plainCall "B") :: resumed) = some s ∧
    s.phase = .returned (plainCall "B") result ∧
    (ChunkFiles.Done 0 digestOf (plainCall "B") s.file ↔
      ChunkFiles.Skips 0 digestOf s₀ (plainCall "B") ∨ ChunkFiles.Fits 0 s₀ (plainCall "B")) ∧
    (ChunkFiles.Supply 0 [plainCall "B", plainCall "B"] (plainCall "B") →
      ChunkFiles.Done 0 digestOf (plainCall "B") s.file) := by
  obtain ⟨s₀, s, result, hearlier, hrun, hreturned, -⟩ := resumed_returns (.inr rfl)
  have hown : ∀ a ∈ resumed, a.call? = none := by decide +kernel
  exact ⟨s₀, s, result, hearlier, hrun, hreturned,
    ChunkFiles.runChunk_done_iff hearlier hrun hown hreturned⟩

/-- A call under one document of the plan is interrupted, and a call under another returns: it
keeps the row of the first, and the chunk does not count as done. -/
theorem runChunk_not_done : ∃ s₀ s result,
    run (ChunkFiles.step digestOf 0) (.initial none) (interrupted "A") = some s₀ ∧
    run (ChunkFiles.step digestOf 0) s₀ (.call (plainCall "B") :: resumed) = some s ∧
    s.phase = .returned (plainCall "B") result ∧
    (documentOf "A").Identified sha256Hex ∧ (documentOf "B").Identified sha256Hex ∧
    (documentOf "A").planId = (documentOf "B").planId ∧
    ¬ ChunkFiles.Done 0 digestOf (plainCall "B") s.file := by
  obtain ⟨s₀, s, result, hearlier, hrun, hreturned, hfile⟩ := resumed_returns (.inl rfl)
  refine ⟨s₀, s, result, hearlier, hrun, hreturned, rfl, rfl, rfl, ?_⟩
  rintro ⟨info, hinfo, -⟩
  have hnone : (plainCall "B").inspect digestOf 0 (some (.table (finalRows "A"))) = none := by decide +kernel
  rw [hfile, hnone] at hinfo
  cases hinfo

end EdgarSec.MetadataSync
