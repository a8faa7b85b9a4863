import EdgarSec.MetadataSync.Merging
import EdgarSec.MetadataSync.ChunkDone

/-! A published snapshot has each of its CIKs once: those of the roster after a merge, those
of the base and of the delta after an augmentation. -/

namespace EdgarSec.MetadataSync
open Foundation Lib Dag

variable {ρ : Type}

/-! ## What the queries find -/

section Queries

def fileCiks : DatasetFile ρ → List (Option String)
  | .table rows => rows.map DatasetRow.cik
  | _ => []

def partCiks (files : PartFiles ρ) (path : PartPath) : List (Option String) :=
  ((files path).map fileCiks).getD []

def publishedCiks (files : PartFiles ρ) (report : MergeReport) : List (Option String) :=
  report.parts.flatMap fun part => partCiks files part.path

theorem readCiks_eq_ok {tables : List (DatasetFile ρ)} {ciks : List (Option String)}
    (h : readCiks tables = .ok ciks) : ciks = tables.flatMap fileCiks := by
  unfold readCiks at h
  obtain ⟨rows, hrows, h⟩ := bind_eq_ok.mp h
  have hcolumns : rows.map (fun t => t.map DatasetRow.cik) = tables.map fileCiks := by
    apply map_mapM hrows
    intro file hfile t ht
    cases file with
    | table t' => rw [← Except.ok.inj ht, fileCiks]
    | otherSchema n => cases ht
    | unreadable => cases ht
  rw [← Except.ok.inj h, List.map_flatten, hcolumns, List.flatMap_def]

theorem fileCiks_of_readPart {files : PartFiles ρ} {path : PartPath} {file : DatasetFile ρ}
    (h : readPart files path = .ok file) : fileCiks file = partCiks files path := by
  unfold readPart at h
  cases hfile : files path with
  | none => simp [hfile] at h
  | some file' =>
    rw [hfile] at h
    rw [partCiks, hfile, ← Except.ok.inj h]
    rfl

theorem readPartCiks_eq_ok {files : PartFiles ρ} {paths : List PartPath} {ciks : List (Option String)}
    (h : readPartCiks files paths = .ok ciks) : ciks = paths.flatMap (partCiks files) := by
  obtain ⟨tables, htables, h⟩ := bind_eq_ok.mp h
  have hcolumns : tables.map fileCiks = paths.map (partCiks files) :=
    map_mapM htables fun path _ file hfile => fileCiks_of_readPart hfile
  rw [readCiks_eq_ok h, List.flatMap_def, hcolumns, List.flatMap_def]

theorem exceptCount_eq_zero {a b : List (Option String)} : exceptCount a b = 0 ↔ a ⊆ b := by
  unfold exceptCount
  rw [List.length_eq_zero_iff, List.dedup_eq_nil, List.filter_eq_nil_iff]
  simp only [decide_eq_true_eq, not_not]
  exact Iff.rfl

theorem findDuplicateKeys_eq_nil {ciks : List (Option String)} :
    findDuplicateKeys ciks = [] ↔ ciks.Nodup := by
  unfold findDuplicateKeys
  rw [List.take_eq_nil_iff, List.dedup_eq_nil, List.filter_eq_nil_iff, List.nodup_iff_count_le_one]
  simp only [decide_eq_true_eq, not_lt, OfNat.ofNat_ne_zero, false_or]
  constructor
  · intro h cik
    by_cases hmem : cik ∈ ciks
    · exact h cik hmem
    · rw [List.count_eq_zero_of_not_mem hmem]
      exact Nat.zero_le 1
  · exact fun h cik _ => h cik

end Queries

/-! ## The chunks of a plan -/

section Chunks
variable {plan : Plan}

theorem map_fst_filter_zipIdx {α : Type} (l : List α) (k a b : Nat) :
    ((l.zipIdx k).filter fun p => decide (a ≤ p.2 ∧ p.2 < b)).map Prod.fst = (l.take (b - k)).drop (a - k) := by
  induction l generalizing k with
  | nil => simp
  | cons x l ih =>
    rw [List.zipIdx_cons, List.filter_cons]
    have htail := ih (k + 1)
    by_cases hb : k < b
    · have hsucc : b - k = b - (k + 1) + 1 := by omega
      by_cases ha : a ≤ k
      · have hzero : a - k = 0 := by omega
        have hzero' : a - (k + 1) = 0 := by omega
        rw [if_pos (decide_eq_true ⟨ha, hb⟩), List.map_cons, htail, hsucc, hzero, hzero', List.take_succ_cons]
        rfl
      · have hsucc' : a - k = a - (k + 1) + 1 := by omega
        rw [if_neg (by simp [ha]), htail, hsucc, hsucc', List.take_succ_cons, List.drop_succ_cons]
    · have hzero : b - k = 0 := by omega
      have hzero' : b - (k + 1) = 0 := by omega
      rw [if_neg (by simp [hb]), htail, hzero, hzero']
      simp

theorem expectedCiks_perm (dataset : RosterDataset plan.roster) (chunkId : Nat) :
    (expectedCiks dataset (chunkId * plan.chunkSize) (chunkId * plan.chunkSize + plan.chunkLength chunkId)).Perm
      ((plan.chunkCiks chunkId).map some) := by
  unfold expectedCiks
  apply ((dataset.perm.filter _).map _).trans
  have hrange := map_fst_filter_zipIdx plan.roster.ciks 0 (chunkId * plan.chunkSize)
    (chunkId * plan.chunkSize + plan.chunkLength chunkId)
  rw [Nat.sub_zero, Nat.sub_zero, List.drop_take, Nat.add_sub_cancel_left] at hrange
  have hcolumn : (fun p : String × Nat => some p.1) = some ∘ Prod.fst := rfl
  rw [Plan.chunkCiks, Roster.rangeCiks, ← hrange, List.map_map, hcolumn]

theorem length_chunkCiks {chunkId : Nat} (h : plan.requireChunk chunkId = .ok ()) :
    (plan.chunkCiks chunkId).length = plan.chunkLength chunkId := by
  have hlt := Plan.start_lt_of_requireChunk h
  unfold Plan.chunkCiks Roster.rangeCiks Plan.chunkLength Roster.ciks Roster.rowCount at *
  rw [List.length_take, List.length_drop, List.length_map]
  omega

theorem chunkLength_pos {chunkId : Nat} (h : plan.requireChunk chunkId = .ok ()) :
    0 < plan.chunkLength chunkId := by
  rw [← length_chunkCiks h]
  exact List.length_pos_iff.mpr (Plan.chunkCiks_ne_nil h)

theorem flatMap_chunkCiks (plan : Plan) : plan.chunkIds.flatMap plan.chunkCiks = plan.roster.ciks := by
  have hprefix : ∀ n, n ≤ plan.chunkCount →
      (List.range n).flatMap plan.chunkCiks = plan.roster.ciks.take (n * plan.chunkSize) := by
    intro n
    induction n with
    | zero => simp
    | succ n ih =>
      intro hn
      have hchunk : plan.chunkCiks n =
          (plan.roster.ciks.drop (n * plan.chunkSize)).take plan.chunkSize := by
        unfold Plan.chunkCiks Roster.rangeCiks Plan.chunkLength
        rw [List.take_eq_take_iff, List.length_drop]
        unfold Roster.ciks Roster.rowCount
        rw [List.length_map]
        omega
      rw [List.range_succ, List.flatMap_append, List.flatMap_singleton, ih (Nat.le_of_succ_le hn), hchunk,
        Nat.succ_mul, List.take_add]
  rw [Plan.chunkIds, hprefix _ le_rfl]
  apply List.take_of_length_le
  have hpos := plan.chunkSize_pos
  have hcover := Nat.div_add_mod (plan.roster.rowCount + plan.chunkSize - 1) plan.chunkSize
  have hmod := Nat.mod_lt (plan.roster.rowCount + plan.chunkSize - 1) hpos
  rw [Nat.mul_comm] at hcover
  unfold Plan.chunkCount
  have hlength : plan.roster.ciks.length = plan.roster.rowCount := List.length_map _
  omega

variable {chunkIdOf : String → Option Int} {dataset : Option (RosterDataset plan.roster)}
  {fingerprintsFile : Option (List (String × String))} {chunkDir chunks : List (String × DatasetFile ρ)}

theorem fileCiks_of_checked {dataset : RosterDataset plan.roster} {chunkId : Nat} {entry : String × DatasetFile ρ}
    (hplanned : plan.requireChunk chunkId = .ok ()) (hrows : checkChunkRows plan chunkId (some entry) = .ok ())
    (hcontents : checkChunkContents plan dataset fingerprintsFile chunkId (some entry) = .ok ()) :
    ∃ rows, entry.2 = .table rows ∧ rows ≠ [] ∧
      (fileCiks entry.2).Perm ((plan.chunkCiks chunkId).map some) := by
  obtain ⟨stem, file⟩ := entry
  cases file with
  | otherSchema n => cases hrows
  | unreadable => cases hrows
  | table rows =>
    have hlength : rows.length = plan.chunkLength chunkId := ensure_eq_ok.mp hrows
    obtain ⟨_, hcoverage, -⟩ := bind_eq_ok.mp hcontents
    have hzero := Nat.add_eq_zero_iff.mp (ensure_eq_ok.mp hcoverage)
    have hexpected := expectedCiks_perm dataset chunkId
    have hcovers : (plan.chunkCiks chunkId).map some ⊆ rows.map DatasetRow.cik :=
      List.Subset.trans hexpected.symm.subset (exceptCount_eq_zero.mp hzero.1)
    have hnodup : ((plan.chunkCiks chunkId).map some).Nodup :=
      (plan.chunkCiks_nodup chunkId).map (Option.some_injective _)
    refine ⟨rows, rfl, ?_, ?_⟩
    · rintro rfl
      exact absurd hlength (chunkLength_pos hplanned).ne
    · apply ((List.subperm_of_subset hnodup hcovers).perm_of_length_le _).symm
      rw [List.length_map, List.length_map, hlength, length_chunkCiks hplanned]

theorem mem_keys_foundChunks {ids : List Int} {found : Dict Int (String × DatasetFile ρ)}
    (hforeign : (found.keys.filter fun chunkId => decide (chunkId ∉ ids)) = [])
    (hmissing : (ids.filter fun chunkId => decide (chunkId ∉ found.keys)) = []) (hids : ids.Nodup) :
    (found.keys.insertionSort (· ≤ ·)).Perm ids := by
  apply (List.perm_insertionSort _ _).trans
  apply (List.perm_ext_iff_of_nodup found.nodup hids).mpr
  simp only [List.filter_eq_nil_iff, decide_eq_true_eq, not_not] at hforeign hmissing
  exact fun chunkId => ⟨hforeign chunkId, hmissing chunkId⟩

theorem validateChunks_eq_ok (h : validateChunks chunkIdOf plan dataset fingerprintsFile chunkDir = .ok chunks) :
    ((chunks.map Prod.snd).flatMap fileCiks).Perm (plan.roster.ciks.map some) ∧
      ∀ chunk ∈ chunks, ∃ rows, chunk.2 = .table rows ∧ rows ≠ [] := by
  obtain ⟨_, -, h⟩ := bind_eq_ok.mp h
  obtain ⟨_, hforeign, h⟩ := bind_eq_ok.mp h
  obtain ⟨_, hmissing, h⟩ := bind_eq_ok.mp h
  obtain ⟨_, hrows, h⟩ := bind_eq_ok.mp h
  cases dataset with
  | none => cases h
  | some dataset =>
    obtain ⟨_, -, h⟩ := bind_eq_ok.mp h
    obtain ⟨_, hcontents, h⟩ := bind_eq_ok.mp h
    generalize hfound : foundChunks chunkIdOf chunkDir = found at *
    have hids : (plan.chunkIds.map Int.ofNat).Nodup :=
      List.nodup_range.map fun _ _ heq => Int.ofNat.inj heq
    have hperm := mem_keys_foundChunks (ensure_eq_ok.mp hforeign) (ensure_eq_ok.mp hmissing) hids
    -- every planned chunk has its checked file
    have hchecked : ∀ chunkId ∈ plan.chunkIds, ∃ entry rows, found.get? chunkId = some entry ∧
        entry.2 = .table rows ∧ rows ≠ [] ∧ (fileCiks entry.2).Perm ((plan.chunkCiks chunkId).map some) := by
      intro chunkId hid
      have hr := forM_eq_ok.mp hrows chunkId hid
      have hc := forM_eq_ok.mp hcontents chunkId hid
      cases hentry : found.get? chunkId with
      | none =>
        rw [hentry] at hr
        cases hr
      | some entry =>
        rw [hentry] at hr hc
        obtain ⟨rows, htable, hne, hp⟩ := fileCiks_of_checked (Plan.mem_chunkIds.mp hid) hr hc
        exact ⟨entry, rows, rfl, htable, hne, hp⟩
    obtain rfl := Except.ok.inj h
    constructor
    · have hfiles := (((hperm.filterMap found.get?).map Prod.snd).flatMap_right fileCiks)
      apply hfiles.trans
      rw [← flatMap_chunkCiks, List.map_flatMap, List.filterMap_map, List.map_filterMap]
      have hsteps : ∀ l : List Nat, (∀ chunkId ∈ l, chunkId ∈ plan.chunkIds) →
          ((l.filterMap fun chunkId => (found.get? (Int.ofNat chunkId)).map Prod.snd).flatMap fileCiks).Perm
            (l.flatMap fun chunkId => (plan.chunkCiks chunkId).map some) := by
        intro l hl
        induction l with
        | nil => exact .nil
        | cons chunkId l ih =>
          obtain ⟨entry, rows, hget, -, -, hp⟩ := hchecked chunkId (hl chunkId List.mem_cons_self)
          have hget' : found.get? (Int.ofNat chunkId) = some entry := hget
          have hrest := ih fun id hid => hl id (List.mem_cons_of_mem _ hid)
          rw [List.filterMap_cons, hget', Option.map_some, List.flatMap_cons, List.flatMap_cons]
          exact hp.append hrest
      exact hsteps plan.chunkIds fun _ hid => hid
    · intro chunk hchunk
      obtain ⟨id, hid, hget⟩ := List.mem_filterMap.mp hchunk
      obtain ⟨chunkId, hplanned, rfl⟩ := List.mem_map.mp (hperm.mem_iff.mp hid)
      obtain ⟨entry, rows, hentry, htable, hne, -⟩ := hchecked chunkId hplanned
      have hget' : found.get? chunkId = some chunk := hget
      obtain rfl := Option.some.inj (hentry.symm.trans hget')
      exact ⟨rows, htable, hne⟩

end Chunks

/-! ## The published parts -/

section Publication
variable {fileSha256 : DatasetFile ρ → String} {snapshotId : String} {index chunkIndex : Nat}
  {files files' : PartFiles ρ} {parts : List PublishedPart} {chunks : List (String × DatasetFile ρ)}

structure Copied (fileSha256 : DatasetFile ρ → String) (files files' : PartFiles ρ) (snapshotId : String)
    (chunkIndex : Nat) (chunks : List (String × DatasetFile ρ)) (parts : List PublishedPart) : Prop where
  tables : ∀ chunk ∈ chunks, ∃ rows, chunk.2 = .table rows
  records : List.Forall₂ (fun part chunk => files' part.path = some chunk.2 ∧
    part.sha256 = fileSha256 chunk.2) parts chunks
  frame : ∀ path, (∀ k, chunkIndex ≤ k → path ≠ ⟨snapshotId, partFileName k⟩) → files' path = files path
  overwritten : ∀ path, files' path = files path ∨ ∃ chunk ∈ chunks, files' path = some chunk.2

theorem copied_of_publishParts
    (h : publishParts fileSha256 snapshotId index chunkIndex files (chunkSources chunks) = .ok (parts, files')) :
    Copied fileSha256 files files' snapshotId chunkIndex chunks parts := by
  induction chunks generalizing index chunkIndex files parts with
  | nil =>
    obtain ⟨rfl, rfl⟩ := Prod.mk.inj (Except.ok.inj h)
    exact ⟨by simp, .nil, fun _ _ => rfl, fun _ => .inl rfl⟩
  | cons chunk chunks ih =>
    obtain ⟨stem, file⟩ := chunk
    cases file with
    | otherSchema n => cases h
    | unreadable => cases h
    | table rows =>
      obtain ⟨⟨rest, files₁⟩, hrest, h⟩ := bind_eq_ok.mp h
      obtain ⟨rfl, rfl⟩ := Prod.mk.inj (Except.ok.inj h)
      have hcopied := ih hrest
      -- the later copies have higher numbers
      have hkept : files₁ ⟨snapshotId, partFileName chunkIndex⟩ = some (.table rows) := by
        have hframe := hcopied.frame ⟨snapshotId, partFileName chunkIndex⟩
        rw [Function.update_self] at hframe
        apply hframe
        intro k hk heq
        have hnumber := partFileName_injective (PartPath.mk.inj heq).2
        omega
      constructor
      · intro c hc
        rcases List.mem_cons.mp hc with rfl | hc
        · exact ⟨rows, rfl⟩
        · exact hcopied.tables c hc
      · exact .cons ⟨hkept, rfl⟩ hcopied.records
      · intro path hpath
        rw [hcopied.frame path fun k hk => hpath k (Nat.le_of_succ_le hk)]
        exact Function.update_of_ne (hpath chunkIndex le_rfl) _ _
      · intro path
        rcases hcopied.overwritten path with hsame | ⟨c, hc, hnow⟩
        · by_cases hhere : path = ⟨snapshotId, partFileName chunkIndex⟩
          · subst hhere
            exact .inr ⟨(stem, .table rows), List.mem_cons_self, hkept⟩
          · rw [hsame, Function.update_of_ne hhere]
            exact .inl rfl
        · exact .inr ⟨c, List.mem_cons_of_mem _ hc, hnow⟩

theorem Copied.flatMap_partCiks (h : Copied fileSha256 files files' snapshotId chunkIndex chunks parts) :
    parts.flatMap (fun part => partCiks files' part.path) = (chunks.map Prod.snd).flatMap fileCiks := by
  have hcolumn : parts.map (fun part => partCiks files' part.path) = chunks.map (fun chunk => fileCiks chunk.2) := by
    apply List.forall₂_eq_eq_eq ▸ List.forall₂_map_left_iff.mpr (List.forall₂_map_right_iff.mpr _)
    apply h.records.imp
    intro part chunk hpart
    rw [partCiks, hpart.1]
    rfl
  rw [List.flatMap_def, hcolumn, List.flatMap_map, ← List.flatMap_def]

theorem Copied.chunk_of_part (h : Copied fileSha256 files files' snapshotId chunkIndex chunks parts)
    {part : PublishedPart} (hpart : part ∈ parts) : ∃ chunk ∈ chunks, files' part.path = some chunk.2 := by
  obtain ⟨hlength, hrecords⟩ := List.forall₂_iff_get.mp h.records
  obtain ⟨i, hi, rfl⟩ := List.getElem_of_mem hpart
  have hi' : i < chunks.length := hlength ▸ hi
  exact ⟨chunks[i], List.getElem_mem hi', (hrecords i hi hi').1⟩

theorem publishParts_base {label : PartPath × Nat → String} {paths : List (PartPath × Nat)}
    {rest : List (PartSource ρ)}
    (h : publishParts fileSha256 snapshotId index chunkIndex files
      (paths.map (fun p => .base (label p) p.1) ++ rest) = .ok (parts, files')) :
    ∃ baseParts restParts restIndex, parts = baseParts ++ restParts ∧
      baseParts.map PublishedPart.path = paths.map Prod.fst ∧
      publishParts fileSha256 snapshotId restIndex chunkIndex files rest = .ok (restParts, files') := by
  induction paths generalizing index parts with
  | nil => exact ⟨[], parts, index, rfl, rfl, h⟩
  | cons p paths ih =>
    rw [List.map_cons, List.cons_append, publishParts] at h
    cases hfile : files p.1 with
    | none => simp [hfile] at h
    | some file =>
      rw [hfile] at h
      obtain ⟨rowCount, -, h⟩ := bind_eq_ok.mp h
      obtain ⟨⟨others, files₁⟩, hothers, h⟩ := bind_eq_ok.mp h
      obtain ⟨rfl, rfl⟩ := Prod.mk.inj (Except.ok.inj h)
      obtain ⟨baseParts, restParts, restIndex, rfl, hpaths, hrest⟩ := ih hothers
      exact ⟨_ :: baseParts, restParts, restIndex, rfl, by rw [List.map_cons, hpaths]; rfl, hrest⟩

/-- A snapshot as publication leaves it: its parts are tables with rows, its index lists
their CIKs. -/
structure Published (files : PartFiles ρ) (report : MergeReport) : Prop where
  tables : ∀ part ∈ report.parts, ∃ rows, files part.path = some (.table rows) ∧ rows ≠ []
  index : ∀ cik, cik ∈ report.cikIndex ↔ cik ∈ publishedCiks files report

theorem mem_publishCikIndex {paths : List PartPath} {cikIndex : List (Option String)}
    (h : publishCikIndex files paths = .ok cikIndex) {cik : Option String} :
    cik ∈ cikIndex ↔ cik ∈ paths.flatMap (partCiks files) := by
  obtain ⟨_, -, h⟩ := bind_eq_ok.mp h
  obtain ⟨ciks, hciks, h⟩ := bind_eq_ok.mp h
  obtain ⟨_, -, h⟩ := bind_eq_ok.mp h
  rw [← Except.ok.inj h, distinctCiks, (List.perm_insertionSort _ _).mem_iff, List.mem_dedup, readPartCiks_eq_ok hciks]

theorem flatMap_paths (parts : List PublishedPart) :
    (parts.map PublishedPart.path).flatMap (partCiks files) = parts.flatMap fun part => partCiks files part.path :=
  List.flatMap_map _ _ _

theorem mergeChunks_spec {plan : Plan} {chunkIdOf : String → Option Int}
    {dataset : Option (RosterDataset plan.roster)} {fingerprintsFile : Option (List (String × String))}
    {chunkDir : List (String × DatasetFile ρ)} {report : MergeReport}
    (h : mergeChunks chunkIdOf fileSha256 plan dataset fingerprintsFile chunkDir snapshotId files =
      .ok (report, files')) :
    (publishedCiks files' report).Perm (plan.roster.ciks.map some) ∧ Published files' report := by
  obtain ⟨_, -, h⟩ := bind_eq_ok.mp h
  obtain ⟨chunks, hchunks, h⟩ := bind_eq_ok.mp h
  obtain ⟨_, -, h⟩ := bind_eq_ok.mp h
  obtain ⟨_, -, h⟩ := bind_eq_ok.mp h
  obtain ⟨_, -, h⟩ := bind_eq_ok.mp h
  obtain ⟨⟨parts, files₁⟩, hparts, h⟩ := bind_eq_ok.mp h
  obtain ⟨_, -, h⟩ := bind_eq_ok.mp h
  obtain ⟨cikIndex, hindex, h⟩ := bind_eq_ok.mp h
  obtain ⟨rfl, rfl⟩ := Prod.mk.inj (Except.ok.inj h)
  have hcopied := copied_of_publishParts hparts
  obtain ⟨hroster, htables⟩ := validateChunks_eq_ok hchunks
  refine ⟨?_, ?_, ?_⟩
  · rw [publishedCiks, hcopied.flatMap_partCiks]
    exact hroster
  · intro part hpart
    obtain ⟨chunk, hchunk, hfile⟩ := hcopied.chunk_of_part hpart
    obtain ⟨rows, htable, hne⟩ := htables chunk hchunk
    exact ⟨rows, by rw [hfile, htable], hne⟩
  · intro cik
    rw [mem_publishCikIndex hindex, flatMap_paths]
    rfl

end Publication

/-! ## Augmentation -/

section Augmentation
variable {fileSha256 : DatasetFile ρ → String} {snapshotId : String} {files files' : PartFiles ρ}
  {base : MergeReport} {restParts : List PublishedPart} {chunks : List (String × DatasetFile ρ)}

theorem base_unchanged (hbase : Published files base)
    (hcopied : Copied fileSha256 files files' snapshotId 0 chunks restParts)
    (hnodup : (publishedCiks files base ++ (chunks.map Prod.snd).flatMap fileCiks).Nodup)
    (hseen : ∀ part ∈ base.parts, files' part.path = files part.path ∨
      ∀ cik ∈ partCiks files part.path,
        cik ∈ publishedCiks files' base ++ (chunks.map Prod.snd).flatMap fileCiks) :
    ∀ part ∈ base.parts, files' part.path = files part.path := by
  have hdisjoint := List.disjoint_of_nodup_append hnodup
  have hparts := (List.nodup_append.mp hnodup).1
  intro part hpart
  rcases hcopied.overwritten part.path with hsame | ⟨chunk, hchunk, hnow⟩
  · exact hsame
  rcases hseen part hpart with hsame | hseen
  · exact hsame
  obtain ⟨rows, htable, hne⟩ := hbase.tables part hpart
  obtain ⟨row, hrow⟩ := List.exists_mem_of_ne_nil _ hne
  have hcik : row.cik ∈ partCiks files part.path := by
    rw [partCiks, htable]
    exact List.mem_map_of_mem hrow
  have hbaseCik : row.cik ∈ publishedCiks files base := List.mem_flatMap.mpr ⟨part, hpart, hcik⟩
  have hfresh : ∀ c ∈ chunks, row.cik ∉ fileCiks c.2 := by
    intro c hc hmem
    exact hdisjoint hbaseCik (List.mem_flatMap.mpr ⟨c.2, List.mem_map_of_mem hc, hmem⟩)
  rcases List.mem_append.mp (hseen row.cik hcik) with hmerged | hchunks
  · obtain ⟨other, hother, hmem⟩ := List.mem_flatMap.mp hmerged
    rcases hcopied.overwritten other.path with hsame | ⟨c, hc, hother'⟩
    · rw [partCiks, hsame] at hmem
      by_cases hpath : other.path = part.path
      · rw [← hpath, hsame]
      · have hapart := (List.nodup_flatMap.mp hparts).2
        have hsymm : Std.Symm (Function.onFun List.Disjoint fun p : PublishedPart => partCiks files p.path) :=
          ⟨fun _ _ h => h.symm⟩
        have hne' : other ≠ part := fun heq => hpath (congrArg PublishedPart.path heq)
        exact absurd hcik (hapart.forall hother hpart hne' hmem)
    · rw [partCiks, hother'] at hmem
      exact absurd hmem (hfresh c hc)
  · obtain ⟨file, hfile, hmem⟩ := List.mem_flatMap.mp hchunks
    obtain ⟨c, hc, rfl⟩ := List.mem_map.mp hfile
    exact absurd hmem (hfresh c hc)

theorem resolvePart_eq_ok {part : PublishedPart} {path : PartPath}
    (h : resolvePart fileSha256 files part = .ok path) :
    path = part.path ∧ ∃ file, files part.path = some file ∧ fileSha256 file = part.sha256 := by
  unfold resolvePart at h
  cases hfile : files part.path with
  | none => simp [hfile] at h
  | some file =>
    rw [hfile] at h
    obtain ⟨_, hdigest, h⟩ := bind_eq_ok.mp h
    exact ⟨(Except.ok.inj h).symm, file, rfl, (ensure_eq_ok.mp hdigest).2⟩

theorem resolveSnapshotParts_eq_ok {paths : List PartPath}
    (h : resolveSnapshotParts fileSha256 files base = .ok paths) :
    paths = base.parts.map PublishedPart.path ∧ ∀ part ∈ base.parts, ∃ file,
      files part.path = some file ∧ fileSha256 file = part.sha256 := by
  obtain ⟨_, -, h⟩ := bind_eq_ok.mp h
  constructor
  · have hcolumn := @map_mapM _ _ _ _ _ id _ _ _ h fun part _ path hpath => (resolvePart_eq_ok hpath).1
    rwa [List.map_id] at hcolumn
  · intro part hpart
    obtain ⟨path, hpath⟩ := exists_of_mapM h hpart
    exact (resolvePart_eq_ok hpath).2

def deltaCiks (requested : Roster) (baseCiks : List (Option String)) : List (Option String) :=
  (deltaRows requested baseCiks).map fun row => some row.1

theorem deltaCiks_congr {requested : Roster} {carried carried' : List (Option String)}
    (h : ∀ cik, cik ∈ carried ↔ cik ∈ carried') : deltaCiks requested carried = deltaCiks requested carried' := by
  have hrows : deltaRows requested carried = deltaRows requested carried' := by
    apply List.filter_congr
    intro row _
    rw [decide_eq_decide, h]
  rw [deltaCiks, hrows, deltaCiks]

theorem deltaCiks_nodup (requested : Roster) (ciks : List (Option String)) : (deltaCiks requested ciks).Nodup := by
  have hsub : ((deltaRows requested ciks).map Prod.fst).Nodup :=
    requested.nodup.sublist (List.filter_sublist.map Prod.fst)
  have hmap := hsub.map (Option.some_injective String)
  rwa [List.map_map] at hmap

theorem not_mem_of_mem_deltaCiks {requested : Roster} {ciks : List (Option String)} {cik : Option String}
    (h : cik ∈ deltaCiks requested ciks) : cik ∉ ciks := by
  obtain ⟨row, hrow, rfl⟩ := List.mem_map.mp h
  exact of_decide_eq_true (List.mem_filter.mp hrow).2

theorem mem_baseCiks {resolvedIndex : Option (List (Option String))} (hbase : Published files base)
    (hindex : ∀ index, resolvedIndex = some index → index = base.cikIndex) {carried : List (Option String)}
    (h : baseCiks fileSha256 files base resolvedIndex = .ok carried) (cik : Option String) :
    cik ∈ carried ↔ cik ∈ publishedCiks files base := by
  cases resolvedIndex with
  | some index =>
    rw [← Except.ok.inj h, hindex index rfl]
    exact hbase.index cik
  | none =>
    obtain ⟨paths, hpaths, h⟩ := bind_eq_ok.mp h
    rw [readPartCiks_eq_ok h, (resolveSnapshotParts_eq_ok hpaths).1, flatMap_paths]
    rfl

structure Extends (fileSha256 : DatasetFile ρ → String) (call : AugmentCall)
    (chunkFile : Nat → Option (DatasetFile ρ)) (files files' : PartFiles ρ) (report : MergeReport)
    (snapshotId : String) (chunks : List (String × DatasetFile ρ)) (restParts : List PublishedPart)
    (carried carriedNow : List (Option String)) : Prop where
  atStart : baseCiks fileSha256 files call.base call.resolvedIndex = .ok carried
  fromDelta : ∀ chunk ∈ chunks, ∃ chunkId, chunkFile chunkId = some chunk.2
  nodup : (publishedCiks files call.base ++ (chunks.map Prod.snd).flatMap fileCiks).Nodup
  copied : Copied fileSha256 files files' snapshotId 0 chunks restParts
  published : publishedCiks files' report =
    publishedCiks files' call.base ++ (chunks.map Prod.snd).flatMap fileCiks
  paths : ∀ part ∈ call.base.parts, part.path ∈ report.parts.map PublishedPart.path
  atEnd : baseCiks fileSha256 files' call.base call.resolvedIndex = .ok carriedNow
  same : ∀ cik, cik ∈ publishedCiks files' report ↔ cik ∈ carriedNow ∨ cik ∈ deltaCiks call.requested carried

theorem deltaChunks_eq_ok {plan : Plan} {chunkFile : Nat → Option (DatasetFile ρ)}
    (h : deltaChunks plan chunkFile = .ok chunks) :
    ∀ chunk ∈ chunks, ∃ chunkId, chunkFile chunkId = some chunk.2 := by
  intro chunk hchunk
  obtain ⟨chunkId, -, hread⟩ := (mem_mapM h).mp hchunk
  cases hfile : chunkFile chunkId with
  | none => simp [hfile] at hread
  | some file =>
    rw [hfile] at hread
    exact ⟨chunkId, by rw [← Except.ok.inj hread, hfile]⟩

theorem augment_eq_ok {sha256 : Bytes → String} {rosterId : List (String × String) → String}
    {publishSnapshot : MergeReport → Except String Unit} {call : AugmentCall}
    {chunkFile : Nat → Option (DatasetFile ρ)} {result : AugmentResult}
    (h : augment fileSha256 sha256 rosterId publishSnapshot call chunkFile files = .ok (result, files')) :
    (result.report = none ∧ files' = files ∧
      ∃ carried, baseCiks fileSha256 files call.base call.resolvedIndex = .ok carried ∧
        deltaCiks call.requested carried = []) ∨
    ∃ report snapshotId chunks restParts carried carriedNow, result.report = some report ∧
      Extends fileSha256 call chunkFile files files' report snapshotId chunks restParts carried carriedNow := by
  obtain ⟨carried, hcarried, h⟩ := bind_eq_ok.mp h
  obtain ⟨paths, hpaths, h⟩ := bind_eq_ok.mp h
  obtain ⟨rfl, -⟩ := resolveSnapshotParts_eq_ok hpaths
  dsimp only at h
  generalize (if call.newSnapshotId = "" then _ else call.newSnapshotId) = snapshotId at h
  split_ifs at h with hempty
  · left
    obtain ⟨rfl, rfl⟩ := Prod.mk.inj (Except.ok.inj h)
    have hnil : deltaRows call.requested carried = [] := List.eq_nil_of_length_eq_zero hempty
    exact ⟨rfl, rfl, carried, hcarried, by rw [deltaCiks, hnil]; rfl⟩
  · right
    obtain ⟨chunks, hchunks, h⟩ := bind_eq_ok.mp h
    obtain ⟨inputs, hinputs, h⟩ := bind_eq_ok.mp h
    obtain ⟨ciks, hciks, h⟩ := bind_eq_ok.mp h
    obtain ⟨_, -, h⟩ := bind_eq_ok.mp h
    obtain ⟨_, hduplicates, h⟩ := bind_eq_ok.mp h
    obtain ⟨⟨parts, files₁⟩, hparts, h⟩ := bind_eq_ok.mp h
    obtain ⟨_, -, h⟩ := bind_eq_ok.mp h
    obtain ⟨merged, hmerged, h⟩ := bind_eq_ok.mp h
    obtain ⟨carriedNow, hcarriedNow, h⟩ := bind_eq_ok.mp h
    obtain ⟨_, hstray, h⟩ := bind_eq_ok.mp h
    obtain ⟨cikIndex, -, h⟩ := bind_eq_ok.mp h
    obtain ⟨_, -, h⟩ := bind_eq_ok.mp h
    obtain ⟨rfl, rfl⟩ := Prod.mk.inj (Except.ok.inj h)
    obtain ⟨baseParts, restParts, restIndex, rfl, hbasePaths, hrest⟩ :=
      publishParts_base hparts
    rw [List.zipIdx_map_fst] at hbasePaths
    have hcopied := copied_of_publishParts hrest
    refine ⟨_, snapshotId, chunks, restParts, carried, carriedNow, rfl, ?_⟩
    constructor
    · exact hcarried
    · exact deltaChunks_eq_ok hchunks
    · have hinputCiks : inputs.map fileCiks = (call.base.parts.map PublishedPart.path).map (partCiks files) :=
        map_mapM hinputs fun path _ file hfile => fileCiks_of_readPart hfile
      have hnodup := findDuplicateKeys_eq_nil.mp (ensure_eq_ok.mp hduplicates)
      rw [readCiks_eq_ok hciks, List.flatMap_append, List.flatMap_def, hinputCiks, ← List.flatMap_def,
        flatMap_paths] at hnodup
      exact hnodup
    · exact hcopied
    · rw [publishedCiks, List.flatMap_append, hcopied.flatMap_partCiks, ← flatMap_paths, hbasePaths, flatMap_paths]
      rfl
    · intro part hpart
      rw [List.map_append, hbasePaths]
      exact List.mem_append_left _ (List.mem_map_of_mem hpart)
    · exact hcarriedNow
    · have hzero := Nat.add_eq_zero_iff.mp (ensure_eq_ok.mp hstray)
      have hsub := exceptCount_eq_zero.mp hzero.1
      have hsub' := exceptCount_eq_zero.mp hzero.2
      have hdelta : (deltaPlan sha256 (deriveDeltaRoster rosterId call.requested carried) call.chunkSize
          call.chunkSize_pos call.base.snapshotId call.inputName call.inputFingerprint).roster.ciks.map some =
            deltaCiks call.requested carried := by
        rw [deltaCiks]
        exact List.map_map
      rw [hdelta] at hsub hsub'
      rw [readPartCiks_eq_ok hmerged, flatMap_paths] at hsub hsub'
      intro cik
      rw [← List.mem_append]
      exact ⟨fun hcik => hsub hcik, fun hcik => hsub' hcik⟩

theorem augment_spec {sha256 : Bytes → String} {rosterId : List (String × String) → String}
    {publishSnapshot : MergeReport → Except String Unit} {call : AugmentCall}
    {chunkFile : Nat → Option (DatasetFile ρ)} {result : AugmentResult} (hbase : Published files call.base)
    (hindex : ∀ index, call.resolvedIndex = some index → index = call.base.cikIndex)
    (hdigests : ∀ part ∈ call.base.parts, ∀ chunkId file, chunkFile chunkId = some file →
      fileSha256 file = part.sha256 → files part.path = some file)
    (h : augment fileSha256 sha256 rosterId publishSnapshot call chunkFile files = .ok (result, files')) :
    (∀ part ∈ call.base.parts, files' part.path = files part.path) ∧
      (result.report = none → deltaCiks call.requested (publishedCiks files call.base) = []) ∧
      ∀ report, result.report = some report → (publishedCiks files' report).Nodup ∧
        (publishedCiks files' report).Perm
          (publishedCiks files call.base ++ deltaCiks call.requested (publishedCiks files call.base)) ∧
        ∀ part ∈ call.base.parts, part.path ∈ report.parts.map PublishedPart.path := by
  rcases augment_eq_ok h with ⟨hnone, rfl, carried, hcarried, hnil⟩ |
    ⟨report, snapshotId, chunks, restParts, carried, carriedNow, hsome, hextends⟩
  · have hdelta := @deltaCiks_congr call.requested _ _ (mem_baseCiks hbase hindex hcarried)
    refine ⟨fun _ _ => rfl, fun _ => hdelta ▸ hnil, fun report hreport => ?_⟩
    rw [hnone] at hreport
    cases hreport
  have hdelta := @deltaCiks_congr call.requested _ _ (mem_baseCiks hbase hindex hextends.atStart)
  -- no part of the base has been replaced
  have hunchanged : ∀ part ∈ call.base.parts, files' part.path = files part.path := by
    apply base_unchanged hbase hextends.copied hextends.nodup
    intro part hpart
    have hnow := hextends.atEnd
    cases hresolved : call.resolvedIndex with
    | some index =>
      right
      intro cik hcik
      rw [hresolved] at hnow
      rw [← hextends.published]
      apply (hextends.same cik).mpr
      left
      rw [← Except.ok.inj hnow, hindex index hresolved]
      exact (hbase.index cik).mpr (List.mem_flatMap.mpr ⟨part, hpart, hcik⟩)
    | none =>
      left
      rw [hresolved] at hnow
      obtain ⟨_, hresolve, -⟩ := bind_eq_ok.mp hnow
      obtain ⟨file, hfile, hdigest⟩ := (resolveSnapshotParts_eq_ok hresolve).2 part hpart
      rcases hextends.copied.overwritten part.path with hkept | ⟨chunk, hchunk, hreplaced⟩
      · exact hkept
      · obtain ⟨chunkId, hchunkFile⟩ := hextends.fromDelta chunk hchunk
        have hsame : chunk.2 = file := Option.some.inj (hreplaced.symm.trans hfile)
        rw [hreplaced, hdigests part hpart chunkId chunk.2 hchunkFile (hsame ▸ hdigest)]
  have hbaseNow : publishedCiks files' call.base = publishedCiks files call.base := by
    apply List.flatMap_congr
    intro part hpart
    rw [partCiks, hunchanged part hpart, partCiks]
  have hbase' : Published files' call.base := by
    constructor
    · intro part hpart
      rw [hunchanged part hpart]
      exact hbase.tables part hpart
    · intro cik
      rw [hbaseNow]
      exact hbase.index cik
  have hnodup : (publishedCiks files' report).Nodup := by
    rw [hextends.published, hbaseNow]
    exact hextends.nodup
  refine ⟨hunchanged, fun hnone => ?_, fun report' hreport' => ?_⟩
  · rw [hsome] at hnone
    cases hnone
  obtain rfl : report = report' := Option.some.inj (hsome.symm.trans hreport')
  refine ⟨hnodup, ?_, hextends.paths⟩
  apply (List.perm_ext_iff_of_nodup hnodup _).mpr
  · intro cik
    rw [hextends.same, mem_baseCiks hbase' hindex hextends.atEnd, hbaseNow, hdelta, List.mem_append]
  · apply List.nodup_append.mpr
    refine ⟨(List.nodup_append.mp hextends.nodup).1, deltaCiks_nodup _ _, ?_⟩
    rintro a ha b hb rfl
    exact not_mem_of_mem_deltaCiks hb ha

end Augmentation

section
variable (chunkIdOf : String → Option Int) (fileSha256 : DatasetFile ρ → String) (sha256 : Bytes → String)
  (rosterId : List (String × String) → String) (publishSnapshot : MergeReport → Except String Unit)

/-- A merge that returns has published each CIK of the roster once and no other. An augmentation
that returns has left the base's files alone and published the CIKs of the base and of the delta,
each once. -/
theorem snapshots_exact :
    (∀ (plan : Plan) (dataset : Option (RosterDataset plan.roster)) fingerprintsFile
        (chunkDir : List (String × DatasetFile ρ)) snapshotId files report files',
      mergeChunks chunkIdOf fileSha256 plan dataset fingerprintsFile chunkDir snapshotId files =
        .ok (report, files') →
      (publishedCiks files' report).Perm (plan.roster.ciks.map some) ∧ Published files' report) ∧
    ∀ (call : AugmentCall) (chunkFile : Nat → Option (DatasetFile ρ)) files result files',
      Published files call.base →
      (∀ index, call.resolvedIndex = some index → index = call.base.cikIndex) →
      (∀ part ∈ call.base.parts, ∀ chunkId file, chunkFile chunkId = some file →
        fileSha256 file = part.sha256 → files part.path = some file) →
      augment fileSha256 sha256 rosterId publishSnapshot call chunkFile files = .ok (result, files') →
      (∀ part ∈ call.base.parts, files' part.path = files part.path) ∧
        (result.report = none → deltaCiks call.requested (publishedCiks files call.base) = []) ∧
        ∀ report, result.report = some report → (publishedCiks files' report).Nodup ∧
          (publishedCiks files' report).Perm
            (publishedCiks files call.base ++ deltaCiks call.requested (publishedCiks files call.base)) ∧
          ∀ part ∈ call.base.parts, part.path ∈ report.parts.map PublishedPart.path :=
  ⟨fun _ _ _ _ _ _ _ _ h => mergeChunks_spec h,
    fun _ _ _ _ _ hbase hindex hdigests h => augment_spec hbase hindex hdigests h⟩

end

/-! ### A roster of two, and one more CIK -/

def datasetDigest (file : DatasetFile Unit) : String :=
  sha256Text sha256Hex (joinWith "," ((fileCiks file).map fun cik => cik.getD ""))

def chunkNumber (stem : String) : Option Int :=
  if stem = "chunk_0000" then some 0 else none

def fetchedRow (cik : String) : DatasetRow Unit := ⟨some cik, some "A", some "ok", ()⟩

def fetchedFile (ciks : List String) : DatasetFile Unit := .table (ciks.map fetchedRow)

def rosterOf (rows : List (String × String)) : String := "roster of " ++ toString rows.length

def twoRows : RosterDataset (documentOf "A").roster := ⟨_, .refl _⟩

def mergedReport : MergeReport :=
  ⟨"base", (documentOf "A").planId, "full", "", (documentOf "A").roster.rosterId, 1, 2,
    [⟨⟨"base", partFileName 0⟩, 0, "chunk:chunk_0000", 2, datasetDigest (fetchedFile ["1", "2"])⟩],
    [some "1", some "2"]⟩

def mergedFiles : PartFiles Unit :=
  Function.update (fun _ => none) ⟨"base", partFileName 0⟩ (some (fetchedFile ["1", "2"]))

theorem merge_base : mergeChunks chunkNumber datasetDigest (documentOf "A") (some twoRows) none
    [("chunk_0000", fetchedFile ["1", "2"])] "base" (fun _ => none) = .ok (mergedReport, mergedFiles) := by
  rfl

def oneMore : AugmentCall where
  requested := ⟨"wanted", [("2", "b"), ("3", "c")], by decide⟩
  base := mergedReport
  resolvedIndex := some mergedReport.cikIndex
  newSnapshotId := "extended"
  chunkSize := 2
  chunkSize_pos := Nat.zero_lt_two
  inputName := "cohort"
  inputFingerprint := "A"

def deltaFile (chunkId : Nat) : Option (DatasetFile Unit) :=
  if chunkId = 0 then some (fetchedFile ["3"]) else none

def augmentedReport : MergeReport :=
  ⟨"extended", derivePlanId sha256Hex "roster of 1" 2 "delta" "base" "", "delta", "base", "roster of 1", 1, 3,
    [⟨⟨"base", partFileName 0⟩, 0, "base:base#0", 2, datasetDigest (fetchedFile ["1", "2"])⟩,
      ⟨⟨"extended", partFileName 0⟩, 1, "chunk:chunk_0000", 1, datasetDigest (fetchedFile ["3"])⟩],
    [some "1", some "2", some "3"]⟩

theorem augment_oneMore : (augment datasetDigest sha256Hex rosterOf (fun _ => .ok ()) oneMore deltaFile
    mergedFiles).map Prod.fst = .ok ⟨"extended", 2, 1, some augmentedReport⟩ := by
  decide +kernel

theorem snapshots_exact_oneMore :
    (publishedCiks mergedFiles mergedReport).Perm [some "1", some "2"] ∧
    ∃ files, augment datasetDigest sha256Hex rosterOf (fun _ => .ok ()) oneMore deltaFile mergedFiles =
        .ok (⟨"extended", 2, 1, some augmentedReport⟩, files) ∧
      (publishedCiks files augmentedReport).Perm
        (publishedCiks mergedFiles mergedReport ++
          deltaCiks oneMore.requested (publishedCiks mergedFiles mergedReport)) := by
  have hexact := snapshots_exact chunkNumber datasetDigest sha256Hex rosterOf (fun _ => .ok ())
  obtain ⟨⟨result, files⟩, hrun, hresult⟩ := map_eq_ok.mp augment_oneMore
  obtain rfl : result = _ := hresult
  have hmerge := hexact.1 _ _ _ _ _ _ _ _ merge_base
  refine ⟨hmerge.1, files, hrun, ?_⟩
  have hdigests : ∀ part ∈ oneMore.base.parts, ∀ chunkId file, deltaFile chunkId = some file →
      datasetDigest file = part.sha256 → mergedFiles part.path = some file := by
    intro part hpart chunkId file hfile hdigest
    obtain rfl := List.mem_singleton.mp hpart
    unfold deltaFile at hfile
    split_ifs at hfile
    obtain rfl := Option.some.inj hfile
    have hne : datasetDigest (fetchedFile ["3"]) ≠ datasetDigest (fetchedFile ["1", "2"]) := by decide +kernel
    exact absurd hdigest hne
  have haugment := hexact.2 oneMore deltaFile mergedFiles _ files hmerge.2
    (fun index hindex => (Option.some.inj hindex).symm) hdigests hrun
  exact (haugment.2.2 _ rfl).2.1

end EdgarSec.MetadataSync
