import EdgarSec.Dag.FingerprintIdentity
import EdgarSec.Dag.StagedParts

/-! The parity gate of compaction: a checkpoint that passes it shows, read back on its own, the
rows the lineage shows. What is written is among the active rows; equal fingerprints then leave
no room for a row that was dropped. -/

namespace EdgarSec.Dag
open Foundation Lib

variable {V : Type} [LinearOrder V]

/-! ## A view shows some of the rows it reads -/

section Views
variable {choice : Choice} {spec parent : RelationSpec} {rows parentRows : List (Nat × Row V)}

theorem rankedRows_subperm : (rankedRows choice spec rows).Subperm (rows.map Prod.snd) := by
  have hnodup : (rowNumberOne choice (fun r => spec.keyCells r.2) (lineageOrder spec) rows).Nodup :=
    List.Nodup.of_map _ nodup_map_key_rowNumberOne
  have hsub : (rowNumberOne choice (fun r => spec.keyCells r.2) (lineageOrder spec) rows) ⊆ rows :=
    fun r hr => (mem_of_firstOf (Iff.mp mem_rowNumberOne hr)).1
  obtain ⟨l, hl, hsublist⟩ := hnodup.subperm hsub
  exact ⟨l.map Prod.snd, hl.map Prod.snd, hsublist.map Prod.snd⟩

theorem activeView_subperm {raws : List (RawView V)} {v : RawView V} {shown : Table V}
    (h : activeView choice raws v = .ok shown) : shown.Subperm (v.rows.map Prod.snd) := by
  unfold activeView at h
  split at h
  · cases h
    exact List.nil_subperm
  · split at h
    · cases h
      exact rankedRows_subperm
    · split at h
      · cases h
      · split at h
        · cases h
        · split at h
          · cases h
            rw [maskedRows_eq]
            exact (List.filter_sublist.map Prod.snd).subperm
          · cases h

theorem viewRows_subperm {engine : Engine V} {files : FileSystem} {root : Path}
    {specs : List RelationSpec} {lineage : LineageChain} {views : List (String × Table V)}
    (h : compileVirtualViews engine files root specs lineage = .ok views) {spec : RelationSpec}
    (hspec : spec ∈ specs) : ∃ sources, lineage.nodes.mapM (nodeRows engine files root spec) = .ok sources ∧
      (viewRows views spec).Subperm ((RawView.mk spec sources).rows.map Prod.snd) := by
  obtain ⟨raws, sources, hsources, hview⟩ := exists_activeView h hspec
  exact ⟨sources, hsources, activeView_subperm hview⟩

theorem viewRows_subperm_alone {engine : Engine V} {files : FileSystem} {root : Path} {specs : List RelationSpec}
    {m : DAGNodeManifest} {shown : List (String × Table V)} {rows : Table V}
    (h : compileVirtualViews engine files root specs (checkpointAlone m) = .ok shown) {spec : RelationSpec}
    (hspec : spec ∈ specs) (hrows : nodeRows engine files root spec m = .ok (some rows)) :
    (viewRows shown spec).Subperm rows := by
  obtain ⟨sources, hsources, hsub⟩ := viewRows_subperm h hspec
  have hsame : [m].mapM (nodeRows engine files root spec) = .ok [some rows] := by
    rw [List.mapM_cons, hrows]
    rfl
  rw [Except.ok.inj (hsources.symm.trans hsame)] at hsub
  simpa [RawView.rows] using hsub

end Views

/-! ## Writing the parts -/

section Writing
variable {sha256 : Bytes → String} {engine : Engine V} {text : ValueText V} {files files' : FileSystem}
  {staged : Path} {spec : RelationSpec} {active : Table V}

def partPlace (staged : Path) (spec : RelationSpec) (i : Nat) : Path := staged ++ [spec.name, partFileName i]

theorem partPlace_ne {i j : Nat} (h : i ≠ j) : partPlace staged spec i ≠ partPlace staged spec j := by
  intro heq
  have hpair := List.append_cancel_left heq
  exact h (partFileName_injective (List.cons.inj (List.cons.inj hpair).2).1)

/-- A descriptor and the part that stands where the descriptor says. -/
structure PartAt (engine : Engine V) (files : FileSystem) (staged : Path) (spec : RelationSpec)
    (part : PartDescriptor) (p : Parquet V) : Prop where
  schema : p.schema = spec.schema
  stands : ∃ i, part.path = spec.name ++ "/" ++ partFileName i ∧
    files.entry (partPlace staged spec i) = some (.file (engine.encode p))

omit [LinearOrder V] in
theorem exists_partAt {parts : List PartDescriptor} {written : List (Parquet V)}
    (h : List.Forall₂ (PartAt engine files staged spec) parts written) {p : Parquet V}
    (hp : p ∈ written) : ∃ part, PartAt engine files staged spec part p := by
  induction h with
  | nil => cases hp
  | cons hpart _ ih =>
    rcases List.mem_cons.mp hp with rfl | hp
    · exact ⟨_, hpart⟩
    · exact ih hp

theorem writePart_spec {range : Option (String × String)} {i : Nat} {part : PartDescriptor}
    (hdir : files.entry (staged ++ [spec.name]) = some .dir) (hup : ".." ∉ staged ++ [spec.name])
    (h : writePart sha256 engine text files (staged ++ [spec.name]) spec active range i =
      .ok (files', part)) :
    ∃ rows p, selectRange text spec active range = .ok rows ∧ p.rows.Perm rows ∧
      p.schema = spec.schema ∧ part.path = spec.name ++ "/" ++ partFileName i ∧
      ∀ q, files'.entry q =
        if q = partPlace staged spec i then some (.file (engine.encode p)) else files.entry q := by
  unfold writePart at h
  obtain ⟨rows, hrows, h⟩ := bind_eq_ok.mp h
  dsimp only at h
  split at h
  · split at h
    · cases h
    · rename_i written hwritten
      cases h
      have hentry := FileSystem.writeFile_child hdir hup (plainName_partFileName i).ne_up hwritten
      have hplace : staged ++ [spec.name] ++ [partFileName i] = partPlace staged spec i := by
        simp [partPlace]
      rw [hplace] at hentry
      exact ⟨rows, _, hrows, engine.sort_perm _ rows, rfl, rfl, hentry⟩
  · cases h

/-- One part after the other: later parts leave the earlier ones. -/
theorem writeParts_spec {ranges : List (Option (String × String))} {index : Nat}
    {parts : List PartDescriptor}
    (hdir : files.entry (staged ++ [spec.name]) = some .dir) (hup : ".." ∉ staged ++ [spec.name])
    (h : writeParts sha256 engine text (staged ++ [spec.name]) spec active ranges index files =
      .ok (files', parts)) :
    ∃ tables written, ranges.mapM (selectRange text spec active) = .ok tables ∧
      (written.flatMap (·.rows)).Perm tables.flatten ∧
      List.Forall₂ (PartAt engine files' staged spec) parts written ∧
      (ranges ≠ [] → written ≠ []) ∧
      ∀ q, (∀ i, index ≤ i → q ≠ partPlace staged spec i) → files'.entry q = files.entry q := by
  induction ranges generalizing index files parts with
  | nil =>
    cases h
    exact ⟨[], [], rfl, List.Perm.refl _, .nil, fun hne => absurd rfl hne, fun _ _ => rfl⟩
  | cons range ranges ih =>
    obtain ⟨⟨files1, part⟩, hfirst, h⟩ := bind_eq_ok.mp h
    obtain ⟨⟨files2, rest⟩, hrest, h⟩ := bind_eq_ok.mp h
    cases h
    obtain ⟨rows, p, hrows, hperm, hschema, hpath, hentry⟩ := writePart_spec hdir hup hfirst
    have hdir1 : files1.entry (staged ++ [spec.name]) = some .dir := by
      rw [hentry, if_neg (by simp [partPlace]), hdir]
    obtain ⟨tables, written, htables, hall, hparts, -, hlater⟩ := ih hdir1 hrest
    refine ⟨rows :: tables, p :: written, ?_, hperm.append hall, .cons ?_ hparts, by simp, ?_⟩
    · rw [List.mapM_cons, hrows, htables]
      rfl
    · refine ⟨hschema, index, hpath, ?_⟩
      rw [hlater _ fun i hi => partPlace_ne (by omega), hentry, if_pos rfl]
    · intro q hq
      rw [hlater q fun i hi => hq i (by omega), hentry, if_neg (hq index le_rfl)]

/-- A path that no part and no directory of the relations stands at. -/
def Apart (staged : Path) (specs : List RelationSpec) (q : Path) : Prop :=
  ∀ s ∈ specs, q ≠ staged ++ [s.name] ∧ ∀ i, q ≠ partPlace staged s i

/-- What a relation has in the staging directory. -/
def Written (engine : Engine V) (files : FileSystem) (staged : Path) (spec : RelationSpec)
    (active : Table V) (parts : List PartDescriptor) : Prop :=
  ∃ written, written ≠ [] ∧ (written.flatMap (·.rows)).Subperm active ∧
    List.Forall₂ (PartAt engine files staged spec) parts written

theorem compactRelations_spec {views : List (String × Table V)} {specs : List RelationSpec}
    {relations relations' : Dict String (List PartDescriptor)}
    (hnames : (specs.map (·.name)).Nodup) (hdir : files.entry staged = some .dir) (hup : ".." ∉ staged)
    (hfree : ∀ s ∈ specs, files.entry (staged ++ [s.name]) = none)
    (h : compactRelations sha256 engine text staged views specs (files, relations) =
      .ok (files', relations')) :
    (∀ q, Apart staged specs q → files'.entry q = files.entry q) ∧
    (∀ n, n ∉ specs.map (·.name) → relations'.get? n = relations.get? n) ∧
    ∀ s ∈ specs, ∃ parts, relations'.get? s.name = some parts ∧
      Written engine files' staged s (viewRows views s) parts := by
  induction specs generalizing files relations with
  | nil =>
    cases h
    exact ⟨fun _ _ => rfl, fun _ _ => rfl, fun s hs => absurd hs List.not_mem_nil⟩
  | cons spec specs ih =>
    rw [List.map_cons, List.nodup_cons] at hnames
    unfold compactRelations at h
    split at h
    · cases h
    rename_i made hmade
    obtain ⟨⟨files1, parts⟩, hwritten, h⟩ := bind_eq_ok.mp h
    have hplain := plainName_spec spec
    have hup1 : ".." ∉ staged ++ [spec.name] := by
      simpa [hup] using fun he => hplain.ne_up he.symm
    have hnolink : ∀ t, files.entry (staged ++ [spec.name]) ≠ some (.symlink t) := by
      intro t ht
      rw [hfree spec List.mem_cons_self] at ht
      cases ht
    have hmadeEntry := FileSystem.mkdirs_child hdir hup hplain.ne_up hnolink hmade
    obtain ⟨tables, written, htables, hrows, hparts, hne, hkept⟩ :=
      writeParts_spec (by rw [hmadeEntry, if_pos rfl]) hup1 hwritten
    obtain ⟨hsub, hranges⟩ := partRanges_subperm htables
    -- what the other relations may count on
    have hother : ∀ q, q ≠ staged ++ [spec.name] → (∀ i, q ≠ partPlace staged spec i) →
        files1.entry q = files.entry q := by
      intro q hq hq'
      rw [hkept q fun i _ => hq' i, hmadeEntry, if_neg hq]
    have hdir1 : files1.entry staged = some .dir := by
      rw [hother staged (by simp) fun i => by simp [partPlace], hdir]
    have hfree1 : ∀ s ∈ specs, files1.entry (staged ++ [s.name]) = none := by
      intro s hs
      have hsne : s.name ≠ spec.name := fun he => hnames.1 (he ▸ List.mem_map_of_mem hs)
      rw [hother _ (by simpa using hsne) fun i => by simp [partPlace],
        hfree s (List.mem_cons_of_mem spec hs)]
    obtain ⟨hframe, hget, hall⟩ := ih hnames.2 hdir1 hfree1 h
    refine ⟨?_, ?_, ?_⟩
    · intro q hq
      have hspec := hq spec List.mem_cons_self
      rw [hframe q fun s hs => hq s (List.mem_cons_of_mem spec hs), hother q hspec.1 hspec.2]
    · intro n hn
      simp only [List.map_cons, List.mem_cons, not_or] at hn
      rw [hget n hn.2, Dict.get?_set, if_neg hn.1]
    · intro s hs
      rcases List.mem_cons.mp hs with rfl | hs
      · refine ⟨parts, ?_, written, hne hranges, hrows.subperm.trans hsub, ?_⟩
        · rw [hget s.name hnames.1, Dict.get?_set, if_pos rfl]
        · refine hparts.imp fun part p hp => ⟨hp.schema, ?_⟩
          obtain ⟨i, hpath, hentry⟩ := hp.stands
          refine ⟨i, hpath, ?_⟩
          rw [hframe _ fun t ht => ?_, hentry]
          have htne : s.name ≠ t.name := fun he => hnames.1 (he ▸ List.mem_map_of_mem ht)
          exact ⟨by simp [partPlace], fun j => by simp [partPlace, htne]⟩
      · exact hall s hs

end Writing

/-! ## Reading the checkpoint back -/

section Reading
variable {engine : Engine V} {files : FileSystem} {staged : Path} {spec : RelationSpec}
  {active : Table V} {newId : String}

omit [LinearOrder V] in
/-- A name that leads nowhere below the staging directory leaves its parts to be found there. -/
theorem partPath_staged {part : PartDescriptor} {p : Parquet V} (hup : ".." ∉ staged)
    (hid : PlainName newId) (hbelow : files.entry (staged ++ [newId, spec.name]) = none)
    (hkind : files.entry (staged ++ [newId]) = none ∨ files.entry (staged ++ [newId]) = some .dir)
    (h : PartAt engine files staged spec part p) :
    fileContent files (partPath files staged newId part.path) = some (engine.encode p) := by
  obtain ⟨i, hpath, hentry⟩ := h.stands
  have hdir : PlainName spec.name := plainName_spec spec
  have hfile : PlainName (partFileName i) := plainName_partFileName i
  have hplaceUp : ".." ∉ partPlace staged spec i := by
    simp [partPlace, hup, hdir.ne_up.symm, hfile.ne_up.symm]
  have hstat : files.stat (partPlace staged spec i) = some (.file (engine.encode p)) :=
    FileSystem.stat_of_entry hentry (by simp) hplaceUp
  have hstagedDir : files.entry staged = some .dir :=
    FileSystem.entry_of_prefix hentry (List.prefix_append _ _) (by simp [partPlace])
  -- below the name of the node there is no such file
  have hown : files.stat (staged ++ [newId, spec.name, partFileName i]) = none := by
    rcases hkind with hnone | hsome
    · exact FileSystem.stat_of_missing hstagedDir hup hid.ne_up hnone
    · have hupId : ".." ∉ staged ++ [newId] := by simpa [hup] using fun he => hid.ne_up he.symm
      have hmissing : files.entry (staged ++ [newId] ++ [spec.name]) = none := by simpa using hbelow
      have hnone : files.stat (staged ++ [newId] ++ spec.name :: [partFileName i]) = none :=
        FileSystem.stat_of_missing hsome hupId hdir.ne_up hmissing
      simpa using hnone
  have hownPath : joinPath (joinPath staged newId) part.path =
      staged ++ [newId, spec.name, partFileName i] := by
    rw [hpath, joinPath_of_plain hid, joinPath_of_plain_pair hdir hfile]
    simp
  have hpartPath : joinPath staged part.path = partPlace staged spec i := by
    rw [hpath, joinPath_of_plain_pair hdir hfile, partPlace]
  have hrelative : isAbsolute part.path = false := by
    rw [hpath, String.append_assoc]
    exact not_isAbsolute_of_plain hdir _
  have hfound : partPath files staged newId part.path = partPlace staged spec i := by
    unfold partPath
    simp only [hownPath, hpartPath, hrelative, FileSystem.isFile, hown, hstat]
    simp
  rw [hfound, fileContent, hstat]

omit [LinearOrder V] in
/-- Parts that are found where they were written, or where they went, give the rows that were written. -/
theorem nodeRows_written {files' : FileSystem} {root : Path} {m : DAGNodeManifest}
    {parts : List PartDescriptor} {written : List (Parquet V)}
    (hfound : ∀ part p, PartAt engine files staged spec part p →
      fileContent files' (partPath files' root m.snapshotId part.path) = some (engine.encode p))
    (hm : m.relations.get? spec.name = some parts) (hne : written ≠ [])
    (hparts : List.Forall₂ (PartAt engine files staged spec) parts written) :
    nodeRows engine files' root spec m = .ok (some (written.flatMap (·.rows))) := by
  refine nodeRows_of_written ?_ hne ?_
  · intro p hp
    obtain ⟨part, hpart⟩ := exists_partAt hparts hp
    exact hpart.schema
  · rw [hm, Option.getD_some]
    clear hne hm
    induction hparts with
    | nil => rfl
    | cons hpart _ ih =>
      rw [List.filterMap_cons, hfound _ _ hpart, List.map_cons]
      exact congrArg _ ih

end Reading

/-! ## Totals -/

section Totals
variable {α ι : Type} {f g : ι → List α} {w : α → Nat}

/-- Lists that hold some of the elements of others, with as much weight in all, hold all of them. -/
theorem perm_of_total (hpos : ∀ a, 0 < w a) {l : List ι} (hsub : ∀ i ∈ l, (f i).Subperm (g i))
    (htotal : (l.map fun i => ((f i).map w).sum).sum = (l.map fun i => ((g i).map w).sum).sum) :
    ∀ i ∈ l, (f i).Perm (g i) := by
  induction l with
  | nil => exact fun i hi => absurd hi List.not_mem_nil
  | cons i l ih =>
    rw [List.map_cons, List.map_cons, List.sum_cons, List.sum_cons] at htotal
    have hfirst : ((f i).map w).sum ≤ ((g i).map w).sum :=
      sum_map_le_of_subperm w (hsub i List.mem_cons_self)
    have hlater : ∀ j ∈ l, (f j).Subperm (g j) := fun j hj => hsub j (List.mem_cons_of_mem i hj)
    have hrest : (l.map fun i => ((f i).map w).sum).sum ≤ (l.map fun i => ((g i).map w).sum).sum :=
      List.sum_le_sum fun j hj => sum_map_le_of_subperm w (hlater j hj)
    intro j hj
    rcases List.mem_cons.mp hj with rfl | hj
    · exact perm_of_subperm_of_sum_eq hpos (hsub j List.mem_cons_self) (by omega)
    · exact ih hlater (by omega) j hj

end Totals

section Parity
variable {choice : Choice} {text : ValueText V} {specs : List RelationSpec}
  {views views' : List (String × Table V)}

def rowLength (text : ValueText V) (row : Row V) : Nat := (rowText text row).toList.length

omit [LinearOrder V] in
theorem rowLength_pos (row : Row V) : 0 < rowLength text row := by
  have hopens : ∃ rest, (rowText text row).toList = '[' :: rest := by
    simp [rowText, canonicalJson, Json.sortKeys, Json.render, String.toList_append]
  obtain ⟨rest, hrest⟩ := hopens
  rw [rowLength, hrest]
  exact Nat.succ_pos _

theorem length_fingerprintText : (fingerprintText choice text specs views).toList.length =
    (specs.map fun s => ((viewRows views s).map (rowLength text)).sum).sum := by
  rw [fingerprintText_eq, List.length_flatten, List.map_map]
  show ((rowStream choice specs views).map (rowLength text)).sum = _
  induction specs with
  | nil => rfl
  | cons s specs ih =>
    rw [List.map_cons, List.sum_cons, ← ih, rowStream, List.flatMap_cons, List.map_append,
      List.sum_append, ((keyOrdered_perm views s).map _).sum_eq]
    rfl

theorem text_of_fingerprint {sha256 : Bytes → String} (hsha : Function.Injective sha256)
    (h : computeLogicalFingerprint sha256 choice text specs views =
      computeLogicalFingerprint sha256 choice text specs views') :
    fingerprintText choice text specs views = fingerprintText choice text specs views' := by
  have hbytes : utf8 (fingerprintText choice text specs views) =
      utf8 (fingerprintText choice text specs views') := hsha h
  have hdecoded := congrArg decodeUtf8 hbytes
  rw [decodeUtf8_utf8, decodeUtf8_utf8] at hdecoded
  exact Option.some.inj hdecoded

end Parity

/-! ## The staged checkpoint -/

section Staging
variable {sha256 : Bytes → String} {engine : Engine V} {text : ValueText V} {repo : Repository}
  {specs : List RelationSpec} {tipId newId createdAt name : String} {dir : Path} {files : FileSystem}
  {m : DAGNodeManifest}

theorem entry_below_none {fs : FileSystem} {p rest : Path} (h : fs.entry p = none) :
    fs.entry (p ++ rest) = none := by
  cases he : fs.entry (p ++ rest) with
  | none => rfl
  | some e =>
    by_cases hrest : rest = []
    · rw [hrest, List.append_nil, h] at he
      cases he
    · have hdir := FileSystem.entry_of_prefix he (List.prefix_append p rest) (by simpa using hrest)
      rw [h] at hdir
      cases hdir

theorem name_ne_partFileName (spec : RelationSpec) (i : Nat) : spec.name ≠ partFileName i := by
  intro he
  have hname := spec.isIdentifier_name
  rw [he] at hname
  simp [isIdentifier, toList_partFileName] at hname

omit [LinearOrder V] in
/-- A name below the staging directory is free, or it is that of a relation. -/
theorem entry_child_of_written {ready : FileSystem} {staged : Path} {n : String}
    {relations : Dict String (List PartDescriptor)} {views : List (String × Table V)}
    (hframe : ∀ q, Apart staged specs q → files.entry q = ready.entry q)
    (hall : ∀ s ∈ specs, ∃ parts, relations.get? s.name = some parts ∧
      Written engine files staged s (viewRows views s) parts)
    (hnone : ready.entry (staged ++ [n]) = none) :
    files.entry (staged ++ [n]) = none ∨ files.entry (staged ++ [n]) = some .dir := by
  by_cases hin : ∃ s ∈ specs, s.name = n
  · obtain ⟨s, hs, rfl⟩ := hin
    obtain ⟨parts, -, written, hne, -, hparts⟩ := hall s hs
    obtain ⟨p, hp⟩ := List.exists_mem_of_ne_nil _ hne
    obtain ⟨part, hpart⟩ := exists_partAt hparts hp
    obtain ⟨i, -, hentry⟩ := hpart.stands
    have hprefix : staged ++ [s.name] <+: partPlace staged s i := ⟨[partFileName i], by simp [partPlace]⟩
    exact Or.inr (FileSystem.entry_of_prefix hentry hprefix (by simp [partPlace]))
  · push Not at hin
    left
    rw [hframe _ fun s hs => ⟨?_, fun i => by simp [partPlace]⟩, hnone]
    simpa using fun he => hin s hs he.symm

/-- A checkpoint in its staging directory: what it shows there, and where its parts stand. -/
structure Staged (engine : Engine V) (repo : Repository) (specs : List RelationSpec) (tipId : String)
    (staged : Path) (files : FileSystem) (m : DAGNodeManifest) (views shown : List (String × Table V)) :
    Prop where
  lineage : ∃ ready lineage, repo.files.mkdirs staged = some ready ∧
    walkLineage repo.catalog tipId = .ok lineage ∧
    compileVirtualViews engine ready repo.root specs lineage = .ok views
  compiles : compileVirtualViews engine files staged specs (checkpointAlone m) = .ok shown
  rows : ∀ spec ∈ specs, (viewRows shown spec).Perm (viewRows views spec)
  dir : files.entry staged = some .dir
  apart : ∀ q, ¬ staged <+: q → files.entry q = repo.files.entry q
  parts : ∀ spec ∈ specs, ∃ parts written, m.relations.get? spec.name = some parts ∧ written ≠ [] ∧
    List.Forall₂ (PartAt engine files staged spec) parts written ∧
    nodeRows engine files staged spec m = .ok (some (written.flatMap (·.rows)))

/-- A checkpoint staged in a directory of its own shows, on its own, the rows of the lineage. -/
theorem staged_of_stageCheckpoint (hsha : Function.Injective sha256)
    (hdir : repo.files.entry dir = some .dir) (hup : ".." ∉ dir) (hname : name ≠ "..")
    (hnew : repo.files.entry (dir ++ [name]) = none) (hid : PlainName newId)
    (h : stageCheckpoint sha256 engine text repo specs tipId newId (dir ++ [name]) createdAt =
      .ok (files, m)) :
    m.snapshotId = newId ∧ ∃ views shown, Staged engine repo specs tipId (dir ++ [name]) files m views shown := by
  unfold stageCheckpoint at h
  split at h
  · cases h
  rename_i ready hready
  obtain ⟨lineage, hlineage, h⟩ := bind_eq_ok.mp h
  obtain ⟨views, hviews, h⟩ := bind_eq_ok.mp h
  obtain ⟨⟨written, relations⟩, hwritten, h⟩ := bind_eq_ok.mp h
  obtain ⟨shown, hshown, h⟩ := bind_eq_ok.mp h
  dsimp only at h
  split at h
  · cases h
  rename_i hparity
  obtain ⟨hfiles, hm⟩ := Prod.mk.inj (Except.ok.inj h)
  dsimp only at hfiles hm hshown
  rw [hfiles] at hshown hwritten
  rw [hm] at hshown
  have hrelations : m.relations = relations := by rw [← hm]; rfl
  have hmid : m.snapshotId = newId := by rw [← hm]; rfl
  -- the directory is new: nothing stands below it
  have hnolink : ∀ t, repo.files.entry (dir ++ [name]) ≠ some (.symlink t) := by
    intro t ht
    rw [hnew] at ht
    cases ht
  have hmade := FileSystem.mkdirs_child hdir hup hname hnolink hready
  have hstagedUp : ".." ∉ dir ++ [name] := by simpa [hup] using fun he => hname he.symm
  have hstagedDir : ready.entry (dir ++ [name]) = some .dir := by rw [hmade, if_pos rfl]
  have hempty : ∀ n rest, ready.entry (dir ++ [name] ++ n :: rest) = none := by
    intro n rest
    rw [hmade, if_neg (by simp)]
    exact entry_below_none hnew
  obtain ⟨ordered, _, ho, hn, -⟩ := exists_of_compileVirtualViews hviews
  have haccepted := SpecsAccepted.of_ordered ho hn
  obtain ⟨hframe, -, hall⟩ := compactRelations_spec haccepted.names hstagedDir hstagedUp
    (fun s _ => hempty s.name []) hwritten
  have hapart : ∀ q, ¬ dir ++ [name] <+: q → files.entry q = repo.files.entry q := by
    intro q hq
    have hplace : ∀ rest, q ≠ dir ++ [name] ++ rest := fun rest he => hq ⟨rest, he.symm⟩
    rw [hframe q fun s _ => ⟨hplace _, fun i => hplace _⟩, hmade,
      if_neg fun he => hplace [] (by simpa using he)]
  have hread : ∀ spec ∈ specs, ∃ parts written, m.relations.get? spec.name = some parts ∧ written ≠ [] ∧
      (written.flatMap (·.rows)).Subperm (viewRows views spec) ∧
      List.Forall₂ (PartAt engine files (dir ++ [name]) spec) parts written ∧
      nodeRows engine files (dir ++ [name]) spec m = .ok (some (written.flatMap (·.rows))) := by
    intro spec hspec
    obtain ⟨parts, hparts, written, hne, hsub, hstands⟩ := hall spec hspec
    have hbelow : files.entry (dir ++ [name] ++ [newId, spec.name]) = none := by
      rw [hframe _ fun s _ => ⟨by simp, fun i he => ?_⟩, hempty]
      have hpair := List.append_cancel_left he
      exact name_ne_partFileName spec i (List.cons.inj (List.cons.inj hpair).2).1
    have hkind := entry_child_of_written hframe hall (hempty newId [])
    rw [← hrelations] at hparts
    refine ⟨parts, written, hparts, hne, hsub, hstands, nodeRows_written ?_ hparts hne hstands⟩
    rw [hmid]
    exact fun part p hpart => partPath_staged hstagedUp hid hbelow hkind hpart
  have hsub : ∀ spec ∈ specs, (viewRows shown spec).Subperm (viewRows views spec) := by
    intro spec hspec
    obtain ⟨_, written, -, -, hsub, -, hrows⟩ := hread spec hspec
    exact (viewRows_subperm_alone hshown hspec hrows).trans hsub
  have htext := congrArg (fun t => t.toList.length) (text_of_fingerprint hsha (not_not.mp hparity))
  rw [length_fingerprintText, length_fingerprintText] at htext
  refine ⟨hmid, views, shown, ⟨ready, lineage, hready, hlineage, hviews⟩, hshown,
    perm_of_total rowLength_pos hsub htext, ?_, hapart, ?_⟩
  · rw [hframe _ fun s _ => ⟨by simp, fun i => by simp [partPlace]⟩, hstagedDir]
  · intro spec hspec
    obtain ⟨parts, written, hparts, hne, -, hstands, hrows⟩ := hread spec hspec
    exact ⟨parts, written, hparts, hne, hstands, hrows⟩

/-! ## The published checkpoint -/

omit [LinearOrder V] in
theorem partPath_published {spec : RelationSpec} {staged root : Path} {fs : FileSystem} {part : PartDescriptor}
    {p : Parquet V} (hup : ".." ∉ root) (hid : PlainName newId) (h : PartAt engine files staged spec part p)
    (hmoved : ∀ rest e, files.entry (staged ++ rest) = some e → fs.entry (root ++ [newId] ++ rest) = some e) :
    fileContent fs (partPath fs root newId part.path) = some (engine.encode p) := by
  obtain ⟨i, hpath, hentry⟩ := h.stands
  have hdirName : PlainName spec.name := plainName_spec spec
  have hfile : PlainName (partFileName i) := plainName_partFileName i
  have hentry' := hmoved _ _ hentry
  have hplaceUp : ".." ∉ root ++ [newId] ++ [spec.name, partFileName i] := by
    simp [hup, hid.ne_up.symm, hdirName.ne_up.symm, hfile.ne_up.symm]
  have hstat := FileSystem.stat_of_entry hentry' (by simp) hplaceUp
  have hownPath : joinPath (joinPath root newId) part.path = root ++ [newId] ++ [spec.name, partFileName i] := by
    rw [hpath, joinPath_of_plain hid, joinPath_of_plain_pair hdirName hfile]
  have hrelative : isAbsolute part.path = false := by
    rw [hpath, String.append_assoc]
    exact not_isAbsolute_of_plain hdirName _
  have hfound : partPath fs root newId part.path = root ++ [newId] ++ [spec.name, partFileName i] := by
    unfold partPath
    simp only [hownPath, hrelative, FileSystem.isFile, hstat]
    simp
  rw [hfound, fileContent, hstat]

omit [LinearOrder V] in
theorem moves_of_publishNode {staged path : Path} {branchName : Option String} {now : String} {done : Repository}
    {expected : Option String}
    (h : Repository.publishNode sha256 { repo with files := files } m (some staged) expected branchName now =
      (done, .ok path))
    (hid : PlainName m.snapshotId) (hdir : files.entry staged = some .dir) (hstagedUp : ".." ∉ staged)
    (hroot : files.entry repo.root = some .dir) (hup : ".." ∉ repo.root)
    (hfree : files.entry (repo.root ++ [m.snapshotId]) = none) :
    ∃ fs place, files.move staged (repo.root ++ [m.snapshotId]) = some (fs, place) ∧
      done.files = fs ∧ done.root = repo.root := by
  have htarget : Repository.snapshotDir { repo with files := files } m.snapshotId = repo.root ++ [m.snapshotId] :=
    joinPath_of_plain hid
  have hstanding : files.pathExists staged = true := by
    rw [FileSystem.pathExists, FileSystem.stat_of_entry hdir (by simp) hstagedUp]
    rfl
  have hmissing : files.pathExists (repo.root ++ [m.snapshotId]) = false := by
    rw [FileSystem.pathExists, FileSystem.stat_of_missing hroot hup hid.ne_up hfree]
    rfl
  unfold Repository.publishNode at h
  split at h
  · cases h
  · split at h
    · cases h
    · rename_i moved place hmoved
      unfold Repository.moveStaged at hmoved
      rw [htarget] at hmoved
      simp only [hstanding, hmissing, Bool.false_eq_true, not_false_eq_true, and_self, if_true] at hmoved
      split at hmoved
      · rename_i fs target hmove
        split at h
        · cases h
        · rename_i finished hcommit
          obtain ⟨cat, -, rfl⟩ := map_eq_ok.mp hcommit
          cases hmoved
          cases h
          exact ⟨fs, target, hmove, rfl, rfl⟩
      · cases hmoved

theorem compileVirtualViews_congr {fs : FileSystem} {root root' : Path} {lineage : LineageChain}
    {shown : List (String × Table V)}
    (hsources : ∀ spec ∈ specs, ∃ rows, lineage.nodes.mapM (nodeRows engine files root spec) = .ok [some rows] ∧
      lineage.nodes.mapM (nodeRows engine fs root' spec) = .ok [some rows])
    (h : compileVirtualViews engine files root specs lineage = .ok shown) :
    compileVirtualViews engine fs root' specs lineage = compileVirtualViews engine files root specs lineage := by
  obtain ⟨ordered, sources, ho, hn, hread, -⟩ := exists_of_compileVirtualViews h
  rw [compileVirtualViews_eq ho hn hread]
  refine compileVirtualViews_eq ho hn fun spec hspec => ?_
  obtain ⟨rows, hrows, hrows'⟩ := hsources spec hspec
  rw [hrows', ← hrows, hread spec hspec]

/-- Compaction keeps the active rows: what the new checkpoint shows, read on its own where it was
published, is what the lineage showed. -/
theorem compactLineage_rows (hsha : Function.Injective sha256)
    (hroot : repo.files.entry repo.root = some .dir) (hup : ".." ∉ repo.root)
    (hname : name ≠ "..") (hnew : repo.files.entry (repo.root ++ [name]) = none)
    (hid : PlainName newId) (hother : newId ≠ name) (hfree : repo.files.entry (repo.root ++ [newId]) = none)
    {branchName : Option String} {now : String} {next : Repository}
    (h : compactLineage sha256 engine text repo specs tipId newId (repo.root ++ [name]) true branchName
      createdAt now = .ok (next, m)) :
    ∃ ready lineage views shown, repo.files.mkdirs (repo.root ++ [name]) = some ready ∧
      walkLineage repo.catalog tipId = .ok lineage ∧
      compileVirtualViews engine ready repo.root specs lineage = .ok views ∧
      compileVirtualViews engine next.files next.root specs (checkpointAlone m) = .ok shown ∧
      ∀ spec ∈ specs, (viewRows shown spec).Perm (viewRows views spec) := by
  obtain ⟨⟨files, m'⟩, hstage, h⟩ := bind_eq_ok.mp h
  dsimp only at h
  rw [if_pos rfl] at h
  split at h
  · rename_i done path hpublish
    obtain ⟨rfl, rfl⟩ := Prod.mk.inj (Except.ok.inj h)
    obtain ⟨rfl, views, shown, hstaged⟩ := staged_of_stageCheckpoint hsha hroot hup hname hnew hid hstage
    obtain ⟨ready, lineage, hready, hlineage, hviews⟩ := hstaged.lineage
    refine ⟨ready, lineage, views, shown, hready, hlineage, hviews, ?_, hstaged.rows⟩
    have hstagedUp : ".." ∉ repo.root ++ [name] := by simpa [hup] using fun he => hname he.symm
    have hrootDir : files.entry repo.root = some .dir := by
      rw [hstaged.apart _ fun hpre => ?_, hroot]
      have := hpre.length_le
      simp at this
    have hplace : files.entry (repo.root ++ [m'.snapshotId]) = none := by
      rw [hstaged.apart _ fun hpre => ?_, hfree]
      have hsame := hpre.eq_of_length (by simp)
      exact hother (by simpa using hsame.symm)
    obtain ⟨fs, place, hmove, hdone⟩ := moves_of_publishNode hpublish hid hstaged.dir hstagedUp hrootDir hup hplace
    have hmoved : ∀ rest e, files.entry (repo.root ++ [name] ++ rest) = some e →
        fs.entry (repo.root ++ [m'.snapshotId] ++ rest) = some e := fun rest e he =>
      FileSystem.entry_move_child hstaged.dir hstagedUp hrootDir hup hid.ne_up he hmove
    -- each relation reads what it read in the staging directory
    have hsources : ∀ spec ∈ specs, ∃ rows,
        [m'].mapM (nodeRows engine files (repo.root ++ [name]) spec) = .ok [some rows] ∧
          [m'].mapM (nodeRows engine fs repo.root spec) = .ok [some rows] := by
      intro spec hspec
      obtain ⟨parts, written, hparts, hne, hstands, hrows⟩ := hstaged.parts spec hspec
      have hrows' := nodeRows_written
        (fun part p hpart => partPath_published hup hid hpart hmoved) hparts hne hstands
      refine ⟨written.flatMap (·.rows), ?_, ?_⟩
      · rw [List.mapM_cons, hrows]
        rfl
      · rw [List.mapM_cons, hrows']
        rfl
    rw [hdone.1, hdone.2, ← hstaged.compiles]
    exact compileVirtualViews_congr hsources hstaged.compiles
  · cases h

end Staging

/-! ## A lineage of one checkpoint -/

def numbersRepository : Repository :=
  (Repository.publishNode bytesDigest ⟨["r"], numbersFiles [7, 9], .empty⟩ (numbersNode [7, 9]) none none none "t").1

def numbersCompacted : Except DagError (Repository × DAGNodeManifest) :=
  compactLineage bytesDigest plainEngine natText numbersRepository [numbersSpec] "a" "k" (["r"] ++ ["w"]) true
    none "t" "t"

theorem compactLineage_rows_seven : ∃ next m, numbersCompacted = .ok (next, m) ∧
    ∃ ready lineage views shown, numbersRepository.files.mkdirs ["r", "w"] = some ready ∧
      walkLineage numbersRepository.catalog "a" = .ok lineage ∧
      compileVirtualViews plainEngine ready ["r"] [numbersSpec] lineage = .ok views ∧
      compileVirtualViews plainEngine next.files next.root [numbersSpec] (checkpointAlone m) = .ok shown ∧
      ∀ spec ∈ [numbersSpec], (viewRows shown spec).Perm (viewRows views spec) := by
  cases h : numbersCompacted with
  | error e =>
    have hok : numbersCompacted.isOk = true := by decide +kernel
    rw [h] at hok
    cases hok
  | ok done =>
    refine ⟨done.1, done.2, rfl, ?_⟩
    exact compactLineage_rows bytesDigest_injective (by decide +kernel) (by decide) (by decide) (by decide +kernel)
      ⟨by decide, by decide, by decide, by decide⟩ (by decide) (by decide +kernel) h

end EdgarSec.Dag
