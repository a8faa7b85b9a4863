import EdgarSec.Dag.MergeRules

/-! What a compiled lineage consists of: the order of the specs, the raw view of each, and
the active view each raw view gives. -/

namespace EdgarSec.Dag
open Foundation Lib

variable {V : Type}

/-! ## The order of the specs -/

theorem orderedSpecs_perm {n : Nat} {names : List String} {specs ordered : List RelationSpec}
    (h : orderedSpecs n names specs = .ok ordered) : ordered.Perm specs := by
  induction n generalizing names specs ordered with
  | zero =>
    cases specs with
    | nil =>
      cases h
      exact List.Perm.refl _
    | cons s specs => cases h
  | succ n ih =>
    cases specs with
    | nil =>
      cases h
      exact List.Perm.refl _
    | cons s specs =>
      simp only [orderedSpecs] at h
      split at h
      · cases h
      · obtain ⟨rest, hrest, rfl⟩ := map_eq_ok.mp h
        exact ((List.Perm.refl _).append (ih hrest)).trans (List.filter_append_perm _ _)

theorem isReady_masked {names : List String} {s : RelationSpec} (hmask : s.mergeStrategy = .scopedMask)
    (h : isReady names s = true) : s.parentName ∈ names := by
  have hany := (of_decide_eq_true h).resolve_left fun hne => hne hmask
  obtain ⟨name, hname, hin⟩ := (Option.any_eq_true _ _).mp hany
  rw [RelationSpec.parentName, hname]
  exact of_decide_eq_true hin

theorem exists_parent_of_orderedSpecs {n : Nat} {names : List String}
    {specs ordered : List RelationSpec} (h : orderedSpecs n names specs = .ok ordered)
    {s : RelationSpec} (hs : s ∈ ordered) (hmask : s.mergeStrategy = .scopedMask) :
    s.parentName ∈ names ∨ ∃ p ∈ ordered, p.name = s.parentName := by
  induction n generalizing names specs ordered with
  | zero =>
    cases specs with
    | nil =>
      cases h
      cases hs
    | cons s specs => cases h
  | succ n ih =>
    cases specs with
    | nil =>
      cases h
      cases hs
    | cons t specs =>
      simp only [orderedSpecs] at h
      split at h
      · cases h
      · obtain ⟨rest, hrest, rfl⟩ := map_eq_ok.mp h
        rcases List.mem_append.mp hs with hs | hs
        · exact Or.inl (isReady_masked hmask (List.mem_filter.mp hs).2)
        · rcases ih hrest hs with hin | ⟨p, hp, he⟩
          · rcases List.mem_append.mp hin with hin | hin
            · exact Or.inl hin
            · obtain ⟨p, hp, he⟩ := List.mem_map.mp hin
              exact Or.inr ⟨p, List.mem_append_left _ hp, he⟩
          · exact Or.inr ⟨p, List.mem_append_right _ hp, he⟩

theorem checkViewNames_eq_ok {specs : List RelationSpec} (h : checkViewNames specs = .ok ()) :
    (specs.map (·.name)).Nodup := by
  unfold checkViewNames at h
  split at h
  · rename_i hn
    refine List.Nodup.of_map (fun name : String => name.toList.map Char.toLower) ?_
    simpa [List.map_map, Function.comp_def] using hn
  · cases h

structure SpecsAccepted (specs : List RelationSpec) : Prop where
  names : (specs.map (·.name)).Nodup
  parents : ∀ s ∈ specs, s.mergeStrategy = .scopedMask → ∃ p ∈ specs, p.name = s.parentName

theorem SpecsAccepted.of_ordered {specs ordered : List RelationSpec}
    (ho : orderedSpecs specs.length [] specs = .ok ordered) (hn : checkViewNames ordered = .ok ()) :
    SpecsAccepted specs := by
  have hperm := orderedSpecs_perm ho
  constructor
  · exact (hperm.map _).nodup_iff.mp (checkViewNames_eq_ok hn)
  · intro s hs hmask
    rcases exists_parent_of_orderedSpecs ho (hperm.mem_iff.mpr hs) hmask with hin | ⟨p, hp, he⟩
    · cases hin
    · exact ⟨p, hperm.mem_iff.mp hp, he⟩

theorem SpecsAccepted.eq_of_name {specs : List RelationSpec} (h : SpecsAccepted specs)
    {s t : RelationSpec} (hs : s ∈ specs) (ht : t ∈ specs) (he : s.name = t.name) : s = t :=
  List.inj_on_of_nodup_map h.names hs ht he

/-! ## Active views -/

section Views
variable [LinearOrder V] {choice : Choice}

def JoinColumnsKnown (spec parent : RelationSpec) : Prop :=
  ∀ k ∈ spec.joinColumns, k ∈ spec.schema.names ∧ k ∈ parent.schema.names

theorem activeView_of_not_hasSubqueries {raws : List (RawView V)} {v : RawView V}
    (h : v.hasSubqueries = false) : activeView choice raws v = .ok [] := by
  rw [activeView, if_pos h]

theorem activeView_ranked {raws : List (RawView V)} {v : RawView V}
    (h : v.spec.mergeStrategy ≠ .scopedMask) :
    activeView choice raws v = .ok (rankedRows choice v.spec v.rows) := by
  unfold activeView
  by_cases hno : v.hasSubqueries = false
  · rw [if_pos hno, RawView.rows_eq_nil_of_not_hasSubqueries hno]
    rfl
  · rw [if_neg hno, if_pos h]

theorem activeView_masked_iff {raws : List (RawView V)} {v p : RawView V} {rows : Table V}
    (h : v.spec.mergeStrategy = .scopedMask)
    (hp : raws.find? (fun p => p.spec.name = v.spec.parentName) = some p) :
    activeView choice raws v = .ok rows ↔
      (v.hasSubqueries = true → p.hasSubqueries = true ∧ JoinColumnsKnown v.spec p.spec) ∧
        rows = maskedRows choice v.spec p.spec v.rows p.rows := by
  unfold activeView
  split
  · rename_i hno
    rw [RawView.rows_eq_nil_of_not_hasSubqueries hno]
    have hnil : maskedRows choice v.spec p.spec [] p.rows = [] := rfl
    rw [hno, hnil]
    simp only [Bool.false_eq_true, false_implies, true_and, Except.ok.injEq]
    exact eq_comm
  · rename_i hsub
    have hsub' : v.hasSubqueries = true := by simpa using hsub
    rw [if_neg (not_not.mpr h), hp]
    simp only [hsub', true_implies]
    split
    · rename_i hno
      simp [hno]
    · rename_i hyes
      have hyes' : p.hasSubqueries = true := by simpa using hyes
      have hcols : (v.spec.joinColumns.all fun k =>
          decide (k ∈ v.spec.schema.names ∧ k ∈ p.spec.schema.names)) = true ↔
          JoinColumnsKnown v.spec p.spec := by
        simp [JoinColumnsKnown]
      split
      · rename_i hk
        simp only [hyes', hcols.mp hk, true_and, Except.ok.injEq]
        exact eq_comm
      · rename_i hk
        have hk' : ¬ JoinColumnsKnown v.spec p.spec := fun h => hk (hcols.mpr h)
        simp [hk']

theorem mergeViews_of_forall {raws : List (RawView V)} {rows : RawView V → Table V}
    (h : ∀ v ∈ raws, activeView choice raws v = .ok (rows v)) :
    mergeViews choice raws = .ok (raws.map fun v => (v.spec.name, rows v)) := by
  unfold mergeViews
  refine mapM_eq_ok_map fun v hv => ?_
  rw [h v hv]
  rfl

theorem lookup_of_mergeViews {raws : List (RawView V)} (hnames : (raws.map (·.spec.name)).Nodup)
    {views : List (String × Table V)} (h : mergeViews choice raws = .ok views) {v : RawView V}
    (hv : v ∈ raws) : ∃ rows, activeView choice raws v = .ok rows ∧
      views.lookup v.spec.name = some rows := by
  unfold mergeViews at h
  obtain ⟨e, he⟩ := exists_of_mapM h hv
  obtain ⟨rows, hrows, rfl⟩ := map_eq_ok.mp he
  refine ⟨rows, hrows, ?_⟩
  have hkeys : views.map Prod.fst = raws.map (·.spec.name) := by
    refine map_mapM h fun w _ b hb => ?_
    obtain ⟨_, _, rfl⟩ := map_eq_ok.mp hb
    rfl
  refine Dict.lookup_eq_some_of_mem (hkeys ▸ hnames) ?_
  exact (mem_mapM h).mpr ⟨v, hv, he⟩

omit [LinearOrder V] in
/-- The raw view of a named relation. -/
theorem find?_map_raw {ordered : List RelationSpec} (hnames : (ordered.map (·.name)).Nodup)
    {raw : RelationSpec → RawView V} (hspec : ∀ s, (raw s).spec = s) {p : RelationSpec}
    (hp : p ∈ ordered) {name : String} (he : p.name = name) :
    (ordered.map raw).find? (fun v => v.spec.name = name) = some (raw p) := by
  rw [List.find?_map, Option.map_eq_some_iff]
  refine ⟨p, ?_, rfl⟩
  cases hf : ordered.find? (fun s => decide ((raw s).spec.name = name)) with
  | none =>
    have hno := List.find?_eq_none.mp hf p hp
    simp [hspec, he] at hno
  | some q =>
    have hq : q.name = name := by simpa [hspec] using List.find?_some hf
    have hqp : q = p :=
      List.inj_on_of_nodup_map hnames (List.mem_of_find?_eq_some hf) hp (hq.trans he.symm)
    exact hqp ▸ hf

theorem exists_mergeViews_iff {ordered : List RelationSpec} (hnames : (ordered.map (·.name)).Nodup)
    {raw : RelationSpec → RawView V} (hspec : ∀ s, (raw s).spec = s)
    {P : RelationSpec → Table V → Prop} :
    (∃ views, mergeViews choice (ordered.map raw) = .ok views ∧ ∀ s ∈ ordered, P s (viewRows views s)) ↔
      ∀ s ∈ ordered, ∃ rows, activeView choice (ordered.map raw) (raw s) = .ok rows ∧ P s rows := by
  have hnames' : ((ordered.map raw).map (·.spec.name)).Nodup := by
    simpa [List.map_map, Function.comp_def, hspec] using hnames
  have hview : ∀ views, mergeViews choice (ordered.map raw) = .ok views → ∀ s ∈ ordered,
      activeView choice (ordered.map raw) (raw s) = .ok (viewRows views s) := by
    intro views h s hs
    obtain ⟨rows, hrows, hlookup⟩ := lookup_of_mergeViews hnames' h (List.mem_map_of_mem hs)
    rw [hspec] at hlookup
    rw [hrows, viewRows, hlookup]
    rfl
  constructor
  · rintro ⟨views, h, hP⟩ s hs
    exact ⟨_, hview views h s hs, hP s hs⟩
  · intro h
    have hall : ∀ v ∈ ordered.map raw, ∃ rows, activeView choice (ordered.map raw) v = .ok rows := by
      intro v hv
      obtain ⟨s, hs, rfl⟩ := List.mem_map.mp hv
      obtain ⟨rows, hrows, _⟩ := h s hs
      exact ⟨rows, hrows⟩
    let rows : RawView V → Table V := fun v =>
      match activeView choice (ordered.map raw) v with
      | .ok t => t
      | .error _ => []
    have hrows : ∀ v ∈ ordered.map raw, activeView choice (ordered.map raw) v = .ok (rows v) := by
      intro v hv
      obtain ⟨t, ht⟩ := hall v hv
      simp only [rows, ht]
    refine ⟨_, mergeViews_of_forall hrows, fun s hs => ?_⟩
    obtain ⟨t, ht, hP⟩ := h s hs
    have he := hview _ (mergeViews_of_forall hrows) s hs
    rw [ht] at he
    rwa [← Except.ok.inj he]

end Views

/-! ## Reading a lineage -/

section Reading
variable {engine : Engine V} {files : FileSystem} {root : Path}

def HasParts (files : FileSystem) (root : Path) (nodes : List DAGNodeManifest) (spec : RelationSpec) :
    Prop :=
  ∃ node ∈ nodes, ∃ part ∈ (node.relations.get? spec.name).getD [],
    (fileContent files (partPath files root node.snapshotId part.path)).isSome

theorem readPart_fits {schema : Schema} {content : Bytes} {table : Table V}
    (h : readPart engine schema content = .ok table) : schema.Fits table := by
  unfold readPart at h
  split at h
  · cases h
  · rename_i p _
    split at h
    · rename_i hs
      cases h
      exact hs ▸ p.fits
    · cases h

theorem nodeRows_fits {spec : RelationSpec} {node : DAGNodeManifest} {table : Table V}
    (h : nodeRows engine files root spec node = .ok (some table)) : spec.schema.Fits table := by
  unfold nodeRows at h
  simp only at h
  split at h
  · cases h
  · obtain ⟨tables, htables, he⟩ := map_eq_ok.mp h
    obtain rfl := Option.some.inj he
    intro row hrow
    obtain ⟨t, ht, hrow⟩ := List.mem_flatten.mp hrow
    obtain ⟨content, _, hread⟩ := (mem_mapM htables).mp ht
    exact readPart_fits hread row hrow

theorem nodeRows_of_written {spec : RelationSpec} {node : DAGNodeManifest} {written : List (Parquet V)}
    (hschema : ∀ p ∈ written, p.schema = spec.schema) (hne : written ≠ [])
    (hparts : (((node.relations.get? spec.name).getD []).filterMap fun part =>
      fileContent files (partPath files root node.snapshotId part.path)) =
        written.map engine.encode) :
    nodeRows engine files root spec node = .ok (some (written.flatMap (·.rows))) := by
  have hread : (written.map engine.encode).mapM (readPart engine spec.schema) =
      .ok (written.map (·.rows)) := by
    rw [List.mapM_map]
    refine mapM_eq_ok_map fun p hp => ?_
    unfold readPart
    rw [Function.comp_apply, engine.decode_encode]
    exact if_pos (hschema p hp)
  unfold nodeRows
  simp only [hparts, hread]
  rw [if_neg (by simpa using hne), List.flatMap_def]
  rfl

theorem nodeRows_eq_none_iff {spec : RelationSpec} {node : DAGNodeManifest}
    {source : Option (Table V)} (h : nodeRows engine files root spec node = .ok source) :
    source.isSome = true ↔ ∃ part ∈ (node.relations.get? spec.name).getD [],
      (fileContent files (partPath files root node.snapshotId part.path)).isSome := by
  unfold nodeRows at h
  simp only at h
  split at h
  · rename_i hnil
    cases h
    simp only [Option.isSome_none, Bool.false_eq_true, false_iff, not_exists, not_and]
    intro part hpart hsome
    obtain ⟨content, hc⟩ := Option.isSome_iff_exists.mp hsome
    have hin : content ∈ ([] : List Bytes) := hnil ▸ List.mem_filterMap.mpr ⟨part, hpart, hc⟩
    cases hin
  · rename_i hne
    obtain ⟨tables, _, rfl⟩ := map_eq_ok.mp h
    simp only [Option.isSome_some, true_iff]
    obtain ⟨content, hin⟩ := List.exists_mem_of_ne_nil _ hne
    obtain ⟨part, hpart, hc⟩ := List.mem_filterMap.mp hin
    exact ⟨part, hpart, by rw [hc]; rfl⟩

theorem hasSubqueries_iff {nodes : List DAGNodeManifest} {spec : RelationSpec}
    {sources : List (Option (Table V))}
    (h : nodes.mapM (nodeRows engine files root spec) = .ok sources) :
    (RawView.mk spec sources).hasSubqueries = true ↔ HasParts files root nodes spec := by
  unfold RawView.hasSubqueries HasParts
  rw [List.any_eq_true]
  constructor
  · rintro ⟨source, hin, hsome⟩
    obtain ⟨node, hnode, hread⟩ := (mem_mapM h).mp hin
    exact ⟨node, hnode, (nodeRows_eq_none_iff hread).mp hsome⟩
  · rintro ⟨node, hnode, hpart⟩
    obtain ⟨source, hread⟩ := exists_of_mapM h hnode
    exact ⟨source, (mem_mapM h).mpr ⟨node, hnode, hread⟩, (nodeRows_eq_none_iff hread).mpr hpart⟩

theorem fits_rows {nodes : List DAGNodeManifest} {spec : RelationSpec}
    {sources : List (Option (Table V))}
    (h : nodes.mapM (nodeRows engine files root spec) = .ok sources) {r : Nat × Row V}
    (hr : r ∈ (RawView.mk spec sources).rows) : r.2.length = spec.schema.names.length := by
  obtain ⟨table, hin, hrow⟩ := RawView.exists_source_of_mem_rows hr
  obtain ⟨node, _, hread⟩ := (mem_mapM h).mp hin
  exact nodeRows_fits hread _ hrow

variable [LinearOrder V] {specs : List RelationSpec} {lineage : LineageChain}

theorem compileVirtualViews_eq {ordered : List RelationSpec}
    (ho : orderedSpecs specs.length [] specs = .ok ordered) (hn : checkViewNames ordered = .ok ())
    {sources : RelationSpec → List (Option (Table V))}
    (hread : ∀ s ∈ specs, lineage.nodes.mapM (nodeRows engine files root s) = .ok (sources s)) :
    compileVirtualViews engine files root specs lineage =
      mergeViews engine.toChoice (ordered.map fun s => ⟨s, sources s⟩) := by
  have hraws : ordered.mapM (readRelation engine files root lineage.nodes) =
      .ok (ordered.map fun s => ⟨s, sources s⟩) := by
    refine mapM_eq_ok_map fun s hs => ?_
    rw [readRelation, hread s ((orderedSpecs_perm ho).mem_iff.mp hs)]
    rfl
  rw [compileVirtualViews, ho]
  simp only [bind, Except.bind, hn, hraws]

theorem exists_of_compileVirtualViews {views : List (String × Table V)}
    (h : compileVirtualViews engine files root specs lineage = .ok views) :
    ∃ (ordered : List RelationSpec) (sources : RelationSpec → List (Option (Table V))),
      orderedSpecs specs.length [] specs = .ok ordered ∧ checkViewNames ordered = .ok () ∧
      (∀ s ∈ specs, lineage.nodes.mapM (nodeRows engine files root s) = .ok (sources s)) ∧
      mergeViews engine.toChoice (ordered.map fun s => ⟨s, sources s⟩) = .ok views := by
  have h' := h
  obtain ⟨ordered, ho, h⟩ := bind_eq_ok.mp h
  obtain ⟨⟨⟩, hn, h⟩ := bind_eq_ok.mp h
  obtain ⟨raws, hraws, _⟩ := bind_eq_ok.mp h
  let sources : RelationSpec → List (Option (Table V)) := fun s =>
    match lineage.nodes.mapM (nodeRows engine files root s) with
    | .ok l => l
    | .error _ => []
  have hread : ∀ s ∈ specs, lineage.nodes.mapM (nodeRows engine files root s) = .ok (sources s) := by
    intro s hs
    obtain ⟨v, hv⟩ := exists_of_mapM hraws ((orderedSpecs_perm ho).mem_iff.mpr hs)
    obtain ⟨l, hl, _⟩ := map_eq_ok.mp hv
    simp only [sources, hl]
  refine ⟨ordered, sources, ho, hn, hread, ?_⟩
  rw [← compileVirtualViews_eq ho hn hread]
  exact h'

theorem exists_activeView {views : List (String × Table V)}
    (h : compileVirtualViews engine files root specs lineage = .ok views) {spec : RelationSpec}
    (hspec : spec ∈ specs) : ∃ raws sources, lineage.nodes.mapM (nodeRows engine files root spec) = .ok sources ∧
      activeView engine.toChoice raws ⟨spec, sources⟩ = .ok (viewRows views spec) := by
  obtain ⟨ordered, sources, ho, hn, hread, hmerge⟩ := exists_of_compileVirtualViews h
  have hnames : ((ordered.map fun s => RawView.mk s (sources s)).map (·.spec.name)).Nodup := by
    rw [List.map_map]
    exact checkViewNames_eq_ok hn
  have hin : RawView.mk spec (sources spec) ∈ ordered.map fun s => RawView.mk s (sources s) :=
    List.mem_map_of_mem ((orderedSpecs_perm ho).mem_iff.mpr hspec)
  obtain ⟨rows, hrows, hlookup⟩ := lookup_of_mergeViews hnames hmerge hin
  have hshown : viewRows views spec = rows := by
    rw [viewRows]
    exact congrArg (·.getD []) hlookup
  exact ⟨_, sources spec, hread spec hspec, hshown ▸ hrows⟩

end Reading

end EdgarSec.Dag
