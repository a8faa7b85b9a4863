import EdgarSec.Dag.PrunedRows
import EdgarSec.Inventory.CellEngine
import EdgarSec.Inventory.Relations

/-! Point queries over an inventory lineage: one accession looked up over the parts whose
bounds admit it, against the views over the whole lineage. -/

namespace EdgarSec.Inventory
open Foundation Lib Dag

variable {engine : Engine Cell} {files : FileSystem} {root : Path} {lineage : LineageChain}
  {views : List (String × Table Cell)} {k : String}

/-! ## The property -/

def Cell.str : Cell → String
  | .text s => s
  | .int n => toString n

def castText (param : String) : Option Cell := some (.text param)

def queryAccession (engine : Engine Cell) (files : FileSystem) (root : Path) (r : InventoryRelation)
    (lineage : LineageChain) (k : String) : Except DagError (Table Cell) :=
  queryPoint engine castText files root r.spec lineage k (some "accession") (some inventoryRelations)

/-- The query returns, and what it returns are the rows of the accession in the view. -/
def PlainQuery (engine : Engine Cell) (files : FileSystem) (root : Path) (lineage : LineageChain)
    (views : List (String × Table Cell)) (r : InventoryRelation) (k : String) : Prop :=
  ∃ table, queryAccession engine files root r lineage k = .ok table ∧
    table.Perm ((viewRows views r.spec).filter fun row => r.spec.schema.cell row "accession" = text k)

/-- The descriptors carry the bounds of the entity keys of their files. -/
def KeyBoundsCarried (engine : Engine Cell) (files : FileSystem) (root : Path)
    (lineage : LineageChain) : Prop :=
  ∀ r : InventoryRelation, ∀ node ∈ lineage.nodes, ∀ part ∈ nodeParts r.spec node,
    CarriesBounds Cell.str part r.spec.schema (keyColumn r.spec)
      (partRows engine files root r.spec.schema node.snapshotId part)

def keptPlaces (files : FileSystem) (root : Path) (lineage : LineageChain) (k : String)
    (r : InventoryRelation) : List (Nat × Path) :=
  prunePartsForRange files lineage r.spec.name (some k) (some k) root

/-- No kept part stands under a name with a quote, and kept entries have kept accessions. -/
def QueryBinds (files : FileSystem) (root : Path) (lineage : LineageChain) (k : String) : Prop :=
  (∀ r : InventoryRelation, ∀ kept ∈ keptPlaces files root lineage k r, hasQuote kept.2 = false) ∧
    (keptPlaces files root lineage k .entries = [] ∨ keptPlaces files root lineage k .accessions ≠ [])

/-! ## The whole lineage -/

def sourceRows (sources : RelationSpec → List (Option (Table Cell))) (r : InventoryRelation) :
    List (Nat × Row Cell) :=
  (RawView.mk r.spec (sources r.spec)).rows

theorem spec_mem (r : InventoryRelation) : r.spec ∈ inventoryRelations :=
  List.mem_map_of_mem r.mem_all

theorem exists_viewRows
    (h : compileVirtualViews engine files root inventoryRelations lineage = .ok views) :
    ∃ sources : RelationSpec → List (Option (Table Cell)),
      (∀ r : InventoryRelation, lineage.nodes.mapM (nodeRows engine files root r.spec) =
        .ok (sources r.spec)) ∧
      viewRows views inventoryAccessionsSpec =
        rankedRows engine.toChoice inventoryAccessionsSpec (sourceRows sources .accessions) ∧
      viewRows views inventoryEntriesSpec =
        maskedRows engine.toChoice inventoryEntriesSpec inventoryAccessionsSpec
          (sourceRows sources .entries) (sourceRows sources .accessions) := by
  obtain ⟨ordered, sources, ho, -, hread, hmerge⟩ := exists_of_compileVirtualViews h
  have hordered : orderedSpecs inventoryRelations.length [] inventoryRelations =
      .ok (orderedRelations.map (·.spec)) := by rfl
  obtain rfl := Except.ok.inj (ho.symm.trans hordered)
  have hdistinct : (orderedRelations.map (·.spec.name)).Nodup := by decide
  have hnames : (((orderedRelations.map (·.spec)).map fun s =>
      RawView.mk s (sources s)).map (·.spec.name)).Nodup := by
    rw [List.map_map, List.map_map]
    exact hdistinct
  have hview : ∀ r : InventoryRelation, ∃ rows, activeView engine.toChoice
      ((orderedRelations.map (·.spec)).map fun s => RawView.mk s (sources s))
        ⟨r.spec, sources r.spec⟩ = .ok rows ∧ views.lookup r.spec.name = some rows := by
    intro r
    refine lookup_of_mergeViews hnames hmerge (List.mem_map_of_mem (List.mem_map_of_mem ?_))
    cases r <;> decide
  refine ⟨sources, fun r => hread _ (spec_mem r), ?_, ?_⟩
  · obtain ⟨rows, hrows, hlookup⟩ := hview .accessions
    rw [activeView_ranked (by decide : inventoryAccessionsSpec.mergeStrategy ≠ .scopedMask)] at hrows
    have hshown : viewRows views inventoryAccessionsSpec = rows := by
      rw [viewRows]
      exact congrArg (·.getD []) hlookup
    rw [hshown]
    exact (Except.ok.inj hrows).symm
  · obtain ⟨rows, hrows, hlookup⟩ := hview .entries
    have hshown : viewRows views inventoryEntriesSpec = rows := by
      rw [viewRows]
      exact congrArg (·.getD []) hlookup
    rw [hshown]
    exact ((@activeView_masked_iff _ _ engine.toChoice
      ((orderedRelations.map (·.spec)).map fun s => RawView.mk s (sources s))
      ⟨inventoryEntriesSpec, sources inventoryEntriesSpec⟩
      ⟨inventoryAccessionsSpec, sources inventoryAccessionsSpec⟩ rows rfl rfl).mp hrows).2

/-! ## The pruned views -/

def accessionRanges (k : String) : RelationRanges :=
  inventoryRelations.map fun s => (s.name, (some k, some k))

theorem lookup_accessionRanges (k : String) (r : InventoryRelation) :
    (accessionRanges k).lookup r.spec.name = some (some k, some k) := by
  cases r <;> rfl

def prunedRows (engine : Engine Cell) (files : FileSystem) (root : Path) (lineage : LineageChain)
    (k : String) (r : InventoryRelation) : List (Nat × Row Cell) :=
  lineageRows engine files root r.spec (keepsPart files root (some k) (some k)) lineage.nodes

theorem maskedLast_inventoryRelations : maskedLast inventoryRelations =
    [inventoryAccessionsSpec, inventoryAccessionSourcesSpec, inventoryEnumerationSpec,
      inventoryEntriesSpec] := rfl

theorem joinColumnsKnown_entries : JoinColumnsKnown inventoryEntriesSpec inventoryAccessionsSpec := by
  unfold JoinColumnsKnown
  decide

structure IsPruned (engine : Engine Cell) (files : FileSystem) (root : Path) (lineage : LineageChain)
    (k : String) (r : InventoryRelation) (view : PrunedView Cell) : Prop where
  read : readPruned engine files root lineage (accessionRanges k) r.spec = .ok view
  spec_eq : view.spec = r.spec
  parts : view.parts = [] ↔ keptPlaces files root lineage k r = []
  rows : view.rows = prunedRows engine files root lineage k r

theorem exists_isPruned {r : InventoryRelation}
    (hread : Readable engine files root r.spec lineage.nodes)
    (hquote : ∀ kept ∈ keptPlaces files root lineage k r, hasQuote kept.2 = false) :
    ∃ view, IsPruned engine files root lineage k r view := by
  obtain ⟨view, hview, hspec, hparts, hrows⟩ :=
    readPruned_of_unquoted hread (lookup_accessionRanges k r) hquote
  exact ⟨view, hview, hspec, hparts, hrows⟩

theorem isPruned_of_readPruned {r : InventoryRelation} {view : PrunedView Cell}
    (hread : Readable engine files root r.spec lineage.nodes)
    (h : readPruned engine files root lineage (accessionRanges k) r.spec = .ok view) :
    (∀ kept ∈ keptPlaces files root lineage k r, hasQuote kept.2 = false) ∧
      IsPruned engine files root lineage k r view := by
  have hquote := unquoted_of_readPruned (lookup_accessionRanges k r) h
  obtain ⟨view', hview'⟩ := exists_isPruned hread hquote
  obtain rfl := Except.ok.inj (h.symm.trans hview'.read)
  exact ⟨hquote, hview'⟩

theorem IsPruned.activeView_ranked {r : InventoryRelation} {view : PrunedView Cell}
    (h : IsPruned engine files root lineage k r view) (hrank : r.spec.mergeStrategy ≠ .scopedMask)
    (raws : List (PrunedView Cell)) : prunedActiveView engine.toChoice raws view =
      .ok (rankedRows engine.toChoice r.spec (prunedRows engine files root lineage k r)) := by
  rw [prunedActiveView_ranked (by rwa [h.spec_eq]), h.spec_eq, h.rows]

theorem activeView_entries_iff {a s e n : PrunedView Cell} {rows : Table Cell}
    (ha : IsPruned engine files root lineage k .accessions a)
    (hs : IsPruned engine files root lineage k .accessionSources s)
    (he : IsPruned engine files root lineage k .accessionEnumeration e)
    (hn : IsPruned engine files root lineage k .entries n) :
    prunedActiveView engine.toChoice [n, e, s, a] n = .ok rows ↔
      (keptPlaces files root lineage k .entries = [] ∨
        keptPlaces files root lineage k .accessions ≠ []) ∧
      rows = maskedRows engine.toChoice inventoryEntriesSpec inventoryAccessionsSpec
        (prunedRows engine files root lineage k .entries)
        (prunedRows engine files root lineage k .accessions) := by
  have hn' : n.spec = inventoryEntriesSpec := hn.spec_eq
  have ha' : a.spec = inventoryAccessionsSpec := ha.spec_eq
  have hparent : [n, e, s, a].find? (fun p => p.spec.name = n.spec.parentName) = some a := by
    rw [hn']
    have hnames : n.spec.name = "entries" ∧ e.spec.name = "accession_enumeration" ∧
        s.spec.name = "accession_sources" ∧ a.spec.name = "accessions" := by
      rw [hn.spec_eq, he.spec_eq, hs.spec_eq, ha.spec_eq]
      exact ⟨rfl, rfl, rfl, rfl⟩
    have hname : inventoryEntriesSpec.parentName = "accessions" := rfl
    simp [hnames, hname]
  have hmask : n.spec.mergeStrategy = .scopedMask := by rw [hn']; rfl
  have hjoin : JoinColumnsKnown n.spec a.spec := by
    rw [hn', ha']
    exact joinColumnsKnown_entries
  rw [prunedActiveView_masked_iff hmask hparent hjoin, hn.parts, ha.rows, hn.rows, hn', ha']
  have hparts : a.parts ≠ [] ↔ keptPlaces files root lineage k .accessions ≠ [] := not_congr ha.parts
  rw [hparts]

theorem compilePrunedViews_eq_ok_iff
    (hread : ∀ r : InventoryRelation, Readable engine files root r.spec lineage.nodes)
    {shown : List (String × Table Cell)} :
    compilePrunedViews engine files root inventoryRelations lineage (accessionRanges k) = .ok shown ↔
      QueryBinds files root lineage k ∧ shown =
        [("accessions", rankedRows engine.toChoice inventoryAccessionsSpec
            (prunedRows engine files root lineage k .accessions)),
          ("accession_sources", rankedRows engine.toChoice inventoryAccessionSourcesSpec
            (prunedRows engine files root lineage k .accessionSources)),
          ("accession_enumeration", rankedRows engine.toChoice inventoryEnumerationSpec
            (prunedRows engine files root lineage k .accessionEnumeration)),
          ("entries", maskedRows engine.toChoice inventoryEntriesSpec inventoryAccessionsSpec
            (prunedRows engine files root lineage k .entries)
            (prunedRows engine files root lineage k .accessions))] := by
  have hrank : ∀ r : InventoryRelation, r ≠ .entries → r.spec.mergeStrategy ≠ .scopedMask := by
    intro r hr
    cases r with
    | entries => exact absurd rfl hr
    | accessions => decide
    | accessionSources => decide
    | accessionEnumeration => decide
  rw [compilePrunedViews, maskedLast_inventoryRelations]
  constructor
  · intro h
    obtain ⟨a, rowsA, restA, ha, hrowsA, hrestA, hshown⟩ := registerViews_cons_eq_ok_iff.mp h
    obtain ⟨s, rowsS, restS, hs, hrowsS, hrestS, hshownA⟩ := registerViews_cons_eq_ok_iff.mp hrestA
    obtain ⟨e, rowsE, restE, he, hrowsE, hrestE, hshownS⟩ := registerViews_cons_eq_ok_iff.mp hrestS
    obtain ⟨n, rowsN, restN, hn, hrowsN, hrestN, hshownE⟩ := registerViews_cons_eq_ok_iff.mp hrestE
    have hshownN : restN = [] := (Except.ok.inj hrestN).symm
    obtain ⟨hquoteA, ha⟩ := isPruned_of_readPruned (hread .accessions) ha
    obtain ⟨hquoteS, hs⟩ := isPruned_of_readPruned (hread .accessionSources) hs
    obtain ⟨hquoteE, he⟩ := isPruned_of_readPruned (hread .accessionEnumeration) he
    obtain ⟨hquoteN, hn⟩ := isPruned_of_readPruned (hread .entries) hn
    obtain ⟨hbinds, hrowsN⟩ := (activeView_entries_iff ha hs he hn).mp hrowsN
    rw [ha.activeView_ranked (hrank _ (by decide))] at hrowsA
    rw [hs.activeView_ranked (hrank _ (by decide))] at hrowsS
    rw [he.activeView_ranked (hrank _ (by decide))] at hrowsE
    rw [hshown, hshownA, hshownS, hshownE, hshownN, hrowsN, ← Except.ok.inj hrowsA,
      ← Except.ok.inj hrowsS, ← Except.ok.inj hrowsE]
    refine ⟨⟨?_, hbinds⟩, rfl⟩
    intro r
    cases r with
    | accessions => exact hquoteA
    | entries => exact hquoteN
    | accessionSources => exact hquoteS
    | accessionEnumeration => exact hquoteE
  · intro ⟨⟨hquote, hbinds⟩, hshown⟩
    obtain ⟨a, ha⟩ := exists_isPruned (hread .accessions) (hquote _)
    obtain ⟨s, hs⟩ := exists_isPruned (hread .accessionSources) (hquote _)
    obtain ⟨e, he⟩ := exists_isPruned (hread .accessionEnumeration) (hquote _)
    obtain ⟨n, hn⟩ := exists_isPruned (hread .entries) (hquote _)
    have hrowsN := (activeView_entries_iff ha hs he hn).mpr ⟨hbinds, rfl⟩
    rw [hshown]
    refine registerViews_cons_eq_ok_iff.mpr ⟨a, _, _, ha.read,
      ha.activeView_ranked (hrank _ (by decide)) _, ?_, rfl⟩
    refine registerViews_cons_eq_ok_iff.mpr ⟨s, _, _, hs.read,
      hs.activeView_ranked (hrank _ (by decide)) _, ?_, rfl⟩
    refine registerViews_cons_eq_ok_iff.mpr ⟨e, _, _, he.read,
      he.activeView_ranked (hrank _ (by decide)) _, ?_, rfl⟩
    exact registerViews_cons_eq_ok_iff.mpr ⟨n, _, _, hn.read, hrowsN, rfl, rfl⟩

/-! ## The query -/

def prunedView (engine : Engine Cell) (files : FileSystem) (root : Path) (lineage : LineageChain)
    (k : String) (r : InventoryRelation) : Table Cell :=
  if r = .entries then
    maskedRows engine.toChoice inventoryEntriesSpec inventoryAccessionsSpec
      (prunedRows engine files root lineage k .entries)
      (prunedRows engine files root lineage k .accessions)
  else rankedRows engine.toChoice r.spec (prunedRows engine files root lineage k r)

theorem queryAccession_eq_ok_iff
    (hread : ∀ r : InventoryRelation, Readable engine files root r.spec lineage.nodes)
    {r : InventoryRelation} {table : Table Cell} :
    queryAccession engine files root r lineage k = .ok table ↔ QueryBinds files root lineage k ∧
      table = (prunedView engine files root lineage k r).filter fun row =>
        r.spec.schema.cell row "accession" = text k := by
  have hcol : queryColumn r.spec (some "accession") = "accession" := rfl
  have hrange : queryRange r.spec "accession" k = (k, k) := by
    rw [queryRange, if_neg (by simp)]
  have hidentifier : isIdentifier "accession" = true := by decide
  have hknown : "accession" ∈ r.spec.schema.names := by cases r <;> decide
  unfold queryAccession queryPoint
  simp only [hcol, hrange, hidentifier, Option.getD_some, castText]
  rw [bind_eq_ok]
  constructor
  · intro ⟨shown, hshown, hrows⟩
    obtain ⟨hbinds, rfl⟩ := (compilePrunedViews_eq_ok_iff hread).mp hshown
    refine ⟨hbinds, ?_⟩
    cases r <;> exact (Except.ok.inj hrows).symm
  · intro ⟨hbinds, htable⟩
    refine ⟨_, (compilePrunedViews_eq_ok_iff hread).mpr ⟨hbinds, rfl⟩, ?_⟩
    rw [htable]
    cases r <;> rfl

theorem filter_prunedView
    (hviews : compileVirtualViews engine files root inventoryRelations lineage = .ok views)
    (hbounds : KeyBoundsCarried engine files root lineage) {r : InventoryRelation}
    (hr : r = .accessions ∨ r = .entries) :
    ((prunedView engine files root lineage k r).filter fun row =>
        r.spec.schema.cell row "accession" = text k) =
      (viewRows views r.spec).filter fun row => r.spec.schema.cell row "accession" = text k := by
  obtain ⟨sources, hread, haccessions, hentries⟩ := exists_viewRows hviews
  -- the rows of the accession, relation by relation
  have hrows : ∀ r' : InventoryRelation, keyColumn r'.spec = "accession" →
      ((prunedRows engine files root lineage k r').filter fun row =>
        r'.spec.schema.cell row.2 "accession" = some (Cell.text k)) =
      (sourceRows sources r').filter fun row =>
        r'.spec.schema.cell row.2 "accession" = some (Cell.text k) := by
    intro r' hkey
    have hcarried := fun node hnode part hpart => hkey ▸ hbounds r' node hnode part hpart
    have hfilter := filter_lineageRows hcarried (Cell.text k)
    have hwhole : sourceRows sources r' =
        lineageRows engine files root r'.spec (fun _ _ => true) lineage.nodes :=
      rows_eq_lineageRows (hread r')
    rw [hwhole]
    exact hfilter
  rcases hr with rfl | rfl
  · rw [show viewRows views InventoryRelation.accessions.spec =
      rankedRows engine.toChoice inventoryAccessionsSpec (sourceRows sources .accessions) from
        haccessions]
    exact filter_rankedRows_congr rfl (hrows .accessions rfl)
  · rw [show viewRows views InventoryRelation.entries.spec =
      maskedRows engine.toChoice inventoryEntriesSpec inventoryAccessionsSpec
        (sourceRows sources .entries) (sourceRows sources .accessions) from hentries]
    exact filter_maskedRows_congr rfl (hrows .entries rfl) (hrows .accessions rfl)

/-- When the point query over the pruned parts is the plain query. -/
theorem queryAccession_plain_iff
    (hviews : compileVirtualViews engine files root inventoryRelations lineage = .ok views)
    (hbounds : KeyBoundsCarried engine files root lineage) {r : InventoryRelation}
    (hr : r = .accessions ∨ r = .entries) :
    PlainQuery engine files root lineage views r k ↔ QueryBinds files root lineage k := by
  obtain ⟨sources, hsources, -, -⟩ := exists_viewRows hviews
  have hread := fun r => readable_of_mapM (hsources r)
  constructor
  · intro ⟨table, htable, _⟩
    exact ((queryAccession_eq_ok_iff hread).mp htable).1
  · intro hbinds
    refine ⟨_, (queryAccession_eq_ok_iff hread).mpr ⟨hbinds, rfl⟩, ?_⟩
    rw [filter_prunedView hviews hbounds hr]

/-! ## A checkpoint whose parts are cut differently -/

def lowAccession : String := "0000320193-25-000001"
def midAccession : String := "0000320193-25-000003"
def highAccession : String := "0000320193-25-000005"

def accessionRow (accession : String) : Row Cell :=
  [text accession, text "0000320193", text "10-K", text "2025-01-31", none, none, none, none, none, none]

def entryRow (accession : String) : Row Cell :=
  [text (accession ++ "-1"), text accession, text "document_format", number 0, number 1, none, none,
    none, none, none, none, none]

def accessionsPart (accession : String) : Parquet Cell where
  schema := snapshotAccessionsSchema
  rows := [accessionRow accession]
  fits := by simp [Schema.Fits, accessionRow, snapshotAccessionsSchema]

def entriesPart : Parquet Cell where
  schema := entrySchema
  rows := [entryRow lowAccession, entryRow highAccession]
  fits := by simp [Schema.Fits, entryRow, entrySchema]

def cutDescriptor (path keyMin keyMax : String) (rows : Nat) : PartDescriptor :=
  ⟨path, "", rows, 1, some keyMin, some keyMax⟩

def cutNode : DAGNodeManifest where
  snapshotId := "s"
  kind := .checkpoint
  parents := []
  checkpointAnchorId := "s"
  lineageDepth := 0
  createdAt := ""
  relations := (Dict.empty.set "accessions" [cutDescriptor "a0" lowAccession lowAccession 1,
    cutDescriptor "a1" highAccession highAccession 1]).set "entries"
      [cutDescriptor "e0" lowAccession highAccession 2]
  logicalFingerprint := ""

def cutLineage : LineageChain := ⟨"s", "s", [cutNode]⟩

def cutFiles : FileSystem where
  entries := ⟨[(["r"], .dir), (["r", "s"], .dir),
    (["r", "s", "a0"], .file (cellEngine.encode (accessionsPart lowAccession))),
    (["r", "s", "a1"], .file (cellEngine.encode (accessionsPart highAccession))),
    (["r", "s", "e0"], .file (cellEngine.encode entriesPart))], by simp⟩
  parents := by
    intro p hp
    have hcases : p = ["r"] ∨ p = ["r", "s"] ∨ p = ["r", "s", "a0"] ∨ p = ["r", "s", "a1"] ∨
        p = ["r", "s", "e0"] := by
      simpa [Dict.keys] using hp
    rcases hcases with rfl | rfl | rfl | rfl | rfl
    · exact ⟨by decide, Or.inl rfl⟩
    · exact ⟨by decide, Or.inr rfl⟩
    · exact ⟨by decide, Or.inr rfl⟩
    · exact ⟨by decide, Or.inr rfl⟩
    · exact ⟨by decide, Or.inr rfl⟩

def cutParts : InventoryRelation → List (Parquet Cell)
  | .accessions => [accessionsPart lowAccession, accessionsPart highAccession]
  | .entries => [entriesPart]
  | _ => []

def cutSnapshot : SnapshotNode := ⟨[], fun r => (cutParts r).map (·.rows)⟩

theorem stored_cut : Stored cellEngine cutFiles ["r"] cutLineage [cutSnapshot] := by
  have hread : ∀ r : InventoryRelation,
      nodeRows cellEngine cutFiles ["r"] r.spec cutNode = .ok (cutSnapshot.source r) := by
    intro r
    cases r with
    | accessions =>
      exact @nodeRows_of_written _ cellEngine _ _ _ _ (cutParts .accessions)
        (by simp [cutParts, accessionsPart, InventoryRelation.spec, inventoryAccessionsSpec])
        (by simp [cutParts]) rfl
    | entries =>
      exact @nodeRows_of_written _ cellEngine _ _ _ _ (cutParts .entries)
        (by simp [cutParts, entriesPart, InventoryRelation.spec, inventoryEntriesSpec])
        (by simp [cutParts]) rfl
    | accessionSources => rfl
    | accessionEnumeration => rfl
  intro r
  simp only [cutLineage, List.mapM_cons, hread]
  rfl

theorem exists_cutViews : ∃ views,
    compileVirtualViews cellEngine cutFiles ["r"] inventoryRelations cutLineage = .ok views := by
  rw [compileVirtualViews_of_stored stored_cut]
  exact ⟨_, rfl⟩

theorem partRows_of_written {r : InventoryRelation} {snapshotId : String} {part : PartDescriptor}
    {p : Parquet Cell} (hschema : p.schema = r.spec.schema)
    (hfile : fileContent files (partPath files root snapshotId part.path) = some (engine.encode p)) :
    partRows engine files root r.spec.schema snapshotId part = p.rows := by
  refine partRows_of_content hfile ?_
  rw [readPart, engine.decode_encode]
  exact if_pos hschema

theorem keyBoundsCarried_cut : KeyBoundsCarried cellEngine cutFiles ["r"] cutLineage := by
  intro r node hnode part hpart
  obtain rfl := List.mem_singleton.mp hnode
  have hbounds : ∀ (accession lo hi : String) (row : Row Cell), lo ≤ accession → accession ≤ hi →
      r.spec.schema.cell row (keyColumn r.spec) = text accession →
      ∀ v, r.spec.schema.cell row (keyColumn r.spec) = some v →
        (∀ l, some lo = some l → l ≤ Cell.str v) ∧ ∀ h, some hi = some h → Cell.str v ≤ h := by
    intro accession lo hi row hlow hhigh hcell v hv
    obtain rfl : Cell.text accession = v := Option.some.inj (hcell.symm.trans hv)
    refine ⟨fun l hl => ?_, fun h hh => ?_⟩
    · rwa [← Option.some.inj hl]
    · rwa [← Option.some.inj hh]
  have horder : lowAccession ≤ highAccession := by decide +kernel
  cases r with
  | accessions =>
    have hcases : part = cutDescriptor "a0" lowAccession lowAccession 1 ∨
        part = cutDescriptor "a1" highAccession highAccession 1 := by
      simpa [nodeParts, cutNode, InventoryRelation.spec, inventoryAccessionsSpec] using hpart
    rcases hcases with rfl | rfl
    · rw [@partRows_of_written cellEngine cutFiles ["r"] .accessions cutNode.snapshotId
        (cutDescriptor "a0" lowAccession lowAccession 1) (accessionsPart lowAccession) rfl rfl]
      intro row hrow
      obtain rfl := List.mem_singleton.mp hrow
      exact hbounds lowAccession lowAccession lowAccession _ le_rfl le_rfl rfl
    · rw [@partRows_of_written cellEngine cutFiles ["r"] .accessions cutNode.snapshotId
        (cutDescriptor "a1" highAccession highAccession 1) (accessionsPart highAccession) rfl rfl]
      intro row hrow
      obtain rfl := List.mem_singleton.mp hrow
      exact hbounds highAccession highAccession highAccession _ le_rfl le_rfl rfl
  | entries =>
    obtain rfl : part = cutDescriptor "e0" lowAccession highAccession 2 := List.mem_singleton.mp hpart
    rw [@partRows_of_written cellEngine cutFiles ["r"] .entries cutNode.snapshotId
      (cutDescriptor "e0" lowAccession highAccession 2) entriesPart rfl rfl]
    intro row hrow
    have hcases : row = entryRow lowAccession ∨ row = entryRow highAccession := by
      simpa [entriesPart] using hrow
    rcases hcases with rfl | rfl
    · exact hbounds lowAccession lowAccession highAccession _ le_rfl horder rfl
    · exact hbounds highAccession lowAccession highAccession _ horder le_rfl rfl
  | accessionSources => cases hpart
  | accessionEnumeration => cases hpart

/-- An accession of the checkpoint is found. -/
theorem queryAccession_plain_low : ∃ views,
    compileVirtualViews cellEngine cutFiles ["r"] inventoryRelations cutLineage = .ok views ∧
      PlainQuery cellEngine cutFiles ["r"] cutLineage views .entries lowAccession := by
  obtain ⟨views, hviews⟩ := exists_cutViews
  refine ⟨views, hviews, (queryAccession_plain_iff hviews keyBoundsCarried_cut (Or.inr rfl)).mpr ?_⟩
  refine ⟨?_, by decide +kernel⟩
  intro r
  cases r <;> decide +kernel

/-- An accession between the two parts of the accessions, and within the part of the entries,
is not looked up: the query fails. -/
theorem queryAccession_fails_between :
    KeyBoundsCarried cellEngine cutFiles ["r"] cutLineage ∧
      (∃ views, compileVirtualViews cellEngine cutFiles ["r"] inventoryRelations cutLineage =
        .ok views) ∧
      ∀ r, ∀ views, ¬ PlainQuery cellEngine cutFiles ["r"] cutLineage views r midAccession := by
  refine ⟨keyBoundsCarried_cut, exists_cutViews, ?_⟩
  intro r views ⟨table, htable, _⟩
  obtain ⟨views', hviews⟩ := exists_cutViews
  obtain ⟨sources, hsources, -, -⟩ := exists_viewRows hviews
  have hbinds := ((queryAccession_eq_ok_iff fun r => readable_of_mapM (hsources r)).mp htable).1
  have hkept : keptPlaces cutFiles ["r"] cutLineage midAccession .entries ≠ [] ∧
      keptPlaces cutFiles ["r"] cutLineage midAccession .accessions = [] := by
    decide +kernel
  exact hbinds.2.elim hkept.1 fun h => h hkept.2

end EdgarSec.Inventory
