import EdgarSec.Inventory.PointQuery

/-! `InventoryEvidenceSource.stream`: the evidence of catalog accessions, read in batches over views
that are pruned to the keys of each batch. -/

namespace EdgarSec.DocumentPlanning.EvidenceStream
open Foundation Lib Dag Inventory

/-! ## Rows -/

structure CatalogAccessionScopeRow where
  accession : String
  form : String
  filingDate : String
  reportDate : Option String
deriving DecidableEq

structure InventoryEvidenceRow where
  accession : String
  catalogForm : String
  catalogFilingDate : String
  indexed : Bool
  accessionRow : Option (Row Inventory.Cell)
  entryRow : Option (Row Inventory.Cell)
  catalogReportDate : Option String
  vehicle : String
deriving DecidableEq

inductive EvidenceError where
  | valueError (message : String)
  | evidenceError (message : String)
  | engineError (e : DagError)

/-- `_VEHICLE_LABELS` -/
def vehicleLabels : List (String × String) :=
  [("index", "index_html"), ("summary", "filing_summary"), ("package", "xbrl_package")]

def vehicleLabel : Option Inventory.Cell → Option String
  | none => some "index_html"
  | some raw => vehicleLabels.lookup raw.str

def reprCell : Option Inventory.Cell → String
  | none => "None"
  | some (.text s) => pyRepr s
  | some (.int n) => toString n

/-! ## One batch -/

/-- `(accessions, entries, enumeration)` -/
def evidenceRelations : List InventoryRelation := [.accessions, .entries, .accessionEnumeration]

def evidenceSpecs : List RelationSpec := evidenceRelations.map (·.spec)

def batchRanges (lower upper : String) : RelationRanges :=
  evidenceSpecs.map fun spec => (spec.name, (some lower, some upper))

/-- A row of the three joins. -/
structure Joined where
  scope : CatalogAccessionScopeRow
  accession : Option (Row Inventory.Cell)
  entry : Option (Row Inventory.Cell)
  enumeration : Option (Row Inventory.Cell)

def scopeKey (scope : CatalogAccessionScopeRow) : Option Inventory.Cell := some (.text scope.accession)

/-- `LEFT JOIN … USING (accession)`, three times. -/
def joinViews (views : List (String × Table Inventory.Cell)) (batch : List CatalogAccessionScopeRow) : List Joined :=
  let indexed := leftJoin scopeKey rowAccession batch (viewRows views inventoryAccessionsSpec)
  let withEntries := leftJoin (fun j => scopeKey j.1) entryAccession indexed (viewRows views inventoryEntriesSpec)
  (leftJoin (fun j => scopeKey j.1.1) enumerationAccession withEntries (viewRows views inventoryEnumerationSpec)).map
    fun j => ⟨j.1.1.1, j.1.1.2, j.1.2, j.2⟩

def entryCell (column : String) (j : Joined) : Option Inventory.Cell :=
  j.entry.bind fun row => entrySchema.cell row column

/-- `ORDER BY s.accession, e.row_ordinal, e.table_kind, e.entry_id` -/
def evidenceOrder : Joined → Joined → Bool :=
  thenBy (fun a b => decide (a.scope.accession ≤ b.scope.accession))
    (thenBy (fun a b => cellAsc (entryCell "row_ordinal" a) (entryCell "row_ordinal" b))
      (thenBy (fun a b => cellAsc (entryCell "table_kind" a) (entryCell "table_kind" b))
        fun a b => cellAsc (entryCell "entry_id" a) (entryCell "entry_id" b)))

/-- The first column of a joined row is null where nothing was joined. -/
def present (row : Option (Row Inventory.Cell)) : Option (Row Inventory.Cell) :=
  row.filter fun row => (row.head?.bind id).isSome

/-- The catalog's facts are those of the index. -/
def factsAgree (j : Joined) : Bool :=
  match present j.accession with
  | none => true
  | some row =>
    snapshotAccessionsSchema.cell row "form" = text j.scope.form ∧
      snapshotAccessionsSchema.cell row "filing_date" = text j.scope.filingDate ∧
      snapshotAccessionsSchema.cell row "report_date" = j.scope.reportDate.map Inventory.Cell.text

def rawVehicle (j : Joined) : Option Inventory.Cell :=
  j.enumeration.bind fun row => snapshotEnumerationSchema.cell row "vehicle"

def evidenceRow (j : Joined) : InventoryEvidenceRow where
  accession := j.scope.accession
  catalogForm := j.scope.form
  catalogFilingDate := j.scope.filingDate
  indexed := (present j.accession).isSome
  accessionRow := present j.accession
  entryRow := if (present j.accession).isSome then present j.entry else none
  catalogReportDate := j.scope.reportDate
  vehicle := (vehicleLabel (rawVehicle j)).getD ""

def yieldRow (j : Joined) : Except EvidenceError InventoryEvidenceRow :=
  if factsAgree j = false then
    .error (.evidenceError ("inventory facts disagree with catalog for " ++ j.scope.accession))
  else if vehicleLabel (rawVehicle j) = none then
    .error (.evidenceError ("unknown enumeration vehicle: " ++ reprCell (rawVehicle j)))
  else .ok (evidenceRow j)

def readBatch (choice : Choice) (views : List (String × Table Inventory.Cell)) (batch : List CatalogAccessionScopeRow) :
    Except EvidenceError (List InventoryEvidenceRow) :=
  (choice.sort evidenceOrder (joinViews views batch)).mapM yieldRow

/-! ## The stream -/

/-- The checks of the scope rows of a batch; returns the last accession. -/
def checkScopes : Option String → List CatalogAccessionScopeRow → Except EvidenceError (Option String)
  | previous, [] => .ok previous
  | previous, scope :: rest =>
    if scope.accession = "" ∨ scope.form = "" ∨ scope.filingDate = "" then
      .error (.evidenceError "catalog accession facts are incomplete")
    else if previous.any fun p => scope.accession ≤ p then
      .error (.evidenceError "catalog accessions must be unique and sorted")
    else checkScopes (some scope.accession) rest

section
variable (engine : Engine Inventory.Cell) (files : FileSystem) (root : Path) (lineage : LineageChain)

def streamBatch (batch : List CatalogAccessionScopeRow) : Except EvidenceError (List InventoryEvidenceRow) :=
  let lower := (batch.head?.map (·.accession)).getD ""
  let upper := (batch.getLast?.map (·.accession)).getD ""
  match compilePrunedViews engine files root evidenceSpecs lineage (batchRanges lower upper) with
  | .error e => .error (.engineError e)
  | .ok views => readBatch engine.toChoice views batch

/-- Batch by batch, until the scope is used up. -/
def streamFrom (size : Nat) (previous : Option String) (scopes : List CatalogAccessionScopeRow) :
    Except EvidenceError (List InventoryEvidenceRow) :=
  if _h : scopes = [] ∨ size = 0 then .ok []
  else do
    let last ← checkScopes previous (scopes.take size)
    let rows ← streamBatch engine files root lineage (scopes.take size)
    let rest ← streamFrom size last (scopes.drop size)
    .ok (rows ++ rest)
termination_by scopes.length
decreasing_by
  push Not at _h
  have hpos := List.length_pos_iff.mpr _h.1
  rw [List.length_drop]
  omega

def stream (size : Int) (scopes : List CatalogAccessionScopeRow) : Except EvidenceError (List InventoryEvidenceRow) :=
  if size < 1 then .error (.valueError "batch_size must be positive")
  else streamFrom engine files root lineage size.toNat none scopes

end

/-! ## Joins -/

theorem joinViews_append (views : List (String × Table Inventory.Cell)) (batch later : List CatalogAccessionScopeRow) :
    joinViews views (batch ++ later) = joinViews views batch ++ joinViews views later := by
  unfold joinViews
  simp only [leftJoin_append, List.map_append]

/-- Two sets of views under one key. -/
def SameUnder (k : String) (views views' : List (String × Table Inventory.Cell)) : Prop :=
  (∀ r : InventoryRelation, r ∈ evidenceRelations →
    (viewRows views r.spec).filter (fun row => r.spec.schema.cell row "accession" = text k) =
      (viewRows views' r.spec).filter fun row => r.spec.schema.cell row "accession" = text k)

theorem joinViews_congr {views views' : List (String × Table Inventory.Cell)} {batch : List CatalogAccessionScopeRow}
    (h : ∀ scope ∈ batch, SameUnder scope.accession views views') : joinViews views batch = joinViews views' batch := by
  have hmatch : ∀ {α : Type} (kl : α → Option Inventory.Cell) (kr : Row Inventory.Cell → Option Inventory.Cell)
    (rows rows' : Table Inventory.Cell) (a : α)
      (k : String), kl a = text k → (rows.filter fun row => kr row = text k) =
        (rows'.filter fun row => kr row = text k) → matchRows kl kr rows a = matchRows kl kr rows' a := by
    intro α kl kr rows rows' a k hk hsame
    rw [matchRows_of_key hk, matchRows_of_key hk]
    exact hsame
  unfold joinViews
  dsimp only
  have hfirst : leftJoin scopeKey rowAccession batch (viewRows views inventoryAccessionsSpec) =
      leftJoin scopeKey rowAccession batch (viewRows views' inventoryAccessionsSpec) :=
    leftJoin_congr fun scope hscope => hmatch _ _ _ _ _ _ rfl (h scope hscope .accessions (by decide))
  rw [hfirst]
  have hsecond : ∀ indexed : List (CatalogAccessionScopeRow × Option (Row Inventory.Cell)),
    (∀ j ∈ indexed, j.1 ∈ batch) →
      leftJoin (fun j => scopeKey j.1) entryAccession indexed (viewRows views inventoryEntriesSpec) =
        leftJoin (fun j => scopeKey j.1) entryAccession indexed (viewRows views' inventoryEntriesSpec) :=
    fun indexed hin => leftJoin_congr fun j hj => hmatch _ _ _ _ _ _ rfl (h j.1 (hin j hj) .entries (by decide))
  rw [hsecond _ fun j hj => fst_mem_of_mem_leftJoin hj]
  refine congrArg _ (leftJoin_congr fun j hj => ?_)
  have hscope := fst_mem_of_mem_leftJoin (fst_mem_of_mem_leftJoin hj)
  exact hmatch _ _ _ _ _ _ rfl (h j.1.1 hscope .accessionEnumeration (by decide))

/-! ## The views of a batch -/

section Batch
variable {engine : Engine Inventory.Cell} {files : FileSystem} {root : Path} {lineage : LineageChain}
  {views shown : List (String × Table Inventory.Cell)} {lower upper k : String} {r : InventoryRelation}

theorem overlaps_of_between {part : PartDescriptor} {schema : Schema} {column : String} {table : Table Inventory.Cell}
    (h : CarriesBounds Inventory.Cell.str part schema column table) {row : Row Inventory.Cell} (hrow : row ∈ table)
    (hk : schema.cell row column = text k) (hlow : lower ≤ k) (hhigh : k ≤ upper) :
    overlaps (some lower) (some upper) part = true := by
  have hone := overlaps_of_carriesBounds h hrow hk
  have hstr : Inventory.Cell.str (Inventory.Cell.text k) = k := rfl
  rw [hstr] at hone
  unfold overlaps at hone ⊢
  rw [Bool.and_eq_true, Bool.not_eq_true', Bool.not_eq_true'] at hone ⊢
  constructor
  · cases hmax : part.keyMax with
    | none => rfl
    | some hi =>
      have hnot := hone.1
      rw [hmax, bothBefore, decide_eq_false_iff_not, not_lt] at hnot
      rw [bothBefore, decide_eq_false_iff_not, not_lt]
      exact hlow.trans hnot
  · cases hmin : part.keyMin with
    | none => rfl
    | some lo =>
      have hnot := hone.2
      rw [hmin, bothBefore, decide_eq_false_iff_not, not_lt] at hnot
      rw [bothBefore, decide_eq_false_iff_not, not_lt]
      exact hnot.trans hhigh

def rangeRows (engine : Engine Inventory.Cell) (files : FileSystem) (root : Path) (lineage : LineageChain)
    (lower upper : String) (r : InventoryRelation) : List (Nat × Row Inventory.Cell) :=
  lineageRows engine files root r.spec (keepsPart files root (some lower) (some upper)) lineage.nodes

/-- Parts that are left out of a range hold no row of a key in it. -/
theorem filter_rangeRows (hbounds : KeyBoundsCarried engine files root lineage) (hkey : keyColumn r.spec = "accession")
    (hlow : lower ≤ k) (hhigh : k ≤ upper) :
    (rangeRows engine files root lineage lower upper r).filter
        (fun row => r.spec.schema.cell row.2 "accession" = text k) =
      (lineageRows engine files root r.spec (fun _ _ => true) lineage.nodes).filter
        fun row => r.spec.schema.cell row.2 "accession" = text k := by
  unfold rangeRows lineageRows
  rw [List.filter_flatMap, List.filter_flatMap]
  refine List.flatMap_congr fun node hnode => ?_
  have hin : node.1 ∈ lineage.nodes := List.fst_mem_of_mem_zipIdx hnode
  rw [List.filter_flatMap, List.filter_flatMap]
  refine List.flatMap_congr fun part hpart => ?_
  have hcarried : CarriesBounds Inventory.Cell.str part r.spec.schema "accession"
      (partRows engine files root r.spec.schema node.1.snapshotId part) := hkey ▸ hbounds r node.1 hin part hpart
  simp only [if_true]
  split
  · rfl
  · rename_i hdropped
    symm
    rw [List.filter_nil, List.filter_eq_nil_iff]
    intro row hrow hcell
    obtain ⟨cells, hcells, rfl⟩ := List.mem_map.mp hrow
    have hoverlaps := overlaps_of_between hcarried hcells (of_decide_eq_true hcell) hlow hhigh
    cases hcontent : fileContent files (partPath files root node.1.snapshotId part.path) with
    | none =>
      rw [partRows_of_missing hcontent] at hcells
      cases hcells
    | some content =>
      obtain ⟨path, hpath⟩ := (exists_candidatePath_iff hcontent).mpr hoverlaps
      apply hdropped
      rw [keepsPart, hpath]
      rfl

theorem lookup_batchRanges (hr : r ∈ evidenceRelations) :
    (batchRanges lower upper).lookup r.spec.name = some (some lower, some upper) := by
  cases r with
  | accessions => rfl
  | entries => rfl
  | accessionEnumeration => rfl
  | accessionSources => exact absurd hr (by decide)

/-- What a relation reads for a batch. -/
theorem rows_of_readPruned (hread : Readable engine files root r.spec lineage.nodes) (hr : r ∈ evidenceRelations)
    {view : PrunedView Inventory.Cell}
    (h : readPruned engine files root lineage (batchRanges lower upper) r.spec = .ok view) :
    view.spec = r.spec ∧ view.rows = rangeRows engine files root lineage lower upper r := by
  have hrange := @lookup_batchRanges lower upper r hr
  obtain ⟨view', hview', hspec, -, hrows⟩ := readPruned_of_unquoted hread hrange (unquoted_of_readPruned hrange h)
  obtain rfl := Except.ok.inj (h.symm.trans hview')
  exact ⟨hspec, hrows⟩

/-- The views of a batch, when they compile. -/
theorem viewRows_batch (hread : ∀ r : InventoryRelation, Readable engine files root r.spec lineage.nodes)
    (h : compilePrunedViews engine files root evidenceSpecs lineage (batchRanges lower upper) = .ok shown) :
    (∀ r : InventoryRelation, r = .accessions ∨ r = .accessionEnumeration → viewRows shown r.spec =
      rankedRows engine.toChoice r.spec (rangeRows engine files root lineage lower upper r)) ∧
    viewRows shown inventoryEntriesSpec = maskedRows engine.toChoice inventoryEntriesSpec inventoryAccessionsSpec
      (rangeRows engine files root lineage lower upper .entries)
      (rangeRows engine files root lineage lower upper .accessions) := by
  have hspecs : maskedLast evidenceSpecs =
      [inventoryAccessionsSpec, inventoryEnumerationSpec, inventoryEntriesSpec] := rfl
  rw [compilePrunedViews, hspecs] at h
  obtain ⟨a, rowsA, restA, ha, hrowsA, hrestA, hshown⟩ := registerViews_cons_eq_ok_iff.mp h
  obtain ⟨e, rowsE, restE, he, hrowsE, hrestE, hshownA⟩ := registerViews_cons_eq_ok_iff.mp hrestA
  obtain ⟨n, rowsN, restN, hn, hrowsN, -, hshownE⟩ := registerViews_cons_eq_ok_iff.mp hrestE
  obtain ⟨hspecA, hreadA⟩ := @rows_of_readPruned _ _ _ _ lower upper .accessions (hread _) (by decide) _ ha
  obtain ⟨hspecE, hreadE⟩ := @rows_of_readPruned _ _ _ _ lower upper .accessionEnumeration (hread _) (by decide) _ he
  obtain ⟨hspecN, hreadN⟩ := @rows_of_readPruned _ _ _ _ lower upper .entries (hread _) (by decide) _ hn
  have hspecN' : n.spec = inventoryEntriesSpec := hspecN
  have hspecA' : a.spec = inventoryAccessionsSpec := hspecA
  rw [prunedActiveView_ranked (by rw [hspecA]; decide), hspecA, hreadA] at hrowsA
  rw [prunedActiveView_ranked (by rw [hspecE]; decide), hspecE, hreadE] at hrowsE
  have hparent : [n, e, a].find? (fun p => p.spec.name = n.spec.parentName) = some a := by
    rw [hspecN']
    have hnames : n.spec.name = "entries" ∧ e.spec.name = "accession_enumeration" ∧ a.spec.name = "accessions" := by
      rw [hspecN, hspecE, hspecA]
      exact ⟨rfl, rfl, rfl⟩
    have hname : inventoryEntriesSpec.parentName = "accessions" := rfl
    simp [hnames, hname]
  have hjoin : JoinColumnsKnown n.spec a.spec := by
    rw [hspecN', hspecA']
    exact joinColumnsKnown_entries
  obtain ⟨-, hmasked⟩ := (prunedActiveView_masked_iff (by rw [hspecN']; rfl) hparent hjoin).mp hrowsN
  rw [hreadN, hreadA, hspecN', hspecA'] at hmasked
  rw [hshown, hshownA, hshownE, hmasked, ← Except.ok.inj hrowsA, ← Except.ok.inj hrowsE]
  refine ⟨fun r hr => ?_, rfl⟩
  rcases hr with rfl | rfl
  · rfl
  · rfl

/-- Under a key of the range, the views of the batch are those of the whole lineage. -/
theorem sameUnder_of_between (hviews : compileVirtualViews engine files root inventoryRelations lineage = .ok views)
    (hbounds : KeyBoundsCarried engine files root lineage)
    (h : compilePrunedViews engine files root evidenceSpecs lineage (batchRanges lower upper) = .ok shown)
    (hlow : lower ≤ k) (hhigh : k ≤ upper) : SameUnder k shown views := by
  obtain ⟨sources, hread, haccessions, hentries⟩ := exists_viewRows hviews
  obtain ⟨raws, source, hsource, henumeration⟩ := exists_activeView hviews (spec_mem .accessionEnumeration)
  obtain ⟨hranked, hmasked⟩ := viewRows_batch (fun r => readable_of_mapM (hread r)) h
  have hrows : ∀ r : InventoryRelation, keyColumn r.spec = "accession" →
      ((rangeRows engine files root lineage lower upper r).filter fun row =>
        r.spec.schema.cell row.2 "accession" = some (Inventory.Cell.text k)) =
      (sourceRows sources r).filter fun row => r.spec.schema.cell row.2 "accession" = some (Inventory.Cell.text k) := by
    intro r hkey
    rw [sourceRows, rows_eq_lineageRows (hread r)]
    exact filter_rangeRows hbounds hkey hlow hhigh
  obtain rfl : source = sources inventoryEnumerationSpec :=
    Except.ok.inj (hsource.symm.trans (hread .accessionEnumeration))
  intro r hr
  cases r with
  | accessions =>
    rw [hranked .accessions (Or.inl rfl)]
    show _ = (viewRows views inventoryAccessionsSpec).filter _
    rw [haccessions]
    exact filter_rankedRows_congr rfl (hrows .accessions rfl)
  | accessionEnumeration =>
    rw [activeView_ranked (by decide : inventoryEnumerationSpec.mergeStrategy ≠ .scopedMask)] at henumeration
    rw [hranked .accessionEnumeration (Or.inr rfl), ← Except.ok.inj henumeration]
    exact filter_rankedRows_congr rfl (hrows .accessionEnumeration rfl)
  | entries =>
    show (viewRows shown inventoryEntriesSpec).filter _ = (viewRows views inventoryEntriesSpec).filter _
    rw [hmasked, hentries]
    exact filter_maskedRows_congr rfl (hrows .entries rfl) (hrows .accessions rfl)
  | accessionSources => exact absurd hr (by decide)

end Batch

/-! ## The run -/

theorem yieldRow_eq_ok {j : Joined} {row : InventoryEvidenceRow} (h : yieldRow j = .ok row) : evidenceRow j = row := by
  unfold yieldRow at h
  split at h
  · cases h
  · split at h
    · cases h
    · exact Except.ok.inj h

theorem sortOrder_evidenceOrder : SortOrder evidenceOrder := by
  have hcell : ∀ column, SortOrder fun a b => cellAsc (entryCell column a) (entryCell column b) :=
    fun column => (sortOrder_cellBefore .min).comap (entryCell column)
  have haccession : SortOrder fun a b : Joined => decide (a.scope.accession ≤ b.scope.accession) :=
    SortOrder.of_le.comap fun j : Joined => j.scope.accession
  exact haccession.thenBy ((hcell _).thenBy ((hcell _).thenBy (hcell _)))

/-- What the checks of a batch leave: accessions that rise, above those before. -/
structure Rising (previous : Option String) (scopes : List CatalogAccessionScopeRow) : Prop where
  sorted : (scopes.map (·.accession)).Pairwise (· < ·)
  above : ∀ p, previous = some p → ∀ scope ∈ scopes, p < scope.accession

theorem checkScopes_eq_ok {previous last : Option String} {scopes : List CatalogAccessionScopeRow}
    (h : checkScopes previous scopes = .ok last) : Rising previous scopes ∧
      (∀ p, previous = some p → ∃ q, last = some q ∧ p ≤ q) ∧
      ∀ scope ∈ scopes, ∃ q, last = some q ∧ scope.accession ≤ q := by
  induction scopes generalizing previous with
  | nil =>
    cases h
    exact ⟨⟨List.Pairwise.nil, fun _ _ _ hs => absurd hs List.not_mem_nil⟩, fun p hp => ⟨p, hp, le_rfl⟩,
      fun _ hs => absurd hs List.not_mem_nil⟩
  | cons scope scopes ih =>
    unfold checkScopes at h
    split at h
    · cases h
    · split at h
      · cases h
      · rename_i hordered
        obtain ⟨hrising, hlast, hall⟩ := ih h
        have hfirst : ∀ p, previous = some p → p < scope.accession := by
          intro p hp
          rw [hp, Option.any_some, decide_eq_true_eq, not_le] at hordered
          exact hordered
        obtain ⟨q, hq, hle⟩ := hlast scope.accession rfl
        refine ⟨⟨?_, ?_⟩, ?_, ?_⟩
        · rw [List.map_cons, List.pairwise_cons]
          refine ⟨fun k hk => ?_, hrising.sorted⟩
          obtain ⟨other, hother, rfl⟩ := List.mem_map.mp hk
          exact hrising.above _ rfl other hother
        · intro p hp other hother
          rcases List.mem_cons.mp hother with rfl | hother
          · exact hfirst p hp
          · exact (hfirst p hp).trans (hrising.above _ rfl other hother)
        · exact fun p hp => ⟨q, hq, (hfirst p hp).le.trans hle⟩
        · intro other hother
          rcases List.mem_cons.mp hother with rfl | hother
          · exact ⟨q, hq, hle⟩
          · exact hall other hother

/-- The range of a batch spans its accessions. -/
theorem between_of_rising {previous : Option String} {batch : List CatalogAccessionScopeRow}
    (h : Rising previous batch) {scope : CatalogAccessionScopeRow} (hscope : scope ∈ batch) :
    (batch.head?.map (·.accession)).getD "" ≤ scope.accession ∧
      scope.accession ≤ (batch.getLast?.map (·.accession)).getD "" := by
  have hle : (batch.map (·.accession)).Pairwise (· ≤ ·) := h.sorted.imp le_of_lt
  constructor
  · cases batch with
    | nil => cases hscope
    | cons first rest =>
      rcases List.mem_cons.mp hscope with rfl | hin
      · exact le_rfl
      · exact (List.pairwise_cons.mp hle).1 _ (List.mem_map_of_mem hin)
  · obtain ⟨front, last, rfl⟩ : ∃ front last, batch = front ++ [last] :=
      ⟨batch.dropLast, batch.getLast (List.ne_nil_of_mem hscope), (List.dropLast_concat_getLast _).symm⟩
    rw [List.getLast?_concat]
    rw [List.map_append, List.pairwise_append] at hle
    rcases List.mem_append.mp hscope with hin | hin
    · exact hle.2.2 _ (List.mem_map_of_mem hin) _ (List.mem_singleton.mpr rfl)
    · rw [List.mem_singleton.mp hin]
      exact le_rfl

theorem scope_of_mem_joinViews {views : List (String × Table Inventory.Cell)}
    {batch : List CatalogAccessionScopeRow} {j : Joined}
    (h : j ∈ joinViews views batch) : j.scope ∈ batch := by
  unfold joinViews at h
  obtain ⟨row, hrow, rfl⟩ := List.mem_map.mp h
  exact fst_mem_of_mem_leftJoin (fst_mem_of_mem_leftJoin (fst_mem_of_mem_leftJoin hrow))

section Run
variable {engine : Engine Inventory.Cell} {files : FileSystem} {root : Path} {lineage : LineageChain}
  {views : List (String × Table Inventory.Cell)} {rows : List InventoryEvidenceRow}

/-- The rows are those of the joins over the views, in the order of the query. -/
def Answers (views : List (String × Table Inventory.Cell)) (scopes : List CatalogAccessionScopeRow)
    (rows : List InventoryEvidenceRow) : Prop :=
  ∃ joined : List Joined, rows = joined.map evidenceRow ∧ joined.Perm (joinViews views scopes) ∧
    joined.Pairwise fun a b => evidenceOrder a b = true

theorem answers_of_streamBatch (hviews : compileVirtualViews engine files root inventoryRelations lineage = .ok views)
    (hbounds : KeyBoundsCarried engine files root lineage) {previous : Option String}
    {batch : List CatalogAccessionScopeRow} (hrising : Rising previous batch)
    (h : streamBatch engine files root lineage batch = .ok rows) : Answers views batch rows := by
  unfold streamBatch at h
  dsimp only at h
  split at h
  · cases h
  · rename_i shown hshown
    have hjoined : joinViews shown batch = joinViews views batch := by
      refine joinViews_congr fun scope hscope => ?_
      obtain ⟨hlow, hhigh⟩ := between_of_rising hrising hscope
      exact sameUnder_of_between hviews hbounds hshown hlow hhigh
    refine ⟨engine.sort evidenceOrder (joinViews shown batch), ?_, ?_, ?_⟩
    · exact eq_map_of_mapM h fun j _ row hrow => yieldRow_eq_ok hrow
    · rw [← hjoined]
      exact engine.sort_perm _ _
    · exact engine.pairwise_sort sortOrder_evidenceOrder _

/-- One batch and what comes after it. -/
theorem Answers.append {batch later : List CatalogAccessionScopeRow} {rest : List InventoryEvidenceRow}
    (h : Answers views batch rows) (hlater : Answers views later rest)
    (hbefore : ∀ a ∈ batch, ∀ b ∈ later, a.accession < b.accession) : Answers views (batch ++ later) (rows ++ rest) := by
  obtain ⟨joined, rfl, hperm, hsorted⟩ := h
  obtain ⟨joined', rfl, hperm', hsorted'⟩ := hlater
  refine ⟨joined ++ joined', by rw [List.map_append], ?_, ?_⟩
  · rw [joinViews_append]
    exact hperm.append hperm'
  · refine List.pairwise_append.mpr ⟨hsorted, hsorted', fun a ha b hb => ?_⟩
    have hlt := hbefore _ (scope_of_mem_joinViews (hperm.mem_iff.mp ha)) _ (scope_of_mem_joinViews (hperm'.mem_iff.mp hb))
    simp [evidenceOrder, thenBy, hlt.le, hlt]

theorem streamFrom_spec (hviews : compileVirtualViews engine files root inventoryRelations lineage = .ok views)
    (hbounds : KeyBoundsCarried engine files root lineage) {size : Nat} (hsize : 0 < size) {previous : Option String}
    {scopes : List CatalogAccessionScopeRow}
    (h : streamFrom engine files root lineage size previous scopes = .ok rows) :
    Rising previous scopes ∧ Answers views scopes rows := by
  induction hn : scopes.length using Nat.strong_induction_on generalizing previous scopes rows with
  | h n ih =>
    rw [streamFrom] at h
    split at h
    · rename_i hdone
      cases h
      obtain rfl : scopes = [] := hdone.elim id fun hzero => absurd hzero hsize.ne'
      exact ⟨⟨List.Pairwise.nil, fun _ _ _ hs => absurd hs List.not_mem_nil⟩, [], rfl, List.Perm.refl _,
        List.Pairwise.nil⟩
    · rename_i hmore
      push Not at hmore
      obtain ⟨last, hlast, h⟩ := bind_eq_ok.mp h
      obtain ⟨first, hfirst, h⟩ := bind_eq_ok.mp h
      obtain ⟨rest, hrest, h⟩ := bind_eq_ok.mp h
      cases h
      obtain ⟨hrising, hprevious, hall⟩ := checkScopes_eq_ok hlast
      have hshorter : (scopes.drop size).length < n := by
        have hpos := List.length_pos_iff.mpr hmore.1
        rw [List.length_drop]
        omega
      obtain ⟨hrising', hanswers⟩ := ih _ hshorter hrest rfl
      -- what comes later lies above the last of the batch
      have hbefore : ∀ a ∈ scopes.take size, ∀ b ∈ scopes.drop size, a.accession < b.accession := by
        intro a ha b hb
        obtain ⟨q, hq, hle⟩ := hall a ha
        exact hle.trans_lt (hrising'.above q hq b hb)
      have hsplit : scopes.take size ++ scopes.drop size = scopes := List.take_append_drop size scopes
      rw [← hsplit]
      refine ⟨⟨?_, ?_⟩, (answers_of_streamBatch hviews hbounds hrising hfirst).append hanswers hbefore⟩
      · rw [List.map_append]
        refine List.pairwise_append.mpr ⟨hrising.sorted, hrising'.sorted, fun k hk k' hk' => ?_⟩
        obtain ⟨a, ha, rfl⟩ := List.mem_map.mp hk
        obtain ⟨b, hb, rfl⟩ := List.mem_map.mp hk'
        exact hbefore a ha b hb
      · intro p hp scope hscope
        rcases List.mem_append.mp hscope with hin | hin
        · exact hrising.above p hp scope hin
        · obtain ⟨q, hq, hle⟩ := hprevious p hp
          exact hle.trans_lt (hrising'.above q hq scope hin)

/-- The stream answers the query over the whole lineage, whatever the size of its batches. -/
theorem stream_answers (hviews : compileVirtualViews engine files root inventoryRelations lineage = .ok views)
    (hbounds : KeyBoundsCarried engine files root lineage) {size : Int} {scopes : List CatalogAccessionScopeRow}
    (h : stream engine files root lineage size scopes = .ok rows) :
    (scopes.map (·.accession)).Pairwise (· < ·) ∧ Answers views scopes rows := by
  unfold stream at h
  split at h
  · cases h
  · rename_i hpositive
    obtain ⟨hrising, hanswers⟩ := streamFrom_spec hviews hbounds (by omega) h
    exact ⟨hrising.sorted, hanswers⟩

end Run

/-! ## Three accessions of a checkpoint -/

def scopeOf (accession : String) : CatalogAccessionScopeRow := ⟨accession, "10-K", "2025-01-31", none⟩

theorem stream_answers_cut : ∃ views rows,
    compileVirtualViews cellEngine cutFiles ["r"] inventoryRelations cutLineage = .ok views ∧
      stream cellEngine cutFiles ["r"] cutLineage 2 [scopeOf lowAccession, scopeOf midAccession, scopeOf highAccession] =
        .ok rows ∧
      ([scopeOf lowAccession, scopeOf midAccession, scopeOf highAccession].map (·.accession)).Pairwise (· < ·) ∧
      Answers views [scopeOf lowAccession, scopeOf midAccession, scopeOf highAccession] rows := by
  obtain ⟨views, hviews⟩ := exists_cutViews
  have hrun : ∃ rows, stream cellEngine cutFiles ["r"] cutLineage 2
      [scopeOf lowAccession, scopeOf midAccession, scopeOf highAccession] = .ok rows := by
    cases h : stream cellEngine cutFiles ["r"] cutLineage 2
      [scopeOf lowAccession, scopeOf midAccession, scopeOf highAccession] with
    | error e =>
      have hok : (stream cellEngine cutFiles ["r"] cutLineage 2
        [scopeOf lowAccession, scopeOf midAccession, scopeOf highAccession]).isOk = true := by decide +kernel
      rw [h] at hok
      cases hok
    | ok rows => exact ⟨rows, rfl⟩
  obtain ⟨rows, hrows⟩ := hrun
  exact ⟨views, rows, hviews, hrows, stream_answers hviews keyBoundsCarried_cut hrows⟩

end EdgarSec.DocumentPlanning.EvidenceStream
