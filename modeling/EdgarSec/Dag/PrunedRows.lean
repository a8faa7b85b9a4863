import EdgarSec.Dag.ActiveViews
import EdgarSec.Dag.KeyBounds

/-! What pruning leaves of a relation: under the key asked for, the rows of the pruned views
are the rows of the views over the whole lineage. -/

namespace EdgarSec.Dag
open Foundation Lib

variable {V : Type} {engine : Engine V} {files : FileSystem} {root : Path}
  {lineage : LineageChain} {spec : RelationSpec}

/-! ## Rows by part -/

def partRows (engine : Engine V) (files : FileSystem) (root : Path) (schema : Schema)
    (snapshotId : String) (part : PartDescriptor) : Table V :=
  match (fileContent files (partPath files root snapshotId part.path)).map
      (readPart engine schema) with
  | some (.ok table) => table
  | _ => []

theorem partRows_of_content {schema : Schema} {snapshotId : String} {part : PartDescriptor}
    {content : Bytes} {table : Table V}
    (hcontent : fileContent files (partPath files root snapshotId part.path) = some content)
    (hread : readPart engine schema content = .ok table) :
    partRows engine files root schema snapshotId part = table := by
  rw [partRows, hcontent, Option.map_some, hread]

theorem partRows_of_missing {schema : Schema} {snapshotId : String} {part : PartDescriptor}
    (h : fileContent files (partPath files root snapshotId part.path) = none) :
    partRows engine files root schema snapshotId part = [] := by
  rw [partRows, h, Option.map_none]

def nodeParts (spec : RelationSpec) (node : DAGNodeManifest) : List PartDescriptor :=
  (node.relations.get? spec.name).getD []

def lineageRows (engine : Engine V) (files : FileSystem) (root : Path) (spec : RelationSpec)
    (keep : DAGNodeManifest → PartDescriptor → Bool) (nodes : List DAGNodeManifest) :
    List (Nat × Row V) :=
  nodes.zipIdx.flatMap fun node => (nodeParts spec node.1).flatMap fun part =>
    if keep node.1 part then
      (partRows engine files root spec.schema node.1.snapshotId part).map fun row => (node.2, row)
    else []

theorem flatten_readPart {snapshotId : String} {parts : List PartDescriptor} {tables : List (Table V)}
    (h : (parts.filterMap fun part => fileContent files
      (partPath files root snapshotId part.path)).mapM (readPart engine spec.schema) = .ok tables) :
    tables.flatten = parts.flatMap (partRows engine files root spec.schema snapshotId) ∧
      ∀ part ∈ parts, ∀ content,
        fileContent files (partPath files root snapshotId part.path) = some content →
          ∃ table, readPart engine spec.schema content = .ok table := by
  induction parts generalizing tables with
  | nil =>
    cases h
    simp
  | cons part parts ih =>
    cases hcontent : fileContent files (partPath files root snapshotId part.path) with
    | none =>
      simp only [List.filterMap_cons, hcontent] at h
      obtain ⟨hflat, hall⟩ := ih h
      constructor
      · rw [List.flatMap_cons, partRows_of_missing hcontent, List.nil_append, hflat]
      · intro other hother content hc
        rcases List.mem_cons.mp hother with rfl | hother
        · rw [hcontent] at hc
          cases hc
        · exact hall other hother content hc
    | some content =>
      simp only [List.filterMap_cons, hcontent, List.mapM_cons] at h
      obtain ⟨table, hread, h⟩ := bind_eq_ok.mp h
      obtain ⟨rest, hrest, h⟩ := bind_eq_ok.mp h
      cases h
      obtain ⟨hflat, hall⟩ := ih hrest
      constructor
      · rw [List.flatten_cons, List.flatMap_cons, partRows_of_content hcontent hread, hflat]
      · intro other hother content' hc
        rcases List.mem_cons.mp hother with rfl | hother
        · obtain rfl := Option.some.inj (hcontent.symm.trans hc)
          exact ⟨table, hread⟩
        · exact hall other hother content' hc

theorem nodeRows_eq_ok {node : DAGNodeManifest} {source : Option (Table V)}
    (h : nodeRows engine files root spec node = .ok source) :
    source.getD [] = (nodeParts spec node).flatMap
        (partRows engine files root spec.schema node.snapshotId) ∧
      ∀ part ∈ nodeParts spec node, ∀ content,
        fileContent files (partPath files root node.snapshotId part.path) = some content →
          ∃ table, readPart engine spec.schema content = .ok table := by
  unfold nodeRows at h
  simp only at h
  split at h
  · rename_i hnone
    cases h
    have hempty : (((node.relations.get? spec.name).getD []).filterMap fun part => fileContent files
        (partPath files root node.snapshotId part.path)).mapM (readPart engine spec.schema) =
          .ok [] := by
      rw [hnone]
      rfl
    exact flatten_readPart hempty
  · obtain ⟨tables, htables, rfl⟩ := map_eq_ok.mp h
    exact flatten_readPart htables

theorem rows_eq_lineageRows {nodes : List DAGNodeManifest} {sources : List (Option (Table V))}
    (h : nodes.mapM (nodeRows engine files root spec) = .ok sources) :
    (RawView.mk spec sources).rows =
      lineageRows engine files root spec (fun _ _ => true) nodes := by
  unfold RawView.rows lineageRows
  have hsame : ∀ (k : Nat), (sources.zipIdx k).flatMap (fun source =>
        (source.1.getD []).map fun row => (source.2, row)) =
      (nodes.zipIdx k).flatMap fun node => (nodeParts spec node.1).flatMap fun part =>
        (partRows engine files root spec.schema node.1.snapshotId part).map fun row =>
          (node.2, row) := by
    induction nodes generalizing sources with
    | nil =>
      cases h
      simp
    | cons node nodes ih =>
      rw [List.mapM_cons] at h
      obtain ⟨source, hsource, h⟩ := bind_eq_ok.mp h
      obtain ⟨rest, hrest, h⟩ := bind_eq_ok.mp h
      cases h
      intro k
      rw [List.zipIdx_cons, List.zipIdx_cons, List.flatMap_cons, List.flatMap_cons,
        ih hrest (k + 1), (nodeRows_eq_ok hsource).1, List.map_flatMap]
  simpa using hsame 0

/-! ## Rows of the kept parts -/

/-- Every part file of the relation can be read. -/
def Readable (engine : Engine V) (files : FileSystem) (root : Path) (spec : RelationSpec)
    (nodes : List DAGNodeManifest) : Prop :=
  ∀ node ∈ nodes, ∀ part ∈ nodeParts spec node, ∀ content,
    fileContent files (partPath files root node.snapshotId part.path) = some content →
      ∃ table, readPart engine spec.schema content = .ok table

theorem readable_of_mapM {nodes : List DAGNodeManifest} {sources : List (Option (Table V))}
    (h : nodes.mapM (nodeRows engine files root spec) = .ok sources) :
    Readable engine files root spec nodes := by
  intro node hnode
  obtain ⟨source, hsource⟩ := exists_of_mapM h hnode
  exact (nodeRows_eq_ok hsource).2

variable {keyMin keyMax : Option String}

def keepsPart (files : FileSystem) (root : Path) (keyMin keyMax : Option String)
    (node : DAGNodeManifest) (part : PartDescriptor) : Bool :=
  (candidatePath files root keyMin keyMax node.snapshotId part).isSome

theorem candidatePath_eq_some {snapshotId : String} {part : PartDescriptor} {path : Path}
    (h : candidatePath files root keyMin keyMax snapshotId part = some path) :
    overlaps keyMin keyMax part = true ∧
      ∃ content, fileContent files (partPath files root snapshotId part.path) = some content ∧
        fileContent files path = some content := by
  unfold candidatePath at h
  simp only at h
  split at h
  · rename_i hkeep
    obtain ⟨q, hq, hsame⟩ := exists_resolve_of_isFile hkeep.2
    obtain rfl := Option.some.inj (h.symm.trans hq)
    obtain ⟨content, hcontent⟩ := isFile_iff_exists_fileContent.mp hkeep.2
    exact ⟨hkeep.1, content, hcontent, hsame.trans hcontent⟩
  · cases h

def placeRows (engine : Engine V) (files : FileSystem) (schema : Schema) (path : Path) : Table V :=
  match (fileContent files path).map (readPart engine schema) with
  | some (.ok table) => table
  | _ => []

theorem scanPart_of_candidate {nodes : List DAGNodeManifest}
    (hread : Readable engine files root spec nodes) {node : DAGNodeManifest} (hnode : node ∈ nodes)
    {part : PartDescriptor} (hpart : part ∈ nodeParts spec node) {path : Path}
    (h : candidatePath files root keyMin keyMax node.snapshotId part = some path) :
    placeRows engine files spec.schema path =
        partRows engine files root spec.schema node.snapshotId part ∧
      (hasQuote path = false →
        scanPart engine files spec.schema path = .ok (placeRows engine files spec.schema path)) := by
  obtain ⟨-, content, hcontent, hplace⟩ := candidatePath_eq_some h
  obtain ⟨table, htable⟩ := hread node hnode part hpart content hcontent
  have hrows : placeRows engine files spec.schema path = table := by
    rw [placeRows, hplace, Option.map_some, htable]
  constructor
  · rw [hrows, partRows_of_content hcontent htable]
  · intro hquote
    rw [scanPart, hquote, hplace, hrows]
    exact htable

variable {ranges : RelationRanges} {range : Option String × Option String}

def Unquoted (files : FileSystem) (root : Path) (lineage : LineageChain) (relationName : String)
    (range : Option String × Option String) : Prop :=
  ∀ kept ∈ prunePartsForRange files lineage relationName range.1 range.2 root,
    hasQuote kept.2 = false

theorem unquoted_of_readPruned (hrange : ranges.lookup spec.name = some range)
    {view : PrunedView V} (h : readPruned engine files root lineage ranges spec = .ok view) :
    Unquoted files root lineage spec.name range := by
  unfold readPruned at h
  simp only [hrange, Option.getD_some] at h
  obtain ⟨tables, htables, -⟩ := map_eq_ok.mp h
  intro kept hkept
  obtain ⟨table, htable⟩ := exists_of_mapM htables hkept
  obtain ⟨rows, hrows, -⟩ := map_eq_ok.mp htable
  unfold scanPart at hrows
  split at hrows
  · cases hrows
  · rename_i hno
    exact Bool.eq_false_iff.mpr hno

theorem mem_prunePartsForRange {relationName : String} {kept : Nat × Path} :
    kept ∈ prunePartsForRange files lineage relationName keyMin keyMax root ↔
      ∃ part, (kept.1, part, kept.2) ∈ keptParts files lineage relationName keyMin keyMax root := by
  unfold prunePartsForRange
  rw [List.mem_map]
  constructor
  · intro ⟨⟨rank, part, path⟩, hkept, heq⟩
    subst heq
    exact ⟨part, hkept⟩
  · intro ⟨part, hkept⟩
    exact ⟨_, hkept, rfl⟩

theorem readPruned_of_unquoted (hread : Readable engine files root spec lineage.nodes)
    (hrange : ranges.lookup spec.name = some range)
    (hquote : Unquoted files root lineage spec.name range) :
    ∃ view : PrunedView V, readPruned engine files root lineage ranges spec = .ok view ∧
      view.spec = spec ∧
      (view.parts = [] ↔ prunePartsForRange files lineage spec.name range.1 range.2 root = []) ∧
      view.rows = lineageRows engine files root spec (keepsPart files root range.1 range.2)
        lineage.nodes := by
  have hscan : ∀ kept ∈ prunePartsForRange files lineage spec.name range.1 range.2 root,
      ((scanPart engine files spec.schema kept.2).map fun table => (kept.1, table)) =
        .ok (kept.1, placeRows engine files spec.schema kept.2) := by
    intro kept hkept
    obtain ⟨part, hpart⟩ := mem_prunePartsForRange.mp hkept
    obtain ⟨node, hnode, hin, hcandidate⟩ := mem_keptParts.mp hpart
    have hscan := scanPart_of_candidate hread (List.mem_of_getElem? hnode) hin hcandidate
    rw [hscan.2 (hquote kept hkept)]
    rfl
  refine ⟨⟨spec, (prunePartsForRange files lineage spec.name range.1 range.2 root).map fun kept =>
    (kept.1, placeRows engine files spec.schema kept.2)⟩, ?_, rfl, by simp, ?_⟩
  · unfold readPruned
    simp only [hrange, Option.getD_some]
    rw [mapM_eq_ok_map hscan]
    rfl
  · unfold PrunedView.rows prunePartsForRange keptParts lineageRows
    rw [List.map_map, List.flatMap_map, List.flatMap_assoc]
    refine List.flatMap_congr fun node hnode => ?_
    have hin : node.1 ∈ lineage.nodes := List.fst_mem_of_mem_zipIdx hnode
    -- part by part
    have hparts : ∀ parts : List PartDescriptor, (∀ part ∈ parts, part ∈ nodeParts spec node.1) →
        (parts.filterMap fun part =>
          (candidatePath files root range.1 range.2 node.1.snapshotId part).map fun path =>
            (node.2, part, path)).flatMap (fun kept =>
              (placeRows engine files spec.schema kept.2.2).map fun row => (kept.1, row)) =
          parts.flatMap fun part =>
            if keepsPart files root range.1 range.2 node.1 part then
              (partRows engine files root spec.schema node.1.snapshotId part).map fun row =>
                (node.2, row)
            else [] := by
      intro parts
      induction parts with
      | nil => simp
      | cons part parts ih =>
        intro hall
        have hrest := ih fun other hother => hall other (List.mem_cons_of_mem part hother)
        cases hc : candidatePath files root range.1 range.2 node.1.snapshotId part with
        | none =>
          have hkeep : keepsPart files root range.1 range.2 node.1 part = false := by
            rw [keepsPart, hc]
            rfl
          simp only [List.filterMap_cons, hc, Option.map_none, List.flatMap_cons, hkeep, hrest]
          simp
        | some path =>
          have hkeep : keepsPart files root range.1 range.2 node.1 part = true := by
            rw [keepsPart, hc]
            rfl
          have hrows := (scanPart_of_candidate hread hin (hall part List.mem_cons_self) hc).1
          simp only [List.filterMap_cons, hc, Option.map_some, List.flatMap_cons, hkeep, hrest, hrows]
          simp
    exact hparts _ fun _ h => h

/-! ## Under one key -/

def CarriesBounds (str : V → String) (part : PartDescriptor) (schema : Schema) (column : String)
    (table : Table V) : Prop :=
  ∀ row ∈ table, ∀ v, schema.cell row column = some v →
    (∀ lo, part.keyMin = some lo → lo ≤ str v) ∧ ∀ hi, part.keyMax = some hi → str v ≤ hi

theorem overlaps_of_carriesBounds {str : V → String} {part : PartDescriptor} {schema : Schema}
    {column : String} {table : Table V} (h : CarriesBounds str part schema column table)
    {row : Row V} (hrow : row ∈ table) {v : V} (hv : schema.cell row column = some v) :
    overlaps (some (str v)) (some (str v)) part = true := by
  obtain ⟨hlow, hhigh⟩ := h row hrow v hv
  rw [overlaps, Bool.and_eq_true, Bool.not_eq_true', Bool.not_eq_true']
  constructor
  · cases hmax : part.keyMax with
    | none => rfl
    | some hi =>
      rw [bothBefore, decide_eq_false_iff_not, not_lt]
      exact hhigh hi hmax
  · cases hmin : part.keyMin with
    | none => rfl
    | some lo =>
      rw [bothBefore, decide_eq_false_iff_not, not_lt]
      exact hlow lo hmin

theorem filter_lineageRows [DecidableEq V] {str : V → String} {column : String} {nodes : List DAGNodeManifest}
    (hbounds : ∀ node ∈ nodes, ∀ part ∈ nodeParts spec node,
      CarriesBounds str part spec.schema column
        (partRows engine files root spec.schema node.snapshotId part)) (v : V) :
    (lineageRows engine files root spec (keepsPart files root (some (str v)) (some (str v))) nodes).filter
        (fun r => spec.schema.cell r.2 column = some v) =
      (lineageRows engine files root spec (fun _ _ => true) nodes).filter
        fun r => spec.schema.cell r.2 column = some v := by
  unfold lineageRows
  rw [List.filter_flatMap, List.filter_flatMap]
  refine List.flatMap_congr fun node hnode => ?_
  have hin : node.1 ∈ nodes := List.fst_mem_of_mem_zipIdx hnode
  rw [List.filter_flatMap, List.filter_flatMap]
  refine List.flatMap_congr fun part hpart => ?_
  simp only [if_true]
  split
  · rfl
  · rename_i hdropped
    symm
    rw [List.filter_nil, List.filter_eq_nil_iff]
    intro r hr hkey
    obtain ⟨row, hrow, rfl⟩ := List.mem_map.mp hr
    have hoverlaps := overlaps_of_carriesBounds (hbounds node.1 hin part hpart) hrow
      (of_decide_eq_true hkey)
    -- a part with rows is on disk
    cases hcontent : fileContent files (partPath files root node.1.snapshotId part.path) with
    | none =>
      rw [partRows_of_missing hcontent] at hrow
      cases hrow
    | some content =>
      obtain ⟨path, hpath⟩ := (exists_candidatePath_iff hcontent).mpr hoverlaps
      apply hdropped
      rw [keepsPart, hpath]
      rfl

section Views
variable [LinearOrder V] {choice : Choice} {parent : RelationSpec} {column : String} {v : V}
  {rows rows' parentRows parentRows' : List (Nat × Row V)}

theorem filter_rankedRows (hkey : spec.primaryKey = [column]) :
    (rankedRows choice spec rows).filter (fun row => spec.schema.cell row column = some v) =
      (firstOf choice (fun r => spec.keyCells r.2) (lineageOrder spec) rows [some v]).toList.map
        Prod.snd := by
  have hcells : ∀ row : Row V, spec.keyCells row = [spec.schema.cell row column] := by
    intro row
    rw [RelationSpec.keyCells, hkey]
    rfl
  rw [rankedRows, List.filter_map, ← filter_rowNumberOne]
  refine congrArg _ (List.filter_congr fun r _ => decide_eq_decide.mpr ?_)
  rw [hcells]
  simp

theorem filter_rankedRows_congr (hkey : spec.primaryKey = [column])
    (hrows : (rows.filter fun r => spec.schema.cell r.2 column = some v) =
      rows'.filter fun r => spec.schema.cell r.2 column = some v) :
    (rankedRows choice spec rows).filter (fun row => spec.schema.cell row column = some v) =
      (rankedRows choice spec rows').filter fun row => spec.schema.cell row column = some v := by
  have hcells : ∀ r : Nat × Row V, decide (spec.keyCells r.2 = [some v]) =
      decide (spec.schema.cell r.2 column = some v) := by
    intro r
    rw [RelationSpec.keyCells, hkey]
    simp [Schema.cells]
  rw [filter_rankedRows hkey, filter_rankedRows hkey, firstOf_congr]
  simp only [hcells]
  exact hrows

omit [LinearOrder V] in
theorem newest_congr [DecidableEq V] {schema : Schema} {cols : List String} {κ : List (Option V)} {m : Nat}
    (h : (rows.filter fun r => schema.cells cols r.2 = κ) =
      rows'.filter fun r => schema.cells cols r.2 = κ) :
    Newest schema cols rows κ m ↔ Newest schema cols rows' κ m := by
  have hmem : ∀ r : Nat × Row V, schema.cells cols r.2 = κ → (r ∈ rows ↔ r ∈ rows') := by
    intro r hr
    have hin := @List.mem_filter _ (fun r : Nat × Row V => decide (schema.cells cols r.2 = κ)) rows r
    have hin' := @List.mem_filter _ (fun r : Nat × Row V => decide (schema.cells cols r.2 = κ)) rows' r
    rw [h] at hin
    simpa [hr] using hin.symm.trans hin'
  unfold Newest
  constructor
  · intro ⟨⟨r, hr, hk, hm⟩, hall⟩
    exact ⟨⟨r, (hmem r hk).mp hr, hk, hm⟩, fun r' hr' hk' => hall r' ((hmem r' hk').mpr hr') hk'⟩
  · intro ⟨⟨r, hr, hk, hm⟩, hall⟩
    exact ⟨⟨r, (hmem r hk).mpr hr, hk, hm⟩, fun r' hr' hk' => hall r' ((hmem r' hk').mp hr') hk'⟩

theorem filter_maskedRows_congr (hjoin : spec.joinColumns = [column])
    (hrows : (rows.filter fun r => spec.schema.cell r.2 column = some v) =
      rows'.filter fun r => spec.schema.cell r.2 column = some v)
    (hparents : (parentRows.filter fun r => parent.schema.cell r.2 column = some v) =
      parentRows'.filter fun r => parent.schema.cell r.2 column = some v) :
    (maskedRows choice spec parent rows parentRows).filter
        (fun row => spec.schema.cell row column = some v) =
      (maskedRows choice spec parent rows' parentRows').filter
        fun row => spec.schema.cell row column = some v := by
  have hsplit : ∀ l parents : List (Nat × Row V),
      ((l.filter fun c => decide (Shown spec parent parents c)).map Prod.snd).filter
          (fun row => spec.schema.cell row column = some v) =
        ((l.filter fun r => spec.schema.cell r.2 column = some v).filter fun c =>
          decide (Shown spec parent parents c)).map Prod.snd := by
    intro l parents
    rw [List.filter_map, List.filter_comm]
    rfl
  rw [maskedRows_eq, maskedRows_eq, hsplit, hsplit, hrows]
  refine congrArg _ (List.filter_congr fun c hc => decide_eq_decide.mpr ?_)
  have hcell : spec.schema.cell c.2 column = some v := of_decide_eq_true (List.mem_filter.mp hc).2
  have hcells : spec.schema.cells spec.joinColumns c.2 = [some v] := by
    rw [hjoin]
    simp [Schema.cells, hcell]
  unfold Shown
  rw [hcells]
  refine and_congr_right fun _ => newest_congr ?_
  have hkeys : ∀ r : Nat × Row V, decide (parent.schema.cells spec.joinColumns r.2 = [some v]) =
      decide (parent.schema.cell r.2 column = some v) := by
    intro r
    rw [hjoin]
    simp [Schema.cells]
  simp only [hkeys]
  exact hparents

/-! ## Registering the views -/

theorem registerViews_cons_eq_ok_iff {ranges : RelationRanges} {raws : List (PrunedView V)}
    {specs : List RelationSpec} {views : List (String × Table V)} :
    registerViews engine files root lineage ranges raws (spec :: specs) = .ok views ↔
      ∃ view rows rest, readPruned engine files root lineage ranges spec = .ok view ∧
        prunedActiveView engine.toChoice (view :: raws) view = .ok rows ∧
        registerViews engine files root lineage ranges (view :: raws) specs = .ok rest ∧
        views = (spec.name, rows) :: rest := by
  rw [registerViews]
  constructor
  · intro h
    obtain ⟨view, hview, h⟩ := bind_eq_ok.mp h
    obtain ⟨rows, hrows, h⟩ := bind_eq_ok.mp h
    obtain ⟨rest, hrest, h⟩ := bind_eq_ok.mp h
    exact ⟨view, rows, rest, hview, hrows, hrest, (Except.ok.inj h).symm⟩
  · intro ⟨view, rows, rest, hview, hrows, hrest, hviews⟩
    simp only [hview, hrows, hrest, hviews, bind, Except.bind]

omit [LinearOrder V] in
theorem PrunedView.rows_of_parts_nil {v : PrunedView V} (h : v.parts = []) : v.rows = [] := by
  rw [PrunedView.rows, h]
  rfl

theorem prunedActiveView_ranked {raws : List (PrunedView V)} {v : PrunedView V}
    (h : v.spec.mergeStrategy ≠ .scopedMask) :
    prunedActiveView choice raws v = .ok (rankedRows choice v.spec v.rows) := by
  unfold prunedActiveView
  by_cases hno : v.parts = []
  · rw [if_pos (List.isEmpty_iff.mpr hno), PrunedView.rows_of_parts_nil hno]
    rfl
  · rw [if_neg (by simpa using hno), if_pos h]

theorem prunedActiveView_masked_iff {raws : List (PrunedView V)} {v p : PrunedView V}
    {rows : Table V} (h : v.spec.mergeStrategy = .scopedMask)
    (hp : raws.find? (fun p => p.spec.name = v.spec.parentName) = some p)
    (hjoin : JoinColumnsKnown v.spec p.spec) :
    prunedActiveView choice raws v = .ok rows ↔ (v.parts = [] ∨ p.parts ≠ []) ∧
      rows = maskedRows choice v.spec p.spec v.rows p.rows := by
  unfold prunedActiveView
  by_cases hno : v.parts = []
  · have hnil : maskedRows choice v.spec p.spec [] p.rows = [] := rfl
    rw [if_pos (List.isEmpty_iff.mpr hno), PrunedView.rows_of_parts_nil hno, hnil]
    simp only [hno, true_or, true_and, Except.ok.injEq]
    exact eq_comm
  · have hcols : (v.spec.joinColumns.all fun k =>
        decide (k ∈ v.spec.schema.names ∧ k ∈ p.spec.schema.names)) = true := by
      simpa [JoinColumnsKnown] using hjoin
    rw [if_neg (by simpa using hno), if_neg (not_not.mpr h), hp]
    simp only [hno, false_or, hcols, if_true]
    by_cases hparent : p.parts = []
    · simp [hparent]
    · rw [if_neg (by simpa using hparent)]
      simp only [hparent, ne_eq, not_false_eq_true, true_and, Except.ok.injEq]
      exact eq_comm

end Views

end EdgarSec.Dag
