import EdgarSec.Dag.Resolution

/-! What the merge rules make of a lineage with one more node: which row wins a primary key,
and which children the newest parents show. -/

namespace EdgarSec.Dag
open Foundation Lib

variable {V : Type}

/-! ## One more node -/

namespace RawView

theorem rows_append (spec : RelationSpec) (sources : List (Option (Table V)))
    (source : Option (Table V)) :
    (RawView.mk spec (sources ++ [source])).rows =
      (RawView.mk spec sources).rows ++ (source.getD []).map (Prod.mk sources.length) := by
  simp [rows, List.zipIdx_append]

theorem lt_length_of_mem_rows {v : RawView V} {r : Nat × Row V} (h : r ∈ v.rows) :
    r.1 < v.sources.length := by
  obtain ⟨⟨source, i⟩, hs, hr⟩ := List.mem_flatMap.mp h
  obtain ⟨row, _, rfl⟩ := List.mem_map.mp hr
  have hi := List.snd_lt_of_mem_zipIdx hs
  simpa using hi

theorem exists_source_of_mem_rows {v : RawView V} {r : Nat × Row V} (h : r ∈ v.rows) :
    ∃ table, some table ∈ v.sources ∧ r.2 ∈ table := by
  obtain ⟨⟨source, i⟩, hs, hr⟩ := List.mem_flatMap.mp h
  obtain ⟨row, hrow, rfl⟩ := List.mem_map.mp hr
  cases source with
  | none => simp at hrow
  | some table => exact ⟨table, List.fst_mem_of_mem_zipIdx hs, hrow⟩

theorem rows_eq_nil_of_not_hasSubqueries {v : RawView V} (h : v.hasSubqueries = false) :
    v.rows = [] := by
  refine List.eq_nil_iff_forall_not_mem.mpr fun r hr => ?_
  obtain ⟨table, hin, _⟩ := exists_source_of_mem_rows hr
  have hsome := List.any_eq_false.mp h (some table) hin
  simp at hsome

end RawView

/-! ## Orders -/

theorem sortOrder_ordAsc : SortOrder (ordAsc : Nat × Row V → Nat × Row V → Bool) where
  total a b := by
    unfold ordAsc
    have h := Nat.le_total a.1 b.1
    simpa using h
  trans := by
    unfold ordAsc
    simp only [decide_eq_true_eq]
    exact fun hab hbc => hab.trans hbc

theorem sortOrder_ordDesc : SortOrder (ordDesc : Nat × Row V → Nat × Row V → Bool) where
  total a b := by
    unfold ordDesc
    have h := Nat.le_total b.1 a.1
    simpa using h
  trans := by
    unfold ordDesc
    simp only [decide_eq_true_eq]
    exact fun hab hbc => hbc.trans hab

theorem sortOrder_newestFirst :
    SortOrder fun a b : List (Option V) × Nat => decide (b.2 ≤ a.2) where
  total a b := by
    have h := Nat.le_total b.2 a.2
    simpa using h
  trans := by
    simp only [decide_eq_true_eq]
    exact fun hab hbc => hbc.trans hab

section Order
variable [LinearOrder V]

theorem sortOrder_cellBefore (op : TieBreakerOp) : SortOrder (cellBefore (V := V) op) where
  total a b := by
    cases op <;> cases a <;> cases b <;> simp [cellBefore, cellAsc, cellDesc, le_total]
  trans {a b c} := by
    cases op <;> cases a <;> cases b <;> cases c <;>
      simp only [cellBefore, cellAsc, cellDesc, decide_eq_true_eq, implies_true,
        false_implies, Bool.false_eq_true]
    · exact fun hab hbc => hab.trans hbc
    · exact fun hab hbc => hbc.trans hab

theorem sortOrder_lineageOrder (spec : RelationSpec) :
    SortOrder (lineageOrder spec : Nat × Row V → Nat × Row V → Bool) := by
  unfold lineageOrder appendOrder
  cases spec.mergeStrategy with
  | upsert => exact sortOrder_ordDesc
  | scopedMask => exact sortOrder_ordDesc
  | append =>
    cases spec.tieBreaker? with
    | none => exact sortOrder_ordAsc
    | some tie =>
      have hcell := (sortOrder_cellBefore (V := V) spec.tieBreakerOp).comap
        fun r : Nat × Row V => spec.schema.cell r.2 tie
      cases hop : spec.tieBreakerOp with
      | min => exact (hop ▸ hcell).thenBy sortOrder_ordAsc
      | max => exact (hop ▸ hcell).thenBy sortOrder_ordDesc

def outranks (spec : RelationSpec) (later earlier : Row V) : Bool :=
  lineageOrder spec (1, later) (0, earlier)

theorem lineageOrder_eq_outranks (spec : RelationSpec) {m n : Nat} (h : m < n)
    (later earlier : Row V) :
    lineageOrder spec (n, later) (m, earlier) = outranks spec later earlier ∧
      lineageOrder spec (m, earlier) (n, later) = !outranks spec later earlier := by
  have hle : m ≤ n := h.le
  have hnle : ¬ n ≤ m := Nat.not_le.mpr h
  unfold outranks lineageOrder appendOrder
  cases spec.mergeStrategy with
  | upsert => simp [ordDesc, hle, hnle]
  | scopedMask => simp [ordDesc, hle, hnle]
  | append =>
    cases spec.tieBreaker? with
    | none => simp [ordAsc, hle, hnle]
    | some tie =>
      have htotal := (sortOrder_cellBefore (V := V) spec.tieBreakerOp).total
        (spec.schema.cell later tie) (spec.schema.cell earlier tie)
      cases hop : spec.tieBreakerOp <;> rw [hop] at htotal <;>
        simp only [thenBy, ordAsc, ordDesc, hle, hnle, decide_true, decide_false, Nat.zero_le] <;>
        grind

/-! ## Ranked relations -/

section Ranked
variable {choice : Choice} {spec : RelationSpec} {rows : List (Nat × Row V)}

theorem mem_rankedRows {a : Row V} : a ∈ rankedRows choice spec rows ↔
    ∃ m, firstOf choice (fun r => spec.keyCells r.2) (lineageOrder spec) rows (spec.keyCells a) =
      some (m, a) := by
  unfold rankedRows
  rw [List.mem_map]
  constructor
  · rintro ⟨⟨m, b⟩, hb, rfl⟩
    exact ⟨m, mem_rowNumberOne.mp hb⟩
  · rintro ⟨m, hm⟩
    exact ⟨(m, a), mem_rowNumberOne.mpr hm, rfl⟩

theorem mem_rows_of_mem_rankedRows {a : Row V} (h : a ∈ rankedRows choice spec rows) :
    ∃ m, (m, a) ∈ rows := by
  obtain ⟨m, hm⟩ := mem_rankedRows.mp h
  exact ⟨m, (mem_of_firstOf hm).1⟩

theorem fits_rankedRows (h : ∀ r ∈ rows, r.2.length = spec.schema.names.length) :
    spec.schema.Fits (rankedRows choice spec rows) := by
  intro a ha
  obtain ⟨m, hm⟩ := mem_rows_of_mem_rankedRows ha
  exact h _ hm

theorem nodup_keyCells_rankedRows : ((rankedRows choice spec rows).map spec.keyCells).Nodup := by
  have h := @nodup_map_key_rowNumberOne _ _ (lineageOrder spec) _ choice
    (fun r : Nat × Row V => spec.keyCells r.2) rows
  simpa [rankedRows, List.map_map, Function.comp_def] using h

theorem exists_mem_rankedRows {r : Nat × Row V} (h : r ∈ rows) :
    ∃ a ∈ rankedRows choice spec rows, spec.keyCells a = spec.keyCells r.2 := by
  obtain ⟨⟨m, a⟩, ha⟩ := @exists_firstOf _ _ _ _ choice (fun r : Nat × Row V => spec.keyCells r.2)
    (sortOrder_lineageOrder spec) rows r h
  have hk : spec.keyCells a = spec.keyCells r.2 := (mem_of_firstOf ha).2.1
  refine ⟨a, mem_rankedRows.mpr ⟨m, ?_⟩, hk⟩
  rw [hk]
  exact ha

theorem filter_prodMk_eq {table : Table V} (hnodup : (table.map spec.keyCells).Nodup) {c : Row V}
    (hc : c ∈ table) (n : Nat) :
    ((table.map (Prod.mk n)).filter fun r => spec.keyCells r.2 = spec.keyCells c) = [(n, c)] := by
  have hone : (table.filter fun b => spec.keyCells b = spec.keyCells c) = [c] := by
    have hinj := List.inj_on_of_nodup_map hnodup
    have heq : (table.filter fun b => spec.keyCells b = spec.keyCells c) =
        table.filter fun b => b = c := by
      refine List.filter_congr fun b hb => ?_
      exact decide_eq_decide.mpr ⟨fun h => hinj hb hc h, fun h => h ▸ rfl⟩
    rw [heq, List.filter_eq, List.count_eq_one_of_mem hnodup.of_map hc]
    rfl
  rw [List.filter_map, Function.comp_def]
  simp only [hone, List.map_cons, List.map_nil]

theorem map_firstOf_append {n : Nat} (hrows : ∀ r ∈ rows, r.1 < n) {table : Table V}
    (hnodup : (table.map spec.keyCells).Nodup) {c : Row V} (hc : c ∈ table) :
    (firstOf choice (fun r => spec.keyCells r.2) (lineageOrder spec)
        (rows ++ table.map (Prod.mk n)) (spec.keyCells c)).map Prod.snd =
      match (firstOf choice (fun r => spec.keyCells r.2) (lineageOrder spec) rows
        (spec.keyCells c)).map Prod.snd with
      | none => some c
      | some a => if outranks spec c a then some c else some a := by
  have hone := filter_prodMk_eq hnodup hc n
  obtain ⟨hahead, hbehind⟩ := @firstOf_append_of_filter_eq _ _ _ _ choice _
    (sortOrder_lineageOrder spec) rows _ _ _ hone
  cases hf : firstOf choice (fun r => spec.keyCells r.2) (lineageOrder spec) rows (spec.keyCells c) with
  | none =>
    rw [hahead (by simp [hf])]
    rfl
  | some w =>
    obtain ⟨m, a⟩ := w
    have hm : m < n := hrows _ (mem_of_firstOf hf).1
    obtain ⟨hca, hac⟩ := lineageOrder_eq_outranks spec hm c a
    cases ho : outranks spec c a with
    | true =>
      rw [ho] at hca hac
      have hwin := hahead fun w hw => by
        obtain rfl := Option.some.inj (hf.symm.trans hw)
        exact ⟨hca, hac⟩
      rw [hwin]
      simp [ho]
    | false =>
      rw [ho] at hca hac
      rw [hbehind ⟨(m, a), hf, hac, hca⟩, hf]
      simp [ho]

theorem rankedRows_append_perm_iff {n : Nat} (hrows : ∀ r ∈ rows, r.1 < n) {table : Table V}
    (hnodup : (table.map spec.keyCells).Nodup) {keep : Row V → Bool}
    (hkeep : ∀ c ∈ table, keep c = false →
      ∃ a ∈ rankedRows choice spec rows, spec.keyCells a = spec.keyCells c) :
    (rankedRows choice spec (rows ++ (table.filter keep).map (Prod.mk n))).Perm
        (rankedRows choice spec (rows ++ table.map (Prod.mk n))) ↔
      ∀ c ∈ table, keep c = false → ∀ a ∈ rankedRows choice spec rows,
        spec.keyCells a = spec.keyCells c → c = a ∨ outranks spec c a = false := by
  have hnodup' : ((table.filter keep).map spec.keyCells).Nodup :=
    hnodup.sublist (List.filter_sublist.map _)
  have hinj := List.inj_on_of_nodup_map hnodup
  -- a key whose candidate is left out keeps its active row
  have hleft : ∀ c ∈ table, keep c = false →
      firstOf choice (fun r => spec.keyCells r.2) (lineageOrder spec)
        (rows ++ (table.filter keep).map (Prod.mk n)) (spec.keyCells c) =
      firstOf choice (fun r => spec.keyCells r.2) (lineageOrder spec) rows (spec.keyCells c) := by
    intro c hc hk
    refine firstOf_append_of_forall_ne fun r hr he => ?_
    obtain ⟨b, hb, rfl⟩ := List.mem_map.mp hr
    obtain ⟨hbt, hbk⟩ := List.mem_filter.mp hb
    obtain rfl : b = c := hinj hbt hc he
    simp [hk] at hbk
  unfold rankedRows
  rw [map_rowNumberOne_perm_iff (g := spec.keyCells) fun _ => rfl]
  constructor
  · intro h c hc hk a ha hac
    have hwin := h (spec.keyCells c)
    obtain ⟨m, hm⟩ := mem_rankedRows.mp ha
    rw [hac] at hm
    rw [hleft c hc hk, map_firstOf_append hrows hnodup hc, hm] at hwin
    cases ho : outranks spec c a with
    | false => exact Or.inr rfl
    | true =>
      simp only [Option.map_some, ho, if_true, Option.some.injEq] at hwin
      exact Or.inl hwin.symm
  · intro h κ
    by_cases hκ : ∃ c ∈ table, spec.keyCells c = κ
    · obtain ⟨c, hc, rfl⟩ := hκ
      cases hk : keep c with
      | true =>
        have hc' : c ∈ table.filter keep := List.mem_filter.mpr ⟨hc, hk⟩
        rw [map_firstOf_append hrows hnodup hc, map_firstOf_append hrows hnodup' hc']
      | false =>
        obtain ⟨a, ha, hac⟩ := hkeep c hc hk
        obtain ⟨m, hm⟩ := mem_rankedRows.mp ha
        rw [hac] at hm
        rw [hleft c hc hk, map_firstOf_append hrows hnodup hc, hm]
        rcases h c hc hk a ha hac with rfl | ho
        · simp
        · simp [ho]
    · have hnone : ∀ t : Table V, (∀ c ∈ t, c ∈ table) → ∀ r ∈ t.map (Prod.mk n),
          spec.keyCells r.2 ≠ κ := by
        intro t ht r hr he
        obtain ⟨c, hc, rfl⟩ := List.mem_map.mp hr
        exact hκ ⟨c, ht c hc, he⟩
      rw [firstOf_append_of_forall_ne (hnone table fun _ hc => hc),
        firstOf_append_of_forall_ne (hnone _ fun _ hc => (List.mem_filter.mp hc).1)]

end Ranked

/-! ## Masked relations -/

section Masked
variable {choice : Choice} {spec parent : RelationSpec} {rows parentRows : List (Nat × Row V)}

/-- `m` is the newest node that wrote the key. -/
def Newest (schema : Schema) (cols : List String) (rows : List (Nat × Row V))
    (κ : List (Option V)) (m : Nat) : Prop :=
  (∃ r ∈ rows, schema.cells cols r.2 = κ ∧ r.1 = m) ∧
    ∀ r ∈ rows, schema.cells cols r.2 = κ → r.1 ≤ m

instance (schema : Schema) (cols : List String) (rows : List (Nat × Row V))
    (κ : List (Option V)) (m : Nat) : Decidable (Newest schema cols rows κ m) :=
  inferInstanceAs (Decidable (_ ∧ _))

theorem mem_winningParent {schema : Schema} {cols : List String} {w : List (Option V) × Nat} :
    w ∈ winningParent choice schema cols rows ↔ Newest schema cols rows w.1 w.2 := by
  unfold winningParent
  rw [mem_rowNumberOne]
  -- the window sees the keys and the nodes only
  have hspec : ∀ u : List (Option V) × Nat,
      firstOf choice Prod.fst (fun a b => decide (b.2 ≤ a.2))
        (rows.map fun r => (schema.cells cols r.2, r.1)) w.1 = some u →
      u.1 = w.1 ∧ Newest schema cols rows u.1 u.2 := by
    intro u hu
    obtain ⟨hmem, hk, hall⟩ := mem_of_firstOf hu
    obtain ⟨r, hr, rfl⟩ := List.mem_map.mp hmem
    refine ⟨hk, ⟨r, hr, rfl, rfl⟩, fun r' hr' he => ?_⟩
    have hle := hall _ (List.mem_map_of_mem (f := fun r => (schema.cells cols r.2, r.1)) hr') (he.trans hk)
    exact of_decide_eq_true hle
  constructor
  · intro h
    exact (hspec w h).2
  · rintro ⟨⟨r, hr, hk, hm⟩, hall⟩
    have hin : (schema.cells cols r.2, r.1) ∈ rows.map fun r => (schema.cells cols r.2, r.1) :=
      List.mem_map_of_mem hr
    obtain ⟨u, hu⟩ := @exists_firstOf _ _ _ _ choice Prod.fst sortOrder_newestFirst _ _ hin
    have hu' := hu
    simp only [hk] at hu'
    obtain ⟨hku, ⟨r', hr', hk', hm'⟩, hall'⟩ := hspec u hu'
    have hle : u.2 ≤ w.2 := hm' ▸ hall r' hr' (hk'.trans hku)
    have hge : w.2 ≤ u.2 := hm ▸ hall' r hr (hk.trans hku.symm)
    have huw : u = w := Prod.ext hku (Nat.le_antisymm hle hge)
    rw [hu', huw]

theorem newest_append {schema : Schema} {cols : List String} {n : Nat} (hrows : ∀ r ∈ rows, r.1 < n)
    {table : Table V} {κ : List (Option V)} {m : Nat} :
    Newest schema cols (rows ++ table.map (Prod.mk n)) κ m ↔
      if κ ∈ table.map (schema.cells cols) then m = n else Newest schema cols rows κ m := by
  unfold Newest
  split
  · rename_i hκ
    obtain ⟨x, hx, hxκ⟩ := List.mem_map.mp hκ
    have hin : (n, x) ∈ rows ++ table.map (Prod.mk n) :=
      List.mem_append_right _ (List.mem_map_of_mem hx)
    have hle : ∀ r ∈ rows ++ table.map (Prod.mk n), r.1 ≤ n := by
      intro r hr
      rcases List.mem_append.mp hr with hr | hr
      · exact (hrows r hr).le
      · obtain ⟨_, _, rfl⟩ := List.mem_map.mp hr
        exact Nat.le_refl n
    constructor
    · rintro ⟨⟨r, hr, _, rfl⟩, hall⟩
      exact Nat.le_antisymm (hle r hr) (hall _ hin hxκ)
    · rintro rfl
      exact ⟨⟨_, hin, hxκ, rfl⟩, fun r hr _ => hle r hr⟩
  · rename_i hκ
    have hno : ∀ r ∈ table.map (Prod.mk n), schema.cells cols r.2 ≠ κ := by
      intro r hr he
      obtain ⟨x, hx, rfl⟩ := List.mem_map.mp hr
      exact hκ (List.mem_map.mpr ⟨x, hx, he⟩)
    constructor
    · rintro ⟨⟨r, hr, he, hm⟩, hall⟩
      refine ⟨?_, fun r hr => hall r (List.mem_append_left _ hr)⟩
      rcases List.mem_append.mp hr with hr | hr
      · exact ⟨r, hr, he, hm⟩
      · exact absurd he (hno r hr)
    · rintro ⟨⟨r, hr, he, hm⟩, hall⟩
      refine ⟨⟨r, List.mem_append_left _ hr, he, hm⟩, fun r hr he => ?_⟩
      rcases List.mem_append.mp hr with hr | hr
      · exact hall r hr he
      · exact absurd he (hno r hr)

def Shown (spec parent : RelationSpec) (parentRows : List (Nat × Row V)) (c : Nat × Row V) : Prop :=
  (spec.schema.cells spec.joinColumns c.2).all Option.isSome ∧
    Newest parent.schema spec.joinColumns parentRows (spec.schema.cells spec.joinColumns c.2) c.1

instance : DecidablePred (Shown spec parent parentRows) := fun _ =>
  inferInstanceAs (Decidable (_ ∧ _))

theorem maskedRows_eq : maskedRows choice spec parent rows parentRows =
    (rows.filter fun c => Shown spec parent parentRows c).map Prod.snd := by
  have hright : ((winningParent choice parent.schema spec.joinColumns parentRows).filterMap
      fun p => (nonNull p.1).map (·, p.2)).Nodup := by
    refine List.Nodup.filterMap ?_ (List.Nodup.of_map Prod.fst nodup_map_key_rowNumberOne)
    rintro ⟨κ, m⟩ ⟨κ', m'⟩ b hb hb'
    obtain ⟨c, hc, rfl⟩ := Option.map_eq_some_iff.mp hb
    obtain ⟨c', hc', he⟩ := Option.map_eq_some_iff.mp hb'
    obtain ⟨rfl, rfl⟩ := Prod.mk.inj he
    exact Prod.ext ((nonNull_eq_some_iff.mp hc).1.trans (nonNull_eq_some_iff.mp hc').1.symm) rfl
  have hsnd : ∀ js : List ((Nat × Row V) × (List (Option V) × Nat)),
      js.map (fun j => j.1.2) = (js.map Prod.fst).map Prod.snd := by
    simp [List.map_map, Function.comp_def]
  unfold maskedRows
  rw [hsnd, map_fst_innerJoin hright]
  refine congrArg _ (List.filter_congr fun c _ => decide_eq_decide.mpr ?_)
  constructor
  · intro hne
    obtain ⟨w, hw⟩ := List.exists_mem_of_ne_nil _ hne
    obtain ⟨hw, k, hk, hk'⟩ := mem_matchRows.mp hw
    obtain ⟨κ, hκ, rfl⟩ := Option.map_eq_some_iff.mp hk
    obtain ⟨κ', hκ', he⟩ := Option.map_eq_some_iff.mp hk'
    obtain ⟨rfl, hm⟩ := Prod.mk.inj he
    obtain ⟨rfl, hall⟩ := nonNull_eq_some_iff.mp hκ
    have hnew := mem_winningParent.mp hw
    rw [(nonNull_eq_some_iff.mp hκ').1, hm] at hnew
    exact ⟨List.all_eq_true.mpr hall, hnew⟩
  · rintro ⟨hall, hnew⟩
    have hκ : nonNull (spec.schema.cells spec.joinColumns c.2) =
        some (spec.schema.cells spec.joinColumns c.2) :=
      nonNull_eq_some_iff.mpr ⟨rfl, List.all_eq_true.mp hall⟩
    have hmem : (spec.schema.cells spec.joinColumns c.2, c.1) ∈
        winningParent choice parent.schema spec.joinColumns parentRows := mem_winningParent.mpr hnew
    have hmatch : (nonNull (spec.schema.cells spec.joinColumns c.2)).map (·, c.1) =
        some (spec.schema.cells spec.joinColumns c.2, c.1) := by
      rw [hκ]
      rfl
    exact List.ne_nil_of_mem (mem_matchRows.mpr ⟨hmem, _, hmatch, hmatch⟩)

theorem fits_maskedRows (h : ∀ r ∈ rows, r.2.length = spec.schema.names.length) :
    spec.schema.Fits (maskedRows choice spec parent rows parentRows) := by
  intro a ha
  rw [maskedRows_eq] at ha
  obtain ⟨c, hc, rfl⟩ := List.mem_map.mp ha
  exact h c (List.mem_filter.mp hc).1

theorem shown_append {n : Nat} (hparents : ∀ r ∈ parentRows, r.1 < n) {parents : Table V}
    {c : Nat × Row V} : Shown spec parent (parentRows ++ parents.map (Prod.mk n)) c ↔
      if (spec.schema.cells spec.joinColumns c.2).all Option.isSome = true ∧
        spec.schema.cells spec.joinColumns c.2 ∈ parents.map (parent.schema.cells spec.joinColumns)
      then c.1 = n else Shown spec parent parentRows c := by
  unfold Shown
  rw [newest_append hparents]
  by_cases hall : (spec.schema.cells spec.joinColumns c.2).all Option.isSome = true
  · simp only [hall, true_and]
  · simp [hall]

omit [LinearOrder V] in
theorem Shown.lt {n : Nat} (hparents : ∀ r ∈ parentRows, r.1 < n) {c : Nat × Row V}
    (h : Shown spec parent parentRows c) : c.1 < n := by
  obtain ⟨_, ⟨r, hr, _, hm⟩, _⟩ := h
  exact hm ▸ hparents r hr

theorem filter_maskedRows_append {n : Nat} (hrows : ∀ r ∈ rows, r.1 < n)
    (hparents : ∀ r ∈ parentRows, r.1 < n) {table parents : Table V} {κ : List (Option V)} :
    (maskedRows choice spec parent (rows ++ table.map (Prod.mk n))
        (parentRows ++ parents.map (Prod.mk n))).filter
          (fun c => spec.schema.cells spec.joinColumns c = κ) =
      if κ.all Option.isSome = true ∧ κ ∈ parents.map (parent.schema.cells spec.joinColumns) then
        table.filter fun c => spec.schema.cells spec.joinColumns c = κ
      else (maskedRows choice spec parent rows parentRows).filter
        fun c => spec.schema.cells spec.joinColumns c = κ := by
  -- rows of the key, the old ones and the new ones apart
  have hsplit : ∀ (q : Nat × Row V → Bool) (l : List (Nat × Row V)),
      ((l.filter q).map Prod.snd).filter (fun c => spec.schema.cells spec.joinColumns c = κ) =
        (l.filter fun r => decide (spec.schema.cells spec.joinColumns r.2 = κ) && q r).map
          Prod.snd := by
    intro q l
    rw [List.filter_map, List.filter_filter]
    rfl
  simp only [maskedRows_eq, hsplit, List.filter_append, List.map_append]
  split
  · rename_i hκ
    have hold : (rows.filter fun r => decide (spec.schema.cells spec.joinColumns r.2 = κ) &&
        decide (Shown spec parent (parentRows ++ parents.map (Prod.mk n)) r)) = [] := by
      refine List.filter_eq_nil_iff.mpr fun r hr h => ?_
      obtain ⟨hk, hs⟩ := Bool.and_eq_true_iff.mp h
      have hshown := (shown_append hparents).mp (of_decide_eq_true hs)
      rw [of_decide_eq_true hk, if_pos hκ] at hshown
      exact absurd hshown (hrows r hr).ne
    have hnew : ∀ r ∈ table.map (Prod.mk n), (decide (spec.schema.cells spec.joinColumns r.2 = κ) &&
        decide (Shown spec parent (parentRows ++ parents.map (Prod.mk n)) r)) =
        decide (spec.schema.cells spec.joinColumns r.2 = κ) := by
      intro r hr
      obtain ⟨x, _, rfl⟩ := List.mem_map.mp hr
      rw [Bool.and_eq_left_iff_imp]
      intro hk
      refine decide_eq_true ((shown_append hparents).mpr ?_)
      rw [of_decide_eq_true hk, if_pos hκ]
    rw [hold, List.filter_congr hnew]
    simp [List.filter_map, Function.comp_def]
  · rename_i hκ
    have hold : ∀ r ∈ rows, (decide (spec.schema.cells spec.joinColumns r.2 = κ) &&
        decide (Shown spec parent (parentRows ++ parents.map (Prod.mk n)) r)) =
        (decide (spec.schema.cells spec.joinColumns r.2 = κ) &&
          decide (Shown spec parent parentRows r)) := by
      intro r _
      by_cases hk : spec.schema.cells spec.joinColumns r.2 = κ
      · have hshown := @shown_append _ _ spec parent parentRows n hparents parents r
        rw [hk, if_neg hκ] at hshown
        simp only [hshown]
      · simp only [hk, decide_false, Bool.false_and]
    have hnew : (table.map (Prod.mk n)).filter (fun r =>
        decide (spec.schema.cells spec.joinColumns r.2 = κ) &&
          decide (Shown spec parent (parentRows ++ parents.map (Prod.mk n)) r)) = [] := by
      refine List.filter_eq_nil_iff.mpr fun r hr h => ?_
      obtain ⟨x, _, rfl⟩ := List.mem_map.mp hr
      obtain ⟨hk, hs⟩ := Bool.and_eq_true_iff.mp h
      have hshown := (shown_append hparents).mp (of_decide_eq_true hs)
      rw [of_decide_eq_true hk, if_neg hκ] at hshown
      exact absurd (hshown.lt hparents) (Nat.lt_irrefl n)
    rw [List.filter_congr hold, hnew, List.map_nil, List.append_nil]

theorem mem_maskedRows_append {n : Nat} (hrows : ∀ r ∈ rows, r.1 < n)
    (hparents : ∀ r ∈ parentRows, r.1 < n) {table parents : Table V} {a : Row V} :
    a ∈ maskedRows choice spec parent (rows ++ table.map (Prod.mk n))
        (parentRows ++ parents.map (Prod.mk n)) ↔
      if (spec.schema.cells spec.joinColumns a).all Option.isSome = true ∧
        spec.schema.cells spec.joinColumns a ∈ parents.map (parent.schema.cells spec.joinColumns)
      then a ∈ table else a ∈ maskedRows choice spec parent rows parentRows := by
  have hfilter := @filter_maskedRows_append _ _ choice spec parent rows parentRows n hrows hparents
    table parents (spec.schema.cells spec.joinColumns a)
  have hmem : ∀ l : Table V, a ∈ l ↔ a ∈ l.filter fun c =>
      spec.schema.cells spec.joinColumns c = spec.schema.cells spec.joinColumns a := by
    simp
  rw [hmem, hfilter]
  split <;> exact (hmem _).symm

end Masked

end Order

end EdgarSec.Dag
