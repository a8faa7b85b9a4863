import EdgarSec.Dag.ActiveViews
import EdgarSec.Dag.AntiJoin
import EdgarSec.Dag.PlainEngine

/-! When the delta that `filter_candidate_delta` keeps gives the same active views as the
whole candidate set. -/

namespace EdgarSec.Dag
open Foundation Lib

variable {V : Type} [LinearOrder V]

/-! ## The property -/

/-- `extended` is `lineage` and one more node, with a part for each relation `delta` has rows of. -/
def ExtendedBy (engine : Engine V) (files : FileSystem) (root : Path) (specs : List RelationSpec)
    (lineage extended : LineageChain) (delta : RelationSpec → Table V) : Prop :=
  ∃ node, extended.nodes = lineage.nodes ++ [node] ∧ ∀ spec ∈ specs,
    nodeRows engine files root spec node = .ok (if delta spec = [] then none else some (delta spec))

/-- Both lineages resolve, to the same rows of every relation, and filtering the candidates
against the first one again keeps nothing. -/
def Lossless (engine : Engine V) (files : FileSystem) (root : Path) (specs : List RelationSpec)
    (kept whole : LineageChain) (candidateTables : Dict String (Table V)) : Prop :=
  ∃ keptViews wholeViews, compileVirtualViews engine files root specs kept = .ok keptViews ∧
    compileVirtualViews engine files root specs whole = .ok wholeViews ∧
    (∀ spec ∈ specs, (viewRows keptViews spec).Perm (viewRows wholeViews spec)) ∧
    ∃ again, filterCandidateDelta specs candidateTables keptViews = .ok again ∧ again.isNoop = true

/-! ## The condition -/

abbrev joinCells (spec : RelationSpec) (row : Row V) : List (Option V) :=
  spec.schema.cells spec.joinColumns row

def Rewritten (spec parent : RelationSpec) (candidates active : Table V) (κ : List (Option V)) : Prop :=
  κ.all Option.isSome = true ∧
    ∃ x ∈ candidates, ¬ Redundant parent active x ∧ parent.schema.cells spec.joinColumns x = κ

instance (spec parent : RelationSpec) (candidates active : Table V) :
    DecidablePred (Rewritten spec parent candidates active) := fun _ =>
  inferInstanceAs (Decidable (_ ∧ ∃ x ∈ candidates, _))

structure MaskAgrees (spec parent : RelationSpec) (hasParts : Prop)
    (candidates active parentCandidates parentActive : Table V) : Prop where
  bound : candidates ≠ [] → (hasParts ∨ parentCandidates ≠ []) ∧ JoinColumnsKnown spec parent
  fresh : ∀ c ∈ candidates, ¬ Redundant spec active c →
    Rewritten spec parent parentCandidates parentActive (joinCells spec c)
  redundant : ∀ c ∈ candidates, Redundant spec active c →
    ¬ Rewritten spec parent parentCandidates parentActive (joinCells spec c) ∧
      ∃ a ∈ active, spec.keyCells a = spec.keyCells c ∧
        ¬ Rewritten spec parent parentCandidates parentActive (joinCells spec a)
  masked : ∀ x ∈ parentCandidates, (parent.schema.cells spec.joinColumns x).all Option.isSome = true →
    ¬ Rewritten spec parent parentCandidates parentActive (parent.schema.cells spec.joinColumns x) →
    (candidates.filter fun c => joinCells spec c = parent.schema.cells spec.joinColumns x).Perm
      (active.filter fun a => joinCells spec a = parent.schema.cells spec.joinColumns x)

/-- No candidate that its key makes redundant would have decided an active row. -/
def KeysDecide (files : FileSystem) (root : Path) (nodes : List DAGNodeManifest)
    (specs : List RelationSpec) (views : List (String × Table V))
    (candidateTables : Dict String (Table V)) (spec : RelationSpec) : Prop :=
  match spec.mergeStrategy with
  | .upsert => True
  | .append => ∀ c ∈ tableRows candidateTables spec, ∀ a ∈ viewRows views spec,
      spec.keyCells a = spec.keyCells c → c = a ∨ outranks spec c a = false
  | .scopedMask => ∀ parent ∈ specs, parent.name = spec.parentName →
      MaskAgrees spec parent (HasParts files root nodes parent) (tableRows candidateTables spec)
        (viewRows views spec) (tableRows candidateTables parent) (viewRows views parent)

/-! ## One relation -/

section Relation
variable {choice : Choice} {spec parent : RelationSpec} {rows parentRows : List (Nat × Row V)}
  {n : Nat} {table parents : Table V}

theorem outranks_upsert (h : spec.mergeStrategy = .upsert) (c a : Row V) : outranks spec c a = true := by
  simp [outranks, lineageOrder, h, ordDesc]

theorem redundant_rankedRows_append (hrows : ∀ r ∈ rows, r.1 < n)
    (hnodup : (table.map spec.keyCells).Nodup) {c : Row V} (hc : c ∈ table) :
    Redundant spec (rankedRows choice spec (rows ++ (table.filter fun c =>
      ¬ Redundant spec (rankedRows choice spec rows) c).map (Prod.mk n))) c := by
  have hnodup' : ((table.filter fun c => ¬ Redundant spec (rankedRows choice spec rows) c).map
      spec.keyCells).Nodup := hnodup.sublist (List.filter_sublist.map _)
  by_cases hred : Redundant spec (rankedRows choice spec rows) c
  · obtain ⟨a, ha, hac, hup⟩ := hred
    refine ⟨a, ?_, hac, hup⟩
    obtain ⟨m, hm⟩ := mem_rankedRows.mp ha
    refine mem_rankedRows.mpr ⟨m, ?_⟩
    rw [firstOf_append_of_forall_ne ?_, hm]
    intro r hr he
    obtain ⟨b, hb, rfl⟩ := List.mem_map.mp hr
    obtain ⟨hbt, hbk⟩ := List.mem_filter.mp hb
    obtain rfl : b = c := List.inj_on_of_nodup_map hnodup hbt hc (he.trans hac)
    exact of_decide_eq_true hbk ⟨a, ha, hac, hup⟩
  · have hkept : c ∈ table.filter fun c => ¬ Redundant spec (rankedRows choice spec rows) c :=
      List.mem_filter.mpr ⟨hc, decide_eq_true hred⟩
    by_cases hup : spec.mergeStrategy = .upsert
    · have hwin := @map_firstOf_append _ _ choice spec rows n hrows _ hnodup' c hkept
      simp only [outranks_upsert hup, if_true] at hwin
      have hsome : (firstOf choice (fun r => spec.keyCells r.2) (lineageOrder spec)
          (rows ++ (table.filter fun c => ¬ Redundant spec (rankedRows choice spec rows) c).map
            (Prod.mk n)) (spec.keyCells c)).map Prod.snd = some c := by
        rw [hwin]
        split <;> rfl
      obtain ⟨⟨m, b⟩, hb, rfl⟩ := Option.map_eq_some_iff.mp hsome
      exact ⟨b, mem_rankedRows.mpr ⟨m, hb⟩, rfl, fun _ => rfl⟩
    · have hin : (n, c) ∈ rows ++ (table.filter fun c =>
          ¬ Redundant spec (rankedRows choice spec rows) c).map (Prod.mk n) :=
        List.mem_append_right _ (List.mem_map_of_mem hkept)
      obtain ⟨a, ha, hac⟩ := @exists_mem_rankedRows _ _ choice spec _ _ hin
      exact ⟨a, ha, hac, fun h => absurd h hup⟩

theorem ranked_lossless_iff (hrows : ∀ r ∈ rows, r.1 < n) (hnodup : (table.map spec.keyCells).Nodup)
    (hrank : spec.mergeStrategy ≠ .scopedMask) :
    (rankedRows choice spec (rows ++ (table.filter fun c =>
        ¬ Redundant spec (rankedRows choice spec rows) c).map (Prod.mk n))).Perm
      (rankedRows choice spec (rows ++ table.map (Prod.mk n))) ↔
    (spec.mergeStrategy = .append → ∀ c ∈ table, ∀ a ∈ rankedRows choice spec rows,
      spec.keyCells a = spec.keyCells c → c = a ∨ outranks spec c a = false) := by
  have hkeep : ∀ c ∈ table, decide (¬ Redundant spec (rankedRows choice spec rows) c) = false →
      ∃ a ∈ rankedRows choice spec rows, spec.keyCells a = spec.keyCells c := by
    intro c _ hred
    obtain ⟨a, ha, hac, _⟩ := not_not.mp (of_decide_eq_false hred)
    exact ⟨a, ha, hac⟩
  rw [rankedRows_append_perm_iff hrows hnodup hkeep]
  have hinj := List.inj_on_of_nodup_map (@nodup_keyCells_rankedRows _ _ choice spec rows)
  cases hs : spec.mergeStrategy with
  | scopedMask => exact absurd hs hrank
  | upsert =>
    simp only [reduceCtorEq, false_implies, iff_true]
    intro c _ hred a ha hac
    obtain ⟨b, hb, hbc, hup⟩ := not_not.mp (of_decide_eq_false hred)
    exact Or.inl ((hup hs).symm.trans (hinj hb ha (hbc.trans hac.symm)))
  | append =>
    simp only [true_implies]
    constructor
    · intro h c hc a ha hac
      refine h c hc (decide_eq_false (not_not.mpr ⟨a, ha, hac, ?_⟩)) a ha hac
      rw [hs]
      exact fun h => by cases h
    · intro h c hc _ a ha hac
      exact h c hc a ha hac

theorem rewritten_iff {candidates active : Table V} {κ : List (Option V)} :
    Rewritten spec parent candidates active κ ↔ κ.all Option.isSome = true ∧
      κ ∈ (candidates.filter fun x => ¬ Redundant parent active x).map
        (parent.schema.cells spec.joinColumns) := by
  unfold Rewritten
  refine and_congr_right fun _ => ?_
  simp only [List.mem_map, List.mem_filter, decide_eq_true_eq, and_assoc]

theorem masked_lossless_iff (hrows : ∀ r ∈ rows, r.1 < n) (hparents : ∀ r ∈ parentRows, r.1 < n)
    (hnodup : (table.map spec.keyCells).Nodup) (hmask : spec.mergeStrategy = .scopedMask)
    {parentActive : Table V} (active : Table V) (hactive : active = maskedRows choice spec parent rows parentRows)
    (view : Table V) (hview : view = maskedRows choice spec parent
      (rows ++ (table.filter fun c => ¬ Redundant spec active c).map (Prod.mk n))
      (parentRows ++ (parents.filter fun x => ¬ Redundant parent parentActive x).map (Prod.mk n))) :
    view.Perm (maskedRows choice spec parent (rows ++ table.map (Prod.mk n))
        (parentRows ++ parents.map (Prod.mk n))) ∧ (∀ c ∈ table, Redundant spec view c) ↔
      (∀ c ∈ table, ¬ Redundant spec active c →
        Rewritten spec parent parents parentActive (joinCells spec c)) ∧
      (∀ c ∈ table, Redundant spec active c →
        ¬ Rewritten spec parent parents parentActive (joinCells spec c) ∧
          ∃ a ∈ active, spec.keyCells a = spec.keyCells c ∧
            ¬ Rewritten spec parent parents parentActive (joinCells spec a)) ∧
      ∀ x ∈ parents, (parent.schema.cells spec.joinColumns x).all Option.isSome = true →
        ¬ Rewritten spec parent parents parentActive (parent.schema.cells spec.joinColumns x) →
        (table.filter fun c => joinCells spec c = parent.schema.cells spec.joinColumns x).Perm
          (active.filter fun a => joinCells spec a = parent.schema.cells spec.joinColumns x) := by
  have hinj := List.inj_on_of_nodup_map hnodup
  have hnoUpsert : ∀ {l : Table V} {c a : Row V}, a ∈ l → spec.keyCells a = spec.keyCells c →
      Redundant spec l c := fun ha hac =>
    ⟨_, ha, hac, fun h => by rw [hmask] at h; cases h⟩
  -- what the kept delta shows, row by row
  have hmem : ∀ a, a ∈ view ↔ if Rewritten spec parent parents parentActive (joinCells spec a)
      then a ∈ table ∧ ¬ Redundant spec active a else a ∈ active := by
    intro a
    rw [hview, mem_maskedRows_append hrows hparents, ← hactive]
    by_cases hr : Rewritten spec parent parents parentActive (joinCells spec a)
    · rw [if_pos (rewritten_iff.mp hr), if_pos hr, List.mem_filter, decide_eq_true_eq]
    · rw [if_neg fun h => hr (rewritten_iff.mpr h), if_neg hr]
  -- and both deltas, key by key
  have hkept : ∀ κ, (view.filter fun c => joinCells spec c = κ) =
      if Rewritten spec parent parents parentActive κ then
        (table.filter fun c => ¬ Redundant spec active c).filter fun c => joinCells spec c = κ
      else active.filter fun c => joinCells spec c = κ := by
    intro κ
    rw [hview, filter_maskedRows_append hrows hparents, ← hactive]
    by_cases hr : Rewritten spec parent parents parentActive κ
    · rw [if_pos (rewritten_iff.mp hr), if_pos hr]
    · rw [if_neg fun h => hr (rewritten_iff.mpr h), if_neg hr]
  have hwhole : ∀ κ, ((maskedRows choice spec parent (rows ++ table.map (Prod.mk n))
      (parentRows ++ parents.map (Prod.mk n))).filter fun c => joinCells spec c = κ) =
      if κ.all Option.isSome = true ∧ κ ∈ parents.map (parent.schema.cells spec.joinColumns) then
        table.filter fun c => joinCells spec c = κ
      else active.filter fun c => joinCells spec c = κ := by
    intro κ
    rw [hactive]
    exact filter_maskedRows_append hrows hparents
  have hwritten : ∀ {κ}, Rewritten spec parent parents parentActive κ →
      κ.all Option.isSome = true ∧ κ ∈ parents.map (parent.schema.cells spec.joinColumns) := by
    rintro κ ⟨hall, x, hx, _, he⟩
    exact ⟨hall, List.mem_map.mpr ⟨x, hx, he⟩⟩
  rw [perm_iff_filter_perm (joinCells spec)]
  constructor
  · rintro ⟨hperm, hagain⟩
    refine ⟨?_, ?_, ?_⟩
    · intro c hc hfresh
      obtain ⟨a, ha, hac, _⟩ := hagain c hc
      by_cases hr : Rewritten spec parent parents parentActive (joinCells spec a)
      · rw [hmem, if_pos hr] at ha
        rwa [hinj ha.1 hc hac] at hr
      · rw [hmem, if_neg hr] at ha
        exact absurd (hnoUpsert ha hac) hfresh
    · intro c hc hred
      refine ⟨fun hr => ?_, ?_⟩
      · have hκ := hperm (joinCells spec c)
        rw [hkept, hwhole, if_pos hr, if_pos (hwritten hr)] at hκ
        have hin : c ∈ table.filter fun b => joinCells spec b = joinCells spec c :=
          List.mem_filter.mpr ⟨hc, decide_eq_true rfl⟩
        have hck := (List.mem_filter.mp (List.mem_filter.mp (hκ.mem_iff.mpr hin)).1).2
        exact of_decide_eq_true hck hred
      · obtain ⟨a, ha, hac, _⟩ := hagain c hc
        by_cases hr : Rewritten spec parent parents parentActive (joinCells spec a)
        · rw [hmem, if_pos hr] at ha
          rw [hinj ha.1 hc hac] at ha
          exact absurd hred ha.2
        · rw [hmem, if_neg hr] at ha
          exact ⟨a, ha, hac, hr⟩
    · intro x hx hall hr
      have hκ := hperm (parent.schema.cells spec.joinColumns x)
      rw [hkept, hwhole, if_neg hr, if_pos ⟨hall, List.mem_map_of_mem hx⟩] at hκ
      exact hκ.symm
  · rintro ⟨hfresh, hred, hmasked⟩
    refine ⟨fun κ => ?_, fun c hc => ?_⟩
    · rw [hkept, hwhole]
      by_cases hr : Rewritten spec parent parents parentActive κ
      · rw [if_pos hr, if_pos (hwritten hr), List.filter_comm]
        refine filter_perm_iff.mpr fun c hc => ?_
        obtain ⟨hct, hk⟩ := List.mem_filter.mp hc
        refine decide_eq_true fun hcr => (hred c hct hcr).1 ?_
        rwa [of_decide_eq_true hk]
      · rw [if_neg hr]
        split
        · rename_i hw
          obtain ⟨x, hx, rfl⟩ := List.mem_map.mp hw.2
          exact (hmasked x hx hw.1 hr).symm
        · exact List.Perm.refl _
    · by_cases hcr : Redundant spec active c
      · obtain ⟨_, a, ha, hac, hr⟩ := hred c hc hcr
        have hav : a ∈ view := by rwa [hmem, if_neg hr]
        exact hnoUpsert hav hac
      · have hr := hfresh c hc hcr
        have hcv : c ∈ view := by
          rw [hmem, if_pos hr]
          exact ⟨hc, hcr⟩
        exact hnoUpsert hcv rfl

end Relation

/-! ## One more node under every relation -/

section Lineage
variable {choice : Choice} {specs ordered : List RelationSpec}
  {sources : RelationSpec → List (Option (Table V))} {delta : RelationSpec → Table V} {n : Nat}

def rawOf (sources : RelationSpec → List (Option (Table V))) (s : RelationSpec) : RawView V :=
  ⟨s, sources s⟩

def extendSources (sources : RelationSpec → List (Option (Table V)))
    (delta : RelationSpec → Table V) (s : RelationSpec) : List (Option (Table V)) :=
  sources s ++ [if delta s = [] then none else some (delta s)]

omit [LinearOrder V] in
theorem rows_extendSources (s : RelationSpec) (hn : (sources s).length = n) :
    (rawOf (extendSources sources delta) s).rows =
      (rawOf sources s).rows ++ (delta s).map (Prod.mk n) := by
  unfold rawOf extendSources
  rw [RawView.rows_append, hn]
  by_cases hd : delta s = []
  · simp [hd]
  · simp [hd]

omit [LinearOrder V] in
theorem hasSubqueries_extendSources (s : RelationSpec) :
    (rawOf (extendSources sources delta) s).hasSubqueries = true ↔
      (rawOf sources s).hasSubqueries = true ∨ delta s ≠ [] := by
  unfold rawOf extendSources RawView.hasSubqueries
  rw [List.any_append, Bool.or_eq_true]
  by_cases hd : delta s = []
  · simp [hd]
  · simp [hd]

structure FilterState (choice : Choice) (specs ordered : List RelationSpec)
    (sources : RelationSpec → List (Option (Table V))) (n : Nat)
    (active candidates kept : RelationSpec → Table V) : Prop where
  accepted : SpecsAccepted specs
  ordered_perm : ordered.Perm specs
  length_sources : ∀ s ∈ specs, (sources s).length = n
  fits : ∀ s ∈ specs, ∀ r ∈ (rawOf sources s).rows, r.2.length = s.schema.names.length
  active_eq : ∀ s ∈ specs,
    activeView choice (ordered.map (rawOf sources)) (rawOf sources s) = .ok (active s)
  wellKeyed : ∀ s ∈ specs, WellKeyed s (candidates s)
  kept_eq : ∀ s ∈ specs, kept s = (candidates s).filter fun c => ¬ Redundant s (active s) c

namespace FilterState

variable {active candidates kept : RelationSpec → Table V}

theorem find_parent (st : FilterState choice specs ordered sources n active candidates kept)
    (src : RelationSpec → List (Option (Table V))) {s p : RelationSpec} (hp : p ∈ specs)
    (he : p.name = s.parentName) :
    (ordered.map (rawOf src)).find? (fun v => v.spec.name = s.parentName) = some (rawOf src p) := by
  have hnames : (ordered.map (·.name)).Nodup :=
    (st.ordered_perm.map _).nodup_iff.mpr st.accepted.names
  exact find?_map_raw hnames (fun _ => rfl) (st.ordered_perm.mem_iff.mpr hp) he

theorem lt_length (st : FilterState choice specs ordered sources n active candidates kept)
    {s : RelationSpec} (hs : s ∈ specs) : ∀ r ∈ (rawOf sources s).rows, r.1 < n := by
  intro r hr
  have hlt := RawView.lt_length_of_mem_rows hr
  rwa [rawOf, st.length_sources s hs] at hlt

theorem fits_append (st : FilterState choice specs ordered sources n active candidates kept)
    {s : RelationSpec} (hs : s ∈ specs) {table : Table V} (ht : ∀ c ∈ table, c ∈ candidates s) :
    ∀ r ∈ (rawOf sources s).rows ++ table.map (Prod.mk n), r.2.length = s.schema.names.length := by
  intro r hr
  rcases List.mem_append.mp hr with hr | hr
  · exact st.fits s hs r hr
  · obtain ⟨c, hc, rfl⟩ := List.mem_map.mp hr
    exact (st.wellKeyed s hs).fits c (ht c hc)

theorem mem_candidates_of_kept (st : FilterState choice specs ordered sources n active candidates kept)
    {s : RelationSpec} (hs : s ∈ specs) : ∀ c ∈ kept s, c ∈ candidates s := by
  intro c hc
  rw [st.kept_eq s hs] at hc
  exact (List.mem_filter.mp hc).1

/-- The two views of a relation, and the second filtering of its candidates. -/
def Agrees (choice : Choice) (ordered : List RelationSpec)
    (sources : RelationSpec → List (Option (Table V))) (candidates kept : RelationSpec → Table V)
    (s : RelationSpec) : Prop :=
  ∃ view, activeView choice (ordered.map (rawOf (extendSources sources kept)))
      (rawOf (extendSources sources kept) s) = .ok view ∧
    ∃ whole, activeView choice (ordered.map (rawOf (extendSources sources candidates)))
      (rawOf (extendSources sources candidates) s) = .ok whole ∧
    view.Perm whole ∧ filterQuery s (candidates s) view = []

theorem agrees_ranked_iff (st : FilterState choice specs ordered sources n active candidates kept)
    {s : RelationSpec} (hs : s ∈ specs) (hrank : s.mergeStrategy ≠ .scopedMask) :
    Agrees choice ordered sources candidates kept s ↔
      (s.mergeStrategy = .append → ∀ c ∈ candidates s, ∀ a ∈ active s,
        s.keyCells a = s.keyCells c → c = a ∨ outranks s c a = false) := by
  have hactive : active s = rankedRows choice s (rawOf sources s).rows := by
    have hview := @activeView_ranked _ _ choice (ordered.map (rawOf sources)) (rawOf sources s) hrank
    rw [st.active_eq s hs] at hview
    exact Except.ok.inj hview
  have hview : ∀ delta : RelationSpec → Table V,
      activeView choice (ordered.map (rawOf (extendSources sources delta)))
        (rawOf (extendSources sources delta) s) =
      .ok (rankedRows choice s ((rawOf sources s).rows ++ (delta s).map (Prod.mk n))) := by
    intro delta
    rw [← rows_extendSources s (st.length_sources s hs)]
    exact activeView_ranked hrank
  have hnodup := (st.wellKeyed s hs).distinct
  have hperm := @ranked_lossless_iff _ _ choice s (rawOf sources s).rows n (candidates s)
    (st.lt_length hs) hnodup hrank
  rw [← hactive, ← st.kept_eq s hs] at hperm
  have hagain : filterQuery s (candidates s)
      (rankedRows choice s ((rawOf sources s).rows ++ (kept s).map (Prod.mk n))) = [] := by
    refine (filterQuery_eq_nil_iff (st.wellKeyed s hs) ?_ ?_).mpr fun c hc => ?_
    · exact fits_rankedRows (st.fits_append hs (st.mem_candidates_of_kept hs))
    · exact fun _ => nodup_keyCells_rankedRows
    · rw [st.kept_eq s hs, hactive]
      exact redundant_rankedRows_append (st.lt_length hs) hnodup hc
  unfold Agrees
  rw [← hperm, hview, hview]
  constructor
  · rintro ⟨view, hv, whole, hw, hp, _⟩
    rwa [Except.ok.inj hv, Except.ok.inj hw]
  · intro hp
    exact ⟨_, rfl, _, rfl, hp, hagain⟩

theorem agrees_masked_iff (st : FilterState choice specs ordered sources n active candidates kept)
    {s p : RelationSpec} (hs : s ∈ specs) (hp : p ∈ specs) (hmask : s.mergeStrategy = .scopedMask)
    (hparent : p.name = s.parentName) :
    Agrees choice ordered sources candidates kept s ↔
      MaskAgrees s p ((rawOf sources p).hasSubqueries = true) (candidates s) (active s)
        (candidates p) (active p) := by
  obtain ⟨hbound, hactive⟩ := (activeView_masked_iff hmask (st.find_parent sources hp hparent)).mp
    (st.active_eq s hs)
  have hview : ∀ (delta : RelationSpec → Table V) (rows : Table V),
      activeView choice (ordered.map (rawOf (extendSources sources delta)))
        (rawOf (extendSources sources delta) s) = .ok rows ↔
      (((rawOf sources s).hasSubqueries = true ∨ delta s ≠ []) →
        ((rawOf sources p).hasSubqueries = true ∨ delta p ≠ []) ∧ JoinColumnsKnown s p) ∧
      rows = maskedRows choice s p ((rawOf sources s).rows ++ (delta s).map (Prod.mk n))
        ((rawOf sources p).rows ++ (delta p).map (Prod.mk n)) := by
    intro delta rows
    rw [← rows_extendSources s (st.length_sources s hs),
      ← rows_extendSources p (st.length_sources p hp), ← hasSubqueries_extendSources,
      ← hasSubqueries_extendSources]
    exact activeView_masked_iff hmask (st.find_parent _ hp hparent)
  -- a parent without parts has no active rows, so all its candidates are kept
  have hkeptParent : (rawOf sources p).hasSubqueries = false → kept p = candidates p := by
    intro hno
    have hnil : active p = [] := by
      have hview := @activeView_of_not_hasSubqueries _ _ choice (ordered.map (rawOf sources)) _ hno
      rw [st.active_eq p hp] at hview
      exact Except.ok.inj hview
    rw [st.kept_eq p hp, hnil]
    refine List.filter_eq_self.mpr fun c _ => decide_eq_true ?_
    rintro ⟨a, ha, _⟩
    cases ha
  have hloss := @masked_lossless_iff _ _ choice s p (rawOf sources s).rows (rawOf sources p).rows n
    (candidates s) (candidates p) (st.lt_length hs) (st.lt_length hp) (st.wellKeyed s hs).distinct hmask
    (active p) (active s) hactive
    (maskedRows choice s p ((rawOf sources s).rows ++ (kept s).map (Prod.mk n))
      ((rawOf sources p).rows ++ (kept p).map (Prod.mk n)))
    (by rw [st.kept_eq s hs, st.kept_eq p hp])
  have hagain : filterQuery s (candidates s)
      (maskedRows choice s p ((rawOf sources s).rows ++ (kept s).map (Prod.mk n))
        ((rawOf sources p).rows ++ (kept p).map (Prod.mk n))) = [] ↔
      ∀ c ∈ candidates s, Redundant s (maskedRows choice s p ((rawOf sources s).rows ++
        (kept s).map (Prod.mk n)) ((rawOf sources p).rows ++ (kept p).map (Prod.mk n))) c := by
    refine filterQuery_eq_nil_iff (st.wellKeyed s hs) ?_ ?_
    · exact fits_maskedRows (st.fits_append hs (st.mem_candidates_of_kept hs))
    · intro hup
      rw [hmask] at hup
      cases hup
  unfold Agrees
  constructor
  · rintro ⟨view, hv, whole, hw, hpm, hno⟩
    obtain ⟨_, rfl⟩ := (hview kept view).mp hv
    obtain ⟨hboundW, rfl⟩ := (hview candidates whole).mp hw
    obtain ⟨hfresh, hred, hmasked⟩ := hloss.mp ⟨hpm, hagain.mp hno⟩
    exact ⟨fun hne => hboundW (Or.inr hne), hfresh, hred, hmasked⟩
  · intro h
    obtain ⟨hpm, hno⟩ := hloss.mpr ⟨h.fresh, h.redundant, h.masked⟩
    refine ⟨_, (hview kept _).mpr ⟨?_, rfl⟩, _, (hview candidates _).mpr ⟨?_, rfl⟩, hpm, hagain.mpr hno⟩
    · rintro (hsub | hne)
      · exact (hbound hsub).imp_left Or.inl
      · have hcand : candidates s ≠ [] := by
          obtain ⟨c, hc⟩ := List.exists_mem_of_ne_nil _ hne
          exact List.ne_nil_of_mem (st.mem_candidates_of_kept hs c hc)
        obtain ⟨hparts, hcols⟩ := h.bound hcand
        refine ⟨?_, hcols⟩
        cases hsub : (rawOf sources p).hasSubqueries with
        | true => exact Or.inl rfl
        | false =>
          rw [hsub] at hparts
          rw [hkeptParent hsub]
          exact Or.inr (hparts.resolve_left (by simp))
    · rintro (hsub | hne)
      · exact (hbound hsub).imp_left Or.inl
      · exact h.bound hne

end FilterState

end Lineage

/-! ## The filter on a lineage -/

section Filter
variable {engine : Engine V} {files : FileSystem} {root : Path} {specs : List RelationSpec}
  {lineage kept whole : LineageChain} {candidateTables : Dict String (Table V)}
  {views : List (String × Table V)} {delta : FilteredDelta V}

theorem compileVirtualViews_extended {ordered : List RelationSpec}
    {sources : RelationSpec → List (Option (Table V))} {extended : LineageChain}
    {rows : RelationSpec → Table V} (ho : orderedSpecs specs.length [] specs = .ok ordered)
    (hn : checkViewNames ordered = .ok ())
    (hread : ∀ s ∈ specs, lineage.nodes.mapM (nodeRows engine files root s) = .ok (sources s))
    (hext : ExtendedBy engine files root specs lineage extended rows) :
    compileVirtualViews engine files root specs extended =
      mergeViews engine.toChoice (ordered.map (rawOf (extendSources sources rows))) := by
  obtain ⟨node, hnodes, hnode⟩ := hext
  refine compileVirtualViews_eq ho hn fun s hs => ?_
  rw [hnodes]
  refine mapM_append_eq_ok (hread s hs) ?_
  rw [List.mapM_cons, hnode s hs]
  rfl

theorem viewRows_of_mergeViews {ordered : List RelationSpec} (hnames : (ordered.map (·.name)).Nodup)
    {sources : RelationSpec → List (Option (Table V))} {choice : Choice}
    (h : mergeViews choice (ordered.map (rawOf sources)) = .ok views) {s : RelationSpec}
    (hs : s ∈ ordered) : (views.lookup s.name).isSome = true ∧
      activeView choice (ordered.map (rawOf sources)) (rawOf sources s) = .ok (viewRows views s) := by
  have hnames' : ((ordered.map (rawOf sources)).map (·.spec.name)).Nodup := by
    simpa [List.map_map, Function.comp_def, rawOf] using hnames
  obtain ⟨rows, hrows, hlookup⟩ := lookup_of_mergeViews hnames' h (List.mem_map_of_mem hs)
  have hlookup' : views.lookup s.name = some rows := hlookup
  rw [viewRows, hlookup', hrows]
  exact ⟨rfl, rfl⟩

theorem filterState_of_compile {ordered : List RelationSpec}
    {sources : RelationSpec → List (Option (Table V))}
    (ho : orderedSpecs specs.length [] specs = .ok ordered) (hn : checkViewNames ordered = .ok ())
    (hread : ∀ s ∈ specs, lineage.nodes.mapM (nodeRows engine files root s) = .ok (sources s))
    (hmerge : mergeViews engine.toChoice (ordered.map (rawOf sources)) = .ok views)
    (hkeyed : ∀ spec ∈ specs, WellKeyed spec (tableRows candidateTables spec))
    (hdelta : filterCandidateDelta specs candidateTables views = .ok delta) :
    FilterState engine.toChoice specs ordered sources lineage.nodes.length (viewRows views)
      (tableRows candidateTables) delta.rows := by
  have hperm := orderedSpecs_perm ho
  have haccepted := SpecsAccepted.of_ordered ho hn
  have hnames : (ordered.map (·.name)).Nodup := (hperm.map _).nodup_iff.mpr haccepted.names
  have hview := fun s hs => viewRows_of_mergeViews hnames hmerge (hperm.mem_iff.mpr hs : s ∈ ordered)
  have hfits : ∀ s ∈ specs, ∀ r ∈ (rawOf sources s).rows, r.2.length = s.schema.names.length :=
    fun s hs r hr => fits_rows (hread s hs) hr
  obtain ⟨delta', hdelta', hrows, _⟩ := @filterCandidateDelta_spec _ _ candidateTables views specs
    (fun s hs => (hview s hs).1) haccepted.names
  obtain rfl : delta' = delta := Except.ok.inj (hdelta'.symm.trans hdelta)
  refine ⟨haccepted, hperm, ?_, hfits, fun s hs => (hview s hs).2, hkeyed, ?_⟩
  · intro s hs
    have hlen := map_mapM (hread s hs) (p := fun _ => ()) (q := fun _ => ()) fun _ _ _ _ => rfl
    simpa using congrArg List.length hlen
  · intro s hs
    rw [hrows s hs, keptRows]
    by_cases hmask : s.mergeStrategy = .scopedMask
    · obtain ⟨p, hp, he⟩ := haccepted.parents s hs hmask
      have hfind := @find?_map_raw _ _ hnames (rawOf sources) (fun _ => rfl) p (hperm.mem_iff.mpr hp) _ he
      obtain ⟨_, hactive⟩ := (activeView_masked_iff hmask hfind).mp (hview s hs).2
      refine filterQuery_eq (hkeyed s hs) ?_ fun hup => ?_
      · rw [hactive]
        exact fits_maskedRows (hfits s hs)
      · rw [hmask] at hup
        cases hup
    · have hactive := @activeView_ranked _ _ engine.toChoice (ordered.map (rawOf sources))
        (rawOf sources s) hmask
      rw [(hview s hs).2] at hactive
      refine filterQuery_eq (hkeyed s hs) ?_ fun _ => ?_
      · rw [Except.ok.inj hactive]
        exact fits_rankedRows (hfits s hs)
      · rw [Except.ok.inj hactive]
        exact nodup_keyCells_rankedRows

theorem lossless_iff_agrees {ordered : List RelationSpec}
    {sources : RelationSpec → List (Option (Table V))}
    (ho : orderedSpecs specs.length [] specs = .ok ordered) (hn : checkViewNames ordered = .ok ())
    (hread : ∀ s ∈ specs, lineage.nodes.mapM (nodeRows engine files root s) = .ok (sources s))
    (hkept : ExtendedBy engine files root specs lineage kept delta.rows)
    (hwhole : ExtendedBy engine files root specs lineage whole (tableRows candidateTables)) :
    Lossless engine files root specs kept whole candidateTables ↔ ∀ s ∈ specs,
      FilterState.Agrees engine.toChoice ordered sources (tableRows candidateTables) delta.rows s := by
  have hperm := orderedSpecs_perm ho
  have haccepted := SpecsAccepted.of_ordered ho hn
  have hnames : (ordered.map (·.name)).Nodup := (hperm.map _).nodup_iff.mpr haccepted.names
  have hagain : ∀ keptViews : List (String × Table V),
      (∀ s ∈ specs, (keptViews.lookup s.name).isSome = true) →
      ((∃ again, filterCandidateDelta specs candidateTables keptViews = .ok again ∧
        again.isNoop = true) ↔
        ∀ s ∈ specs, filterQuery s (tableRows candidateTables s) (viewRows keptViews s) = []) := by
    intro keptViews hlook
    obtain ⟨again, hok, _, hnoop⟩ := @filterCandidateDelta_spec _ _ candidateTables keptViews specs
      hlook haccepted.names
    constructor
    · rintro ⟨again', hok', hno⟩
      obtain rfl : again = again' := Except.ok.inj (hok.symm.trans hok')
      exact hnoop.mp hno
    · intro hall
      exact ⟨again, hok, hnoop.mpr hall⟩
  unfold Lossless
  rw [compileVirtualViews_extended ho hn hread hkept, compileVirtualViews_extended ho hn hread hwhole]
  constructor
  · rintro ⟨keptViews, wholeViews, hk, hw, hp, hno⟩ s hs
    have hview := fun s hs => viewRows_of_mergeViews hnames hk (hperm.mem_iff.mpr hs : s ∈ ordered)
    have hno' := (hagain keptViews fun s hs => (hview s hs).1).mp hno
    exact ⟨_, (hview s hs).2, _, (viewRows_of_mergeViews hnames hw (hperm.mem_iff.mpr hs)).2, hp s hs,
      hno' s hs⟩
  · intro h
    have hspec : ∀ (src : RelationSpec → List (Option (Table V))) s, (rawOf src s).spec = s :=
      fun _ _ => rfl
    obtain ⟨keptViews, hk, hP⟩ := (exists_mergeViews_iff hnames (hspec _)).mpr
      fun s hs => h s (hperm.mem_iff.mp hs)
    have hall : ∀ s ∈ ordered, ∃ rows, activeView engine.toChoice
        (ordered.map (rawOf (extendSources sources (tableRows candidateTables))))
        (rawOf (extendSources sources (tableRows candidateTables)) s) = .ok rows ∧ True := by
      intro s hs
      obtain ⟨_, _, whole, hwhole, _⟩ := h s (hperm.mem_iff.mp hs)
      exact ⟨whole, hwhole, trivial⟩
    obtain ⟨wholeViews, hw, _⟩ := (exists_mergeViews_iff hnames (hspec _)).mpr hall
    have hview := fun s hs => viewRows_of_mergeViews hnames hk (hperm.mem_iff.mpr hs : s ∈ ordered)
    refine ⟨keptViews, wholeViews, hk, hw, fun s hs => ?_, (hagain keptViews fun s hs => (hview s hs).1).mpr
      fun s hs => ?_⟩
    · obtain ⟨rows, hrows, hpm, _⟩ := hP s (hperm.mem_iff.mpr hs)
      have hwv := (viewRows_of_mergeViews hnames hw (hperm.mem_iff.mpr hs : s ∈ ordered)).2
      rwa [Except.ok.inj (hwv.symm.trans hrows)]
    · obtain ⟨_, _, _, hnil⟩ := hP s (hperm.mem_iff.mpr hs)
      exact hnil

end Filter

/-! ## An append relation with a tie breaker -/

def eventsSpec : RelationSpec where
  name := "events"
  schema := ⟨["id", "seq"], by decide⟩
  primaryKey := ["id"]
  mergeStrategy := .append
  sortOrder := ["id"]
  tieBreakerColumn := some "seq"
  valid := by decide +kernel

def eventPart (seq : Nat) : Parquet Nat :=
  ⟨eventsSpec.schema, [[some 1, some seq]], by simp [Schema.Fits, eventsSpec]⟩

def eventNode (id : String) (parts : List PartDescriptor) : DAGNodeManifest where
  snapshotId := id
  kind := .delta
  parents := []
  checkpointAnchorId := id
  lineageDepth := 0
  createdAt := ""
  relations := if parts = [] then .empty else Dict.empty.set "events" parts
  logicalFingerprint := ""

def eventDescriptor : PartDescriptor := ⟨"p", "", 1, 1, none, none⟩

/-- The active row of event 1 has the tie breaker 2; the candidate has `seq`. -/
def eventFiles (seq : Nat) : FileSystem where
  entries := ⟨[(["r"], .dir), (["r", "a"], .dir),
    (["r", "a", "p"], .file (plainEngine.encode (eventPart 2))), (["r", "w"], .dir),
    (["r", "w", "p"], .file (plainEngine.encode (eventPart seq)))], by simp⟩
  parents := by
    intro p hp
    have hcases : p = ["r"] ∨ p = ["r", "a"] ∨ p = ["r", "a", "p"] ∨ p = ["r", "w"] ∨
        p = ["r", "w", "p"] := by
      simpa [Dict.keys] using hp
    rcases hcases with rfl | rfl | rfl | rfl | rfl
    · exact ⟨by decide, Or.inl rfl⟩
    · exact ⟨by decide, Or.inr rfl⟩
    · exact ⟨by decide, Or.inr rfl⟩
    · exact ⟨by decide, Or.inr rfl⟩
    · exact ⟨by decide, Or.inr rfl⟩

def eventLineage : LineageChain := ⟨"a", "a", [eventNode "a" [eventDescriptor]]⟩

def eventKept : LineageChain := ⟨"k", "a", [eventNode "a" [eventDescriptor], eventNode "k" []]⟩

def eventWhole : LineageChain :=
  ⟨"w", "a", [eventNode "a" [eventDescriptor], eventNode "w" [eventDescriptor]]⟩

def eventCandidates (seq : Nat) : Dict String (Table Nat) :=
  Dict.empty.set "events" [[some 1, some seq]]

theorem nodeRows_eventNode (seq : Nat) :
    nodeRows plainEngine (eventFiles seq) ["r"] eventsSpec (eventNode "a" [eventDescriptor]) =
      .ok (some [[some 1, some 2]]) ∧
    nodeRows plainEngine (eventFiles seq) ["r"] eventsSpec (eventNode "w" [eventDescriptor]) =
      .ok (some [[some 1, some seq]]) ∧
    nodeRows plainEngine (eventFiles seq) ["r"] eventsSpec (eventNode "k" []) = .ok none := by
  refine ⟨?_, ?_, rfl⟩
  · exact @nodeRows_of_written _ plainEngine _ _ _ _ [eventPart 2] (by simp [eventPart]) (by simp) rfl
  · exact @nodeRows_of_written _ plainEngine _ _ _ _ [eventPart seq] (by simp [eventPart]) (by simp) rfl

theorem compile_events (seq : Nat) {lineage : LineageChain} {sources : List (Option (Table Nat))}
    (hread : lineage.nodes.mapM (nodeRows plainEngine (eventFiles seq) ["r"] eventsSpec) = .ok sources) :
    compileVirtualViews plainEngine (eventFiles seq) ["r"] [eventsSpec] lineage =
      mergeViews .first [⟨eventsSpec, sources⟩] := by
  refine @compileVirtualViews_eq _ plainEngine _ _ _ _ _ [eventsSpec] rfl rfl (fun _ => sources) ?_
  intro s hs
  obtain rfl := List.mem_singleton.mp hs
  exact hread

theorem mapM_eventNodes (seq : Nat) :
    eventLineage.nodes.mapM (nodeRows plainEngine (eventFiles seq) ["r"] eventsSpec) =
      .ok [some [[some 1, some 2]]] ∧
    eventKept.nodes.mapM (nodeRows plainEngine (eventFiles seq) ["r"] eventsSpec) =
      .ok [some [[some 1, some 2]], none] ∧
    eventWhole.nodes.mapM (nodeRows plainEngine (eventFiles seq) ["r"] eventsSpec) =
      .ok [some [[some 1, some 2]], some [[some 1, some seq]]] := by
  obtain ⟨ha, hw, hk⟩ := nodeRows_eventNode seq
  refine ⟨?_, ?_, ?_⟩
  · simp only [eventLineage, List.mapM_cons, ha]
    rfl
  · simp only [eventKept, List.mapM_cons, ha, hk]
    rfl
  · simp only [eventWhole, List.mapM_cons, ha, hw]
    rfl

theorem wellKeyed_eventCandidates (seq : Nat) :
    ∀ spec ∈ [eventsSpec], WellKeyed spec (tableRows (eventCandidates seq) spec) := by
  intro spec hspec
  obtain rfl := List.mem_singleton.mp hspec
  have hrows : tableRows (eventCandidates seq) eventsSpec = [[some 1, some seq]] := rfl
  rw [hrows]
  refine ⟨by simp [Schema.Fits, eventsSpec], ?_, by simp⟩
  intro c hc cell hcell
  obtain rfl := List.mem_singleton.mp hc
  have hkey : eventsSpec.keyCells [some 1, some seq] = [some 1] := rfl
  rw [hkey] at hcell
  obtain rfl := List.mem_singleton.mp hcell
  rfl

theorem extendedBy_events (seq : Nat) :
    ExtendedBy plainEngine (eventFiles seq) ["r"] [eventsSpec] eventLineage eventKept
      (FilteredDelta.rows ⟨true, .empty, .empty⟩) ∧
    ExtendedBy plainEngine (eventFiles seq) ["r"] [eventsSpec] eventLineage eventWhole
      (tableRows (eventCandidates seq)) := by
  obtain ⟨_, hw, hk⟩ := nodeRows_eventNode seq
  constructor
  · refine ⟨eventNode "k" [], rfl, fun spec hspec => ?_⟩
    obtain rfl := List.mem_singleton.mp hspec
    exact hk
  · refine ⟨eventNode "w" [eventDescriptor], rfl, fun spec hspec => ?_⟩
    obtain rfl := List.mem_singleton.mp hspec
    exact hw

end EdgarSec.Dag
