import EdgarSec.Inventory.RefreshDelta

/-! The enumeration rows of a branch over its publications: when they keep up with the
accessions they belong to. -/

namespace EdgarSec.Inventory
open Foundation Lib Dag

variable {choice : Choice} {isDate : String → Bool} {lineage : Lineage} {node : SnapshotNode}
  {input : RunInput} {merge : MergeRelations}

/-! ## One more node -/

theorem mem_rankedRows_concat {r : InventoryRelation} (hupsert : r.spec.mergeStrategy = .upsert)
    (hnodup : ((node.table r).map r.spec.keyCells).Nodup) {row : Row Cell} :
    row ∈ rankedRows choice r.spec (Lineage.raw (lineage ++ [node]) r).rows ↔
      row ∈ node.table r ∨ (row ∈ rankedRows choice r.spec (lineage.raw r).rows ∧
        ∀ c ∈ node.table r, r.spec.keyCells c ≠ r.spec.keyCells row) := by
  have hrows : ∀ x ∈ (lineage.raw r).rows, x.1 < lineage.length := fun _ => Lineage.lt_length
  rw [mem_rankedRows, mem_rankedRows, Lineage.rows_concat]
  by_cases hkey : ∃ c ∈ node.table r, r.spec.keyCells c = r.spec.keyCells row
  · obtain ⟨c, hc, hck⟩ := hkey
    have houtranks : ∀ a : Row Cell, outranks r.spec c a = true := by
      intro a
      simp [outranks, lineageOrder, hupsert, ordDesc]
    have hfirst : (firstOf choice (fun x => r.spec.keyCells x.2) (lineageOrder r.spec)
        ((lineage.raw r).rows ++ (node.table r).map (Prod.mk lineage.length))
        (r.spec.keyCells row)).map Prod.snd = some c := by
      have happend := @map_firstOf_append _ _ choice r.spec _ _ hrows _ hnodup c hc
      rw [hck] at happend
      rw [happend]
      split
      · rfl
      · rw [houtranks, if_pos rfl]
    constructor
    · intro hmem
      obtain ⟨m, hm⟩ := hmem
      rw [hm] at hfirst
      obtain rfl : row = c := Option.some.inj hfirst
      exact Or.inl hc
    · rintro (hrow | ⟨_, hother⟩)
      · obtain rfl : row = c := List.inj_on_of_nodup_map hnodup hrow hc hck.symm
        obtain ⟨⟨m, a⟩, hm, hma⟩ := Option.map_eq_some_iff.mp hfirst
        obtain rfl : a = row := hma
        exact ⟨m, hm⟩
      · exact absurd hck (hother c hc)
  · have hother : ∀ c ∈ node.table r, r.spec.keyCells c ≠ r.spec.keyCells row :=
      fun c hc hck => hkey ⟨c, hc, hck⟩
    rw [firstOf_append_of_forall_ne]
    · constructor
      · exact fun hold => Or.inr ⟨hold, hother⟩
      · rintro (hrow | ⟨hold, _⟩)
        · exact absurd rfl (hother row hrow)
        · exact hold
    · intro x hx
      obtain ⟨c, hc, rfl⟩ := List.mem_map.mp hx
      exact hother c hc

/-! ## What a publication adds -/

theorem flatten_relationPart (rows : Table Cell) : (relationPart rows).flatten = rows := by
  unfold relationPart
  split_ifs with hnone
  · rw [hnone, List.flatten_nil]
  · rw [List.flatten_singleton]

theorem mem_table_accessions {d : Row Cell} :
    d ∈ (publishedNode choice merge).table .accessions ↔ d ∈ merge.deltaAccessions := by
  have htable : (publishedNode choice merge).table .accessions =
      sortedBy choice snapshotAccessionsSchema ["form", "filing_date", "accession"]
        merge.deltaAccessions := flatten_relationPart _
  rw [htable]
  exact (choice.sort_perm _ _).mem_iff

theorem mem_table_enumeration {e : Row Cell} :
    e ∈ (publishedNode choice merge).table .accessionEnumeration ↔ e ∈ merge.deltaEnumeration := by
  have htable : (publishedNode choice merge).table .accessionEnumeration =
      sortedBy choice snapshotEnumerationSchema ["accession"] merge.deltaEnumeration :=
    flatten_relationPart _
  rw [htable]
  exact (choice.sort_perm _ _).mem_iff

structure PublishedAs (choice : Choice) (isDate : String → Bool) (lineage : Lineage) (input : RunInput)
    (node : SnapshotNode) (merge : MergeRelations) : Prop where
  merged : mergeRelations lineage input = .ok merge
  node_eq : node = publishedNode choice merge
  valid : validateSnapshot choice isDate lineage node = .ok ()

theorem exists_publishedAs
    (h : publishCommittedChunks choice isDate lineage input = .ok (.published node)) :
    ∃ merge, PublishedAs choice isDate lineage input node merge := by
  unfold publishCommittedChunks at h
  obtain ⟨_, _, h⟩ := bind_eq_ok.mp h
  obtain ⟨_, _, h⟩ := bind_eq_ok.mp h
  obtain ⟨_, _, h⟩ := bind_eq_ok.mp h
  obtain ⟨merge, hmerge, h⟩ := bind_eq_ok.mp h
  split at h
  · cases h
  · obtain ⟨_, hvalid, h⟩ := bind_eq_ok.mp h
    obtain rfl := SnapshotPublication.published.inj (Except.ok.inj h)
    exact ⟨merge, hmerge, rfl, hvalid⟩

theorem deltaAccessions_of_noOp (h : publishCommittedChunks choice isDate lineage input = .ok .noOp) :
    ∃ merge, mergeRelations lineage input = .ok merge ∧ merge.deltaAccessions = [] := by
  unfold publishCommittedChunks at h
  obtain ⟨_, _, h⟩ := bind_eq_ok.mp h
  obtain ⟨_, _, h⟩ := bind_eq_ok.mp h
  obtain ⟨_, _, h⟩ := bind_eq_ok.mp h
  obtain ⟨merge, hmerge, h⟩ := bind_eq_ok.mp h
  split at h
  · rename_i hnone
    exact ⟨merge, hmerge, hnone.2.1⟩
  · obtain ⟨_, _, h⟩ := bind_eq_ok.mp h
    cases h

theorem PublishedAs.nodup (h : PublishedAs choice isDate lineage input node merge)
    (r : InventoryRelation) : ((node.table r).map r.spec.keyCells).Nodup := by
  have hparts : ∃ rows, node.parts r = relationPart rows := by
    rw [h.node_eq]
    cases r with
    | accessions => exact ⟨_, rfl⟩
    | entries => exact ⟨_, rfl⟩
    | accessionSources => exact ⟨_, rfl⟩
    | accessionEnumeration => exact ⟨_, rfl⟩
  obtain ⟨rows, hrows⟩ := hparts
  have htable : node.table r = rows := by rw [SnapshotNode.table, hrows, flatten_relationPart]
  rw [htable]
  by_cases hnone : rows = []
  · rw [hnone]
    exact List.nodup_nil
  · refine nodup_of_validate h.valid ?_
    rw [hrows, relationPart, if_neg hnone]
    exact List.mem_singleton.mpr rfl

theorem enumerationPayload_enumerationRow (d o : Row Cell) :
    enumerationPayload (enumerationRow d o) = outcomeDigest o := rfl

theorem Merged.mem_enumeration (h : Merged lineage input merge) {e : Row Cell} :
    e ∈ merge.deltaEnumeration ↔ ∃ d ∈ merge.deltaAccessions, ∃ o ∈ input.outcomes, ∃ k,
      rowAccession d = some k ∧ outcomeAccession o = some k ∧ outcomeVehicle o ∈ enumeratingVehicles ∧
        e = enumerationRow d o := by
  rw [h.enumeration, List.mem_map]
  constructor
  · intro ⟨⟨d, o⟩, hj, he⟩
    obtain ⟨hjoin, hvehicle⟩ := List.mem_filter.mp hj
    obtain ⟨hd, ho, k, hdk, hok⟩ := mem_innerJoin.mp hjoin
    exact ⟨d, hd, o, ho, k, hdk, hok, of_decide_eq_true hvehicle, he.symm⟩
  · intro ⟨d, hd, o, ho, k, hdk, hok, hvehicle, he⟩
    refine ⟨(d, o), List.mem_filter.mpr ⟨mem_innerJoin.mpr ⟨hd, ho, k, hdk, hok⟩, ?_⟩, he.symm⟩
    exact decide_eq_true hvehicle

theorem Merged.outcome_unique (h : Merged lineage input merge) {o o' : Row Cell} {k : Cell}
    (ho : o ∈ input.outcomes) (ho' : o' ∈ input.outcomes) (hk : outcomeAccession o = some k)
    (hk' : outcomeAccession o' = some k) : o' = o :=
  List.inj_on_of_nodup_map h.outcomesNodup ho' ho (hk'.trans hk.symm)

/-! ## Branches -/

structure Branch where
  lineage : Lineage
  vehicles : Cell → Option (Option Cell)

def Branch.empty : Branch := ⟨[], fun _ => none⟩

def runVehicle (input : RunInput) (k : Cell) : Option Cell :=
  (input.outcomes.find? fun o => outcomeAccession o = some k).bind outcomeVehicle

def Branch.push (b : Branch) (input : RunInput) (node : SnapshotNode) : Branch where
  lineage := b.lineage ++ [node]
  vehicles k := if ∃ d ∈ node.table .accessions, rowAccession d = some k then some (runVehicle input k)
    else b.vehicles k

inductive Publishes (choice : Choice) (isDate : String → Bool) : Branch → RunInput → Branch → Prop where
  | noOp {b : Branch} {input : RunInput}
      (h : publishCommittedChunks choice isDate b.lineage input = .ok .noOp) :
      Publishes choice isDate b input b
  | published {b : Branch} {input : RunInput} {node : SnapshotNode}
      (h : publishCommittedChunks choice isDate b.lineage input = .ok (.published node)) :
      Publishes choice isDate b input (b.push input node)

/-- The branch a sequence of publications has reached, beside each branch on the way and the run
published there. -/
inductive History (choice : Choice) (isDate : String → Bool) : List (Branch × RunInput) → Branch → Prop where
  | empty : History choice isDate [] .empty
  | step {steps : List (Branch × RunInput)} {b b' : Branch} {input : RunInput}
      (hb : History choice isDate steps b) (h : Publishes choice isDate b input b') :
      History choice isDate (steps ++ [(b, input)]) b'

/-- The enumeration rows have the digests of their accessions, and none is left of an accession
whose latest outcome came by another vehicle. -/
structure Provenance (choice : Choice) (b : Branch) : Prop where
  digests : ∀ e ∈ b.lineage.activeEnumeration choice, ∃ a ∈ b.lineage.activeAccessions choice,
    rowAccession a = enumerationAccession e ∧ rowDigest a = enumerationPayload e
  vehicles : ∀ k v, b.vehicles k = some v → v ∉ enumeratingVehicles →
    ∀ e ∈ b.lineage.activeEnumeration choice, enumerationAccession e ≠ some k

/-- No refresh has a changed page by another vehicle for an accession with an enumeration row. -/
def KeepsVehicle (choice : Choice) (b : Branch) (input : RunInput) : Prop :=
  input.refresh = true → ∀ o ∈ input.outcomes, ∀ k, outcomeAccession o = some k →
    outcomeVehicle o ∉ enumeratingVehicles → (∃ p ∈ parentOf b.lineage k, rowDigest p ≠ outcomeDigest o) →
      ∀ e ∈ b.lineage.activeEnumeration choice, enumerationAccession e ≠ some k

/-! ## One publication -/

theorem Merged.mem_delta_iff (h : Merged lineage input merge) {o : Row Cell} {k : Cell}
    (ho : o ∈ input.outcomes) (hk : outcomeAccession o = some k) :
    (∃ d ∈ merge.deltaAccessions, rowAccession d = some k) ↔
      parentOf lineage k = [] ∨
        (input.refresh = true ∧ ∃ p ∈ parentOf lineage k, rowDigest p ≠ outcomeDigest o) := by
  have hfilter : (∃ d ∈ merge.deltaAccessions, rowAccession d = some k) ↔
      merge.deltaAccessions.filter (fun d => rowAccession d = some k) ≠ [] := by
    rw [ne_eq, List.filter_eq_nil_iff]
    simp
  rw [hfilter]
  by_cases heligible : o ∈ eligibleOutcomes lineage input
  · obtain ⟨c, -, -, hdelta⟩ := h.filter_deltaAccessions heligible hk
    rw [hdelta, ne_eq, List.map_eq_nil_iff, parentChoices]
    by_cases hnew : parentOf lineage k = []
    · simp [hnew, isChanged]
    · have hrefresh : input.refresh = true := by
        rcases (mem_eligibleOutcomes.mp heligible).2 with hrefresh | hunknown
        · exact hrefresh
        · rw [hk, knownAccession_eq_false_iff] at hunknown
          exact absurd hunknown hnew
      rw [if_neg hnew, List.filter_map, List.map_eq_nil_iff, List.filter_eq_nil_iff]
      simp [hnew, hrefresh, isChanged]
  · have hunique : ∀ o' ∈ eligibleOutcomes lineage input, outcomeAccession o' ≠ some k := by
      intro o' ho' hk'
      have hsame := h.outcome_unique ho (mem_eligibleOutcomes.mp ho').1 hk hk'
      exact heligible (hsame ▸ ho')
    rw [h.filter_deltaAccessions_eq_nil hunique]
    have hnot : ¬ (input.refresh = true) ∧ parentOf lineage k ≠ [] := by
      rw [mem_eligibleOutcomes] at heligible
      refine ⟨fun hrefresh => heligible ⟨ho, Or.inl hrefresh⟩, fun hnone => ?_⟩
      refine heligible ⟨ho, Or.inr ?_⟩
      rw [hk, knownAccession_eq_false_iff]
      exact hnone
    simp [hnot]

theorem runVehicle_eq (h : Merged lineage input merge) {o : Row Cell} {k : Cell}
    (ho : o ∈ input.outcomes) (hk : outcomeAccession o = some k) : runVehicle input k = outcomeVehicle o := by
  unfold runVehicle
  cases hfind : input.outcomes.find? fun o => decide (outcomeAccession o = some k) with
  | none =>
    have hother := List.find?_eq_none.mp hfind o ho
    exact absurd (decide_eq_true hk) hother
  | some o' =>
    have hk' : outcomeAccession o' = some k := by simpa using List.find?_some hfind
    have hsame := h.outcome_unique ho (List.mem_of_find?_eq_some hfind) hk hk'
    rw [hsame, Option.bind_some]

section Step
variable {b : Branch} (h : PublishedAs choice isDate b.lineage input node merge)
include h

theorem PublishedAs.mem_activeAccessions {a : Row Cell} :
    a ∈ (b.push input node).lineage.activeAccessions choice ↔ a ∈ node.table .accessions ∨
      (a ∈ b.lineage.activeAccessions choice ∧
        ∀ d ∈ node.table .accessions, rowAccession d ≠ rowAccession a) := by
  have hconcat := @mem_rankedRows_concat choice b.lineage node .accessions rfl (h.nodup _) a
  simp only [InventoryRelation.spec, Lineage.keyCells_accessions, ne_eq, List.cons.injEq,
    and_true] at hconcat
  exact hconcat

theorem PublishedAs.mem_activeEnumeration {e : Row Cell} :
    e ∈ (b.push input node).lineage.activeEnumeration choice ↔ e ∈ node.table .accessionEnumeration ∨
      (e ∈ b.lineage.activeEnumeration choice ∧
        ∀ c ∈ node.table .accessionEnumeration, enumerationAccession c ≠ enumerationAccession e) := by
  have hconcat := @mem_rankedRows_concat choice b.lineage node .accessionEnumeration rfl (h.nodup _) e
  simp only [InventoryRelation.spec, Lineage.keyCells_enumeration, ne_eq, List.cons.injEq,
    and_true] at hconcat
  exact hconcat

theorem PublishedAs.mem_node_accessions {d : Row Cell} :
    d ∈ node.table .accessions ↔ d ∈ merge.deltaAccessions := by
  rw [h.node_eq]
  exact mem_table_accessions

theorem PublishedAs.mem_node_enumeration {e : Row Cell} :
    e ∈ node.table .accessionEnumeration ↔ ∃ d ∈ merge.deltaAccessions, ∃ o ∈ input.outcomes, ∃ k,
      rowAccession d = some k ∧ outcomeAccession o = some k ∧ outcomeVehicle o ∈ enumeratingVehicles ∧
        e = enumerationRow d o := by
  rw [h.node_eq, mem_table_enumeration]
  exact (merged_of_ok h.merged).mem_enumeration

theorem PublishedAs.vehicle_of_mem (hb : Provenance choice b) (hkeeps : KeepsVehicle choice b input)
    {d e : Row Cell} {k : Cell} (hd : d ∈ merge.deltaAccessions) (hdk : rowAccession d = some k)
    (he : e ∈ b.lineage.activeEnumeration choice) (hek : enumerationAccession e = some k) :
    ∃ o ∈ input.outcomes, outcomeAccession o = some k ∧ outcomeVehicle o ∈ enumeratingVehicles := by
  have hmerged := merged_of_ok h.merged
  obtain ⟨o, heligible, k', hok, hdk', -⟩ := hmerged.exists_eligible hd
  obtain rfl := Option.some.inj (hdk.symm.trans hdk')
  have ho := (mem_eligibleOutcomes.mp heligible).1
  refine ⟨o, ho, hok, by_contra fun hvehicle => ?_⟩
  rcases (hmerged.mem_delta_iff ho hok).mp ⟨d, hd, hdk⟩ with hnew | ⟨hrefresh, hchanged⟩
  · obtain ⟨a, ha, hae, -⟩ := hb.digests e he
    obtain ⟨i, hi⟩ := mem_rows_of_mem_rankedRows ha
    have hparent : a ∈ parentOf b.lineage k :=
      List.mem_filter.mpr ⟨Lineage.mem_parentRows.mpr ⟨i, hi⟩, decide_eq_true (hae.trans hek)⟩
    rw [hnew] at hparent
    exact absurd hparent List.not_mem_nil
  · exact hkeeps hrefresh o ho k hok hvehicle hchanged e he hek

theorem PublishedAs.digests (hb : Provenance choice b) (hkeeps : KeepsVehicle choice b input)
    {e : Row Cell} (he : e ∈ (b.push input node).lineage.activeEnumeration choice) :
    ∃ a ∈ (b.push input node).lineage.activeAccessions choice,
      rowAccession a = enumerationAccession e ∧ rowDigest a = enumerationPayload e := by
  have hmerged := merged_of_ok h.merged
  rcases h.mem_activeEnumeration.mp he with hnew | ⟨hold, hother⟩
  · obtain ⟨d, hd, o, ho, k, hdk, hok, -, rfl⟩ := h.mem_node_enumeration.mp hnew
    obtain ⟨o', heligible, k', hok', hdk', hdigest⟩ := hmerged.exists_eligible hd
    obtain rfl := Option.some.inj (hdk.symm.trans hdk')
    have hsame := hmerged.outcome_unique ho (mem_eligibleOutcomes.mp heligible).1 hok hok'
    refine ⟨d, h.mem_activeAccessions.mpr (Or.inl (h.mem_node_accessions.mpr hd)), rfl, ?_⟩
    rw [hdigest, hsame, enumerationPayload_enumerationRow]
  · obtain ⟨a, ha, hae, hdigest⟩ := hb.digests e hold
    refine ⟨a, h.mem_activeAccessions.mpr (Or.inr ⟨ha, fun d hd hda => ?_⟩), hae, hdigest⟩
    have hdelta := h.mem_node_accessions.mp hd
    obtain ⟨o', -, k, -, hdk, -⟩ := hmerged.exists_eligible hdelta
    have hek : enumerationAccession e = some k := (hda.trans hae).symm.trans hdk
    obtain ⟨o, ho, hok, hvehicle⟩ := h.vehicle_of_mem hb hkeeps hdelta hdk hold hek
    have hrow := h.mem_node_enumeration.mpr ⟨d, hdelta, o, ho, k, hdk, hok, hvehicle, rfl⟩
    exact hother _ hrow (hda.trans hae)

theorem PublishedAs.vehicles (hb : Provenance choice b) (hkeeps : KeepsVehicle choice b input)
    {k : Cell} {v : Option Cell} (hv : (b.push input node).vehicles k = some v)
    (hother : v ∉ enumeratingVehicles) {e : Row Cell}
    (he : e ∈ (b.push input node).lineage.activeEnumeration choice) : enumerationAccession e ≠ some k := by
  intro hek
  have hmerged := merged_of_ok h.merged
  have hpushed : (b.push input node).vehicles k =
      if ∃ d ∈ node.table .accessions, rowAccession d = some k then some (runVehicle input k)
        else b.vehicles k := rfl
  rw [hpushed] at hv
  split_ifs at hv with hpublished
  · -- the run has the accession: its vehicle is the latest one
    obtain ⟨d, hd, hdk⟩ := hpublished
    have hout : ∃ o ∈ input.outcomes, outcomeAccession o = some k ∧
        outcomeVehicle o ∈ enumeratingVehicles := by
      rcases h.mem_activeEnumeration.mp he with hnew | ⟨hold, -⟩
      · obtain ⟨d', -, o, ho, k', hdk', hok, hvehicle, rfl⟩ := h.mem_node_enumeration.mp hnew
        obtain rfl := Option.some.inj (hek.symm.trans hdk')
        exact ⟨o, ho, hok, hvehicle⟩
      · exact h.vehicle_of_mem hb hkeeps (h.mem_node_accessions.mp hd) hdk hold hek
    obtain ⟨o, ho, hok, hvehicle⟩ := hout
    rw [runVehicle_eq hmerged ho hok] at hv
    exact hother (Option.some.inj hv ▸ hvehicle)
  · rcases h.mem_activeEnumeration.mp he with hnew | ⟨hold, -⟩
    · obtain ⟨d, hd, o, _, _, _, _, _, rfl⟩ := h.mem_node_enumeration.mp hnew
      exact hpublished ⟨d, h.mem_node_accessions.mpr hd, hek⟩
    · exact hb.vehicles k v hv hother e hold hek

theorem PublishedAs.keepsVehicle (hpushed : Provenance choice (b.push input node)) :
    KeepsVehicle choice b input := by
  intro hrefresh o ho k hok hvehicle hchanged e he hek
  have hmerged := merged_of_ok h.merged
  obtain ⟨d, hd, hdk⟩ := (hmerged.mem_delta_iff ho hok).mpr (Or.inr ⟨hrefresh, hchanged⟩)
  have hlatest : (b.push input node).vehicles k = some (outcomeVehicle o) := by
    rw [← runVehicle_eq hmerged ho hok]
    exact if_pos ⟨d, h.mem_node_accessions.mpr hd, hdk⟩
  have hgone := hpushed.vehicles k _ hlatest hvehicle
  by_cases hreplaced : ∃ c ∈ node.table .accessionEnumeration, enumerationAccession c = enumerationAccession e
  · obtain ⟨c, hc, hce⟩ := hreplaced
    exact hgone c (h.mem_activeEnumeration.mpr (Or.inl hc)) (hce.trans hek)
  · refine hgone e (h.mem_activeEnumeration.mpr (Or.inr ⟨he, fun c hc hce => ?_⟩)) hek
    exact hreplaced ⟨c, hc, hce⟩

end Step

theorem Publishes.provenance_iff {b b' : Branch} (h : Publishes choice isDate b input b')
    (hb : Provenance choice b) : Provenance choice b' ↔ KeepsVehicle choice b input := by
  cases h with
  | noOp h =>
    obtain ⟨merge, hmerge, hnone⟩ := deltaAccessions_of_noOp h
    refine ⟨fun _ hrefresh o ho k hok _ hchanged => ?_, fun _ => hb⟩
    have hdelta := ((merged_of_ok hmerge).mem_delta_iff ho hok).mpr (Or.inr ⟨hrefresh, hchanged⟩)
    rw [hnone] at hdelta
    obtain ⟨d, hd, -⟩ := hdelta
    exact absurd hd List.not_mem_nil
  | published h =>
    obtain ⟨merge, hpublished⟩ := exists_publishedAs h
    refine ⟨hpublished.keepsVehicle, fun hkeeps => ⟨fun e he => ?_, fun k v hv hother e he => ?_⟩⟩
    · exact hpublished.digests hb hkeeps he
    · exact hpublished.vehicles hb hkeeps hv hother he

/-! ## A history of publications -/

theorem Provenance.empty : Provenance choice .empty := by
  have hnone : Branch.empty.lineage.activeEnumeration choice = [] := by
    rw [List.eq_nil_iff_forall_not_mem]
    intro e he
    obtain ⟨i, hi⟩ := mem_rows_of_mem_rankedRows he
    exact absurd hi List.not_mem_nil
  constructor
  · intro e he
    exact absurd (hnone ▸ he) List.not_mem_nil
  · intro k v hv
    cases hv

/-- The rows stay in step on the whole history exactly if every run has kept the vehicles. -/
theorem provenance_history_iff {steps : List (Branch × RunInput)} {b : Branch}
    (h : History choice isDate steps b) :
    ((∀ p ∈ steps, Provenance choice p.1) ∧ Provenance choice b) ↔
      ∀ p ∈ steps, KeepsVehicle choice p.1 p.2 := by
  induction h with
  | empty => simp [Provenance.empty]
  | @step steps b b' input _ hstep ih =>
    constructor
    · intro ⟨hall, hlast⟩ p hp
      have hb : Provenance choice b := hall (b, input) (List.mem_append_right _ (List.mem_singleton_self _))
      rcases List.mem_append.mp hp with hbefore | hthis
      · exact ih.mp ⟨fun q hq => hall q (List.mem_append_left _ hq), hb⟩ p hbefore
      · obtain rfl := List.mem_singleton.mp hthis
        exact (hstep.provenance_iff hb).mp hlast
    · intro hkeeps
      obtain ⟨hall, hb⟩ := ih.mpr fun p hp => hkeeps p (List.mem_append_left _ hp)
      constructor
      · intro p hp
        rcases List.mem_append.mp hp with hbefore | hthis
        · exact hall p hbefore
        · obtain rfl := List.mem_singleton.mp hthis
          exact hb
      · exact (hstep.provenance_iff hb).mpr
          (hkeeps (b, input) (List.mem_append_right _ (List.mem_singleton_self _)))

/-! ## A summary, then an index page -/

def summaryUrl : String := "https://www.sec.gov/Archives/edgar/data/320193/000032019325000001/FilingSummary.xml"

def summaryRun : RunInput where
  refresh := false
  sourceIdentity := "run"
  cohortAccessions := (pageRun false 'a').cohortAccessions
  cohortSources := []
  outcomes := [[text "0000320193-25-000001", text statusParsed, text pageUrl,
    text (pageDigest 'a'), number 1, number 1, none, none, none, none, none, none,
    text Vehicle.summary.text, text summaryUrl]]
  entries := [[text "entry", text "0000320193-25-000001", text TableKind.documentFormat.text, number 1,
    number 1, text "10-K", none, none, text "report.htm", none, none, none]]

def summaryMerge : MergeRelations where
  deltaAccessions := (pageMerge 'a').deltaAccessions
  deltaEntries := summaryRun.entries
  deltaSources := []
  deltaEnumeration := [[text "0000320193-25-000001", text Vehicle.summary.text, text summaryUrl,
    text (pageDigest 'a')]]

def summaryBranch : Branch := Branch.empty.push summaryRun (publishedNode Choice.first summaryMerge)

theorem summaryBranch_history :
    History Choice.first (fun _ => true) [(.empty, summaryRun)] summaryBranch :=
  .step .empty (.published rfl)

/-- After the run of the summary the rows are in step. -/
theorem provenance_history_summary :
    (∀ p ∈ [(Branch.empty, summaryRun)], Provenance Choice.first p.1) ∧
      Provenance Choice.first summaryBranch := by
  refine (provenance_history_iff summaryBranch_history).mpr fun p hp hrefresh => ?_
  obtain rfl := List.mem_singleton.mp hp
  cases hrefresh

/-- A refresh finds a changed index page and no summary: the row of the summary stays, with the
digest of the old payload. -/
theorem provenance_lost_by_index :
    History Choice.first (fun _ => true) [(.empty, summaryRun), (summaryBranch, pageRun true 'b')]
        (summaryBranch.push (pageRun true 'b') (pageNode 'b')) ∧
      ¬ Provenance Choice.first (summaryBranch.push (pageRun true 'b') (pageNode 'b')) := by
  constructor
  · exact .step summaryBranch_history (.published rfl)
  · intro hprovenance
    have hstale : (summaryBranch.push (pageRun true 'b') (pageNode 'b')).lineage.activeEnumeration
        Choice.first = summaryMerge.deltaEnumeration := by decide +kernel
    have hgone := hprovenance.vehicles (.text "0000320193-25-000001") (text Vehicle.index.text) rfl
      (by decide)
    rw [hstale] at hgone
    exact hgone _ List.mem_cons_self rfl

end EdgarSec.Inventory
