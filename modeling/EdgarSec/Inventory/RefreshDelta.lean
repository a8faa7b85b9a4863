import EdgarSec.Inventory.Delta

/-! A refresh over a lineage in which rows have been superseded: when its delta has an
accession exactly once for each change. -/

namespace EdgarSec.Inventory
open Foundation Lib Dag

variable {choice : Choice} {lineage : Lineage} {input : RunInput} {merge : MergeRelations}

/-! ## The property -/

def activeOf (choice : Choice) (lineage : Lineage) (k : Cell) : Table Cell :=
  (lineage.activeAccessions choice).filter fun row => rowAccession row = some k

def supersededOf (choice : Choice) (lineage : Lineage) (k : Cell) : Table Cell :=
  (parentOf lineage k).diff (activeOf choice lineage k)

def Changed (choice : Choice) (lineage : Lineage) (k : Cell) (o : Row Cell) : Prop :=
  ∀ row ∈ activeOf choice lineage k, rowDigest row ≠ outcomeDigest o

def deltaOf (merge : MergeRelations) (k : Cell) : Table Cell :=
  merge.deltaAccessions.filter fun d => rowAccession d = some k

/-- The delta has an accession once if the run has changed it, and else not at all. -/
def RefreshExact (choice : Choice) (lineage : Lineage) (input : RunInput) (merge : MergeRelations) :
    Prop :=
  ∀ k, ((∃ o ∈ input.outcomes, outcomeAccession o = some k ∧ Changed choice lineage k o) →
      (deltaOf merge k).length = 1) ∧
    ((¬ ∃ o ∈ input.outcomes, outcomeAccession o = some k ∧ Changed choice lineage k o) →
      (deltaOf merge k).length = 0)

/-! ## The rows of an accession -/

theorem activeOf_eq_nil {k : Cell} (h : parentOf lineage k = []) : activeOf choice lineage k = [] := by
  rw [activeOf, List.filter_eq_nil_iff]
  intro row hrow hk
  obtain ⟨i, hi⟩ := mem_rows_of_mem_rankedRows hrow
  have hparent : row ∈ parentOf lineage k :=
    List.mem_filter.mpr ⟨Lineage.mem_parentRows.mpr ⟨i, hi⟩, hk⟩
  rw [h] at hparent
  exact absurd hparent List.not_mem_nil

theorem exists_activeOf {k : Cell} (h : parentOf lineage k ≠ []) :
    ∃ a ∈ parentOf lineage k, activeOf choice lineage k = [a] := by
  obtain ⟨p, hp⟩ := List.exists_mem_of_ne_nil _ h
  obtain ⟨hrows, hpk⟩ := List.mem_filter.mp hp
  obtain ⟨i, hi⟩ := Lineage.mem_parentRows.mp hrows
  obtain ⟨a, ha, hkey⟩ := @exists_mem_rankedRows _ _ choice inventoryAccessionsSpec _ _ hi
  have hak : rowAccession a = some k := by
    have hsame := List.cons.inj hkey
    exact hsame.1.trans (of_decide_eq_true hpk)
  obtain ⟨j, hj⟩ := mem_rows_of_mem_rankedRows ha
  refine ⟨a, List.mem_filter.mpr ⟨Lineage.mem_parentRows.mpr ⟨j, hj⟩, decide_eq_true hak⟩, ?_⟩
  have hnodup : ((lineage.activeAccessions choice).map rowAccession).Nodup := by
    have hkeys := @nodup_keyCells_rankedRows _ _ choice inventoryAccessionsSpec
      (lineage.raw .accessions).rows
    refine List.Nodup.of_map (fun c => [c]) ?_
    rwa [List.map_map]
  have hone := filter_key_eq_singleton hnodup ha
  rwa [hak] at hone

theorem countP_parentOf {k : Cell} {a : Row Cell} (ha : a ∈ parentOf lineage k)
    (hactive : activeOf choice lineage k = [a]) (p : Row Cell → Bool) :
    (parentOf lineage k).countP p =
      (supersededOf choice lineage k).countP p + if p a then 1 else 0 := by
  have hperm := List.perm_cons_erase ha
  rw [hperm.countP_eq, List.countP_cons, supersededOf, hactive, List.diff_cons, List.diff_nil]

/-! ## The delta of a refresh -/

section Refresh
variable (h : mergeRelations lineage input = .ok merge)
include h

theorem deltaOf_eq_nil {k : Cell} (hnone : ∀ o ∈ input.outcomes, outcomeAccession o ≠ some k) :
    deltaOf merge k = [] :=
  (merged_of_ok h).filter_deltaAccessions_eq_nil fun o ho =>
    hnone o (mem_eligibleOutcomes.mp ho).1

variable (hrefresh : input.refresh = true)
include hrefresh

theorem length_deltaOf {o : Row Cell} {k : Cell} (ho : o ∈ input.outcomes)
    (hk : outcomeAccession o = some k) :
    (deltaOf merge k).length = if parentOf lineage k = [] then 1
      else (parentOf lineage k).countP fun p => rowDigest p ≠ outcomeDigest o := by
  have hmerged := merged_of_ok h
  have heligible : o ∈ eligibleOutcomes lineage input :=
    mem_eligibleOutcomes.mpr ⟨ho, Or.inl hrefresh⟩
  obtain ⟨c, -, -, hdelta⟩ := hmerged.filter_deltaAccessions heligible hk
  rw [deltaOf, hdelta, List.length_map, parentChoices]
  split
  · simp [hrefresh, isChanged]
  · rw [List.filter_map, List.length_map, List.countP_eq_length_filter]
    congr 1
    apply List.filter_congr
    intro p _
    simp [hrefresh, isChanged]

theorem length_deltaOf_iff {o : Row Cell} {k : Cell} (ho : o ∈ input.outcomes)
    (hk : outcomeAccession o = some k) :
    ((Changed choice lineage k o → (deltaOf merge k).length = 1) ∧
      (¬ Changed choice lineage k o → (deltaOf merge k).length = 0)) ↔
      ∀ p ∈ supersededOf choice lineage k, rowDigest p = outcomeDigest o := by
  rw [length_deltaOf h hrefresh ho hk]
  by_cases hnew : parentOf lineage k = []
  · have hactive := @activeOf_eq_nil choice lineage k hnew
    have hchanged : Changed choice lineage k o := by
      intro row hrow
      rw [hactive] at hrow
      exact absurd hrow List.not_mem_nil
    have hnone : supersededOf choice lineage k = [] := by
      rw [supersededOf, hnew, List.nil_diff]
    simp [hnew, hchanged, hnone]
  · obtain ⟨a, ha, hactive⟩ := @exists_activeOf choice lineage k hnew
    have hchanged : Changed choice lineage k o ↔ rowDigest a ≠ outcomeDigest o := by
      unfold Changed
      rw [hactive]
      simp
    have hzero : (supersededOf choice lineage k).countP (fun p => rowDigest p ≠ outcomeDigest o) = 0 ↔
        ∀ p ∈ supersededOf choice lineage k, rowDigest p = outcomeDigest o := by
      rw [List.countP_eq_zero]
      simp
    rw [if_neg hnew, countP_parentOf ha hactive, ← hzero, hchanged]
    by_cases hdigest : rowDigest a = outcomeDigest o
    · simp [hdigest]
    · simp [hdigest]

/-- The delta of a refresh is exact when the superseded rows of every accession it looks at have
the digest of its page. -/
theorem deltaAccessions_exact_iff :
    RefreshExact choice lineage input merge ↔
      ∀ o ∈ input.outcomes, ∀ k, outcomeAccession o = some k →
        ∀ p ∈ supersededOf choice lineage k, rowDigest p = outcomeDigest o := by
  have hone : ∀ {o o' : Row Cell} {k : Cell}, o ∈ input.outcomes → o' ∈ input.outcomes →
      outcomeAccession o = some k → outcomeAccession o' = some k → o' = o := by
    intro o o' k ho ho' hk hk'
    have hnodup := (merged_of_ok h).outcomesNodup
    exact List.inj_on_of_nodup_map hnodup ho' ho (hk'.trans hk.symm)
  constructor
  · intro hexact o ho k hk
    refine (length_deltaOf_iff h hrefresh ho hk).mp ⟨fun hchanged => ?_, fun hsame => ?_⟩
    · exact (hexact k).1 ⟨o, ho, hk, hchanged⟩
    · refine (hexact k).2 fun ⟨o', ho', hk', hchanged⟩ => hsame ?_
      rwa [hone ho ho' hk hk'] at hchanged
  · intro hdigests k
    constructor
    · intro ⟨o, ho, hk, hchanged⟩
      exact ((length_deltaOf_iff h hrefresh ho hk).mpr (hdigests o ho k hk)).1 hchanged
    · intro hnone
      by_cases hout : ∃ o ∈ input.outcomes, outcomeAccession o = some k
      · obtain ⟨o, ho, hk⟩ := hout
        refine ((length_deltaOf_iff h hrefresh ho hk).mpr (hdigests o ho k hk)).2 fun hchanged => ?_
        exact hnone ⟨o, ho, hk, hchanged⟩
      · rw [deltaOf_eq_nil h fun o ho hk => hout ⟨o, ho, hk⟩, List.length_nil]

end Refresh

/-! ## One page, changed once -/

def pageUrl : String := "https://www.sec.gov/Archives/edgar/data/320193/000032019325000001-index.htm"

def pageDigest (c : Char) : String := String.ofList (List.replicate 64 c)

def pageRun (refresh : Bool) (c : Char) : RunInput where
  refresh := refresh
  sourceIdentity := "run"
  cohortAccessions := [[text "0000320193-25-000001", text "0000320193", text "10-K",
    text "2025-01-31", none, text pageUrl]]
  cohortSources := []
  outcomes := [[text "0000320193-25-000001", text statusParsedEmpty, text pageUrl,
    text (pageDigest c), number 1, number 0, none, none, none, none, none, none,
    text Vehicle.index.text, text pageUrl]]
  entries := []

def pageMerge (c : Char) : MergeRelations where
  deltaAccessions := [[text "0000320193-25-000001", text "0000320193", text "10-K",
    text "2025-01-31", none, none, none, text pageUrl, text (pageDigest c), text "run"]]
  deltaEntries := []
  deltaSources := []
  deltaEnumeration := []

def pageNode (c : Char) : SnapshotNode := publishedNode Choice.first (pageMerge c)

/-- The first refresh of the page has it once. -/
theorem deltaAccessions_exact_first :
    RefreshExact Choice.first [pageNode 'a'] (pageRun true 'b') (pageMerge 'b') := by
  have hmerge : mergeRelations [pageNode 'a'] (pageRun true 'b') = .ok (pageMerge 'b') := rfl
  refine (deltaAccessions_exact_iff hmerge rfl).mpr fun o ho k hk p hp => ?_
  obtain rfl := List.mem_singleton.mp ho
  obtain rfl := Option.some.inj hk
  have hnone : supersededOf Choice.first [pageNode 'a'] (.text "0000320193-25-000001") = [] := by
    decide +kernel
  exact absurd (hnone ▸ hp) List.not_mem_nil

/-- After one refresh the unchanged page is published again, and a second change is in the delta
twice and cannot be published. -/
theorem deltaAccessions_repeats_superseded :
    publishCommittedChunks Choice.first (fun _ => true) [] (pageRun false 'a') =
        .ok (.published (pageNode 'a')) ∧
      publishCommittedChunks Choice.first (fun _ => true) [pageNode 'a'] (pageRun true 'b') =
        .ok (.published (pageNode 'b')) ∧
      mergeRelations [pageNode 'a', pageNode 'b'] (pageRun true 'b') = .ok (pageMerge 'b') ∧
      ¬ RefreshExact Choice.first [pageNode 'a', pageNode 'b'] (pageRun true 'b') (pageMerge 'b') ∧
      publishCommittedChunks Choice.first (fun _ => true) [pageNode 'a', pageNode 'b']
        (pageRun true 'c') = .error ⟨"duplicate accessions primary key in part-00000.parquet"⟩ := by
  refine ⟨rfl, rfl, rfl, fun hexact => ?_, rfl⟩
  have hactive : activeOf Choice.first [pageNode 'a', pageNode 'b'] (.text "0000320193-25-000001") =
      (pageMerge 'b').deltaAccessions := by decide +kernel
  have hzero := (hexact (.text "0000320193-25-000001")).2 fun ⟨o, ho, _, hchanged⟩ => by
    obtain rfl := List.mem_singleton.mp ho
    rw [Changed, hactive] at hchanged
    exact hchanged _ List.mem_cons_self rfl
  cases hzero

end EdgarSec.Inventory
