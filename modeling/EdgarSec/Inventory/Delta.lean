import EdgarSec.Inventory.SnapshotWriter

/-! What a publication finds new or changed: its delta, one accession at a time. -/

namespace EdgarSec.Inventory
open Foundation Lib Dag

variable {lineage : Lineage} {input : RunInput} {merge : MergeRelations}

/-! ## What the checks leave -/

def eligibleOutcomes (lineage : Lineage) (input : RunInput) : Table Cell :=
  let known := fun o => knownAccession (lineage.parentRows .accessions) (outcomeAccession o)
  input.outcomes.filter (fun o => !known o) ++ if input.refresh then input.outcomes.filter known else []

def candidateEntries (lineage : Lineage) (input : RunInput) : Table Cell :=
  ((innerJoin entryAccession outcomeAccession input.entries input.outcomes).filter fun j =>
    input.refresh || !knownAccession (lineage.parentRows .accessions) (outcomeAccession j.2)).map Prod.fst

structure Merged (lineage : Lineage) (input : RunInput) (merge : MergeRelations) : Prop where
  statuses : ∀ o ∈ input.outcomes, outcomeCell o "status" ∈ publishedStatuses
  outcomesNodup : (input.outcomes.map outcomeAccession).Nodup
  cohortNodup : (input.cohortAccessions.map cohortAccession).Nodup
  inCohort : ∀ o ∈ input.outcomes, ∃ c ∈ input.cohortAccessions, ∃ k,
    outcomeAccession o = some k ∧ cohortAccession c = some k
  accessions : merge.deltaAccessions =
    (deltaAccessionJoin (lineage.parentRows .accessions) input.refresh input.cohortAccessions
      (eligibleOutcomes lineage input)).map fun j =>
        deltaAccessionRow input.sourceIdentity j.1.1 j.1.2 j.2
  entries : merge.deltaEntries = (innerJoin entryAccession rowAccession (candidateEntries lineage input)
    merge.deltaAccessions).map Prod.fst
  enumeration : merge.deltaEnumeration =
    ((innerJoin rowAccession outcomeAccession merge.deltaAccessions input.outcomes).filter fun j =>
      outcomeVehicle j.2 ∈ enumeratingVehicles).map fun j => enumerationRow j.1 j.2

theorem merged_of_ok (h : mergeRelations lineage input = .ok merge) : Merged lineage input merge := by
  simp only [mergeRelations, antiJoin, createMergeRelations, checkStaged, ensureValid, bind_eq_ok,
    ensure_eq_ok, pure, Except.pure, Except.ok.injEq] at h
  obtain ⟨joined, ⟨_, hstatuses, _, hnodup, rfl⟩, _, ⟨_, _, _, hcohort, _, _, _, hcohortNodup, _⟩,
    rfl⟩ := h
  refine ⟨hstatuses, hnodup, hcohortNodup, ?_, rfl, rfl, rfl⟩
  intro o ho
  obtain ⟨c, hc⟩ := List.exists_mem_of_ne_nil _ (hcohort o ho)
  exact ⟨c, mem_matchRows.mp hc⟩

theorem mem_eligibleOutcomes {o : Row Cell} : o ∈ eligibleOutcomes lineage input ↔
    o ∈ input.outcomes ∧ (input.refresh = true ∨
      knownAccession (lineage.parentRows .accessions) (outcomeAccession o) = false) := by
  unfold eligibleOutcomes
  cases hrefresh : input.refresh <;>
    cases hknown : knownAccession (lineage.parentRows .accessions) (outcomeAccession o) <;>
    simp [hknown]

theorem nodup_eligibleOutcomes (h : (input.outcomes.map outcomeAccession).Nodup) :
    ((eligibleOutcomes lineage input).map outcomeAccession).Nodup := by
  unfold eligibleOutcomes
  cases input.refresh with
  | false =>
    have hsub : (input.outcomes.filter fun o =>
        !knownAccession (lineage.parentRows .accessions) (outcomeAccession o)).Sublist input.outcomes :=
      List.filter_sublist
    simpa using h.sublist (hsub.map outcomeAccession)
  | true =>
    have hperm := (List.filter_append_perm (fun o =>
      knownAccession (lineage.parentRows .accessions) (outcomeAccession o)) input.outcomes)
    simpa using ((List.perm_append_comm.trans hperm).map outcomeAccession).nodup_iff.mpr h

def parentOf (lineage : Lineage) (k : Cell) : Table Cell :=
  (lineage.parentRows .accessions).filter fun p => rowAccession p = some k

theorem knownAccession_eq_false_iff {k : Cell} :
    knownAccession (lineage.parentRows .accessions) (some k) = false ↔ parentOf lineage k = [] := by
  rw [knownAccession, List.any_eq_false, parentOf, List.filter_eq_nil_iff]
  apply forall₂_congr
  intro p _
  by_cases hp : rowAccession p = some k <;> simp [hp]

def parentChoices (lineage : Lineage) (k : Cell) : List (Option (Row Cell)) :=
  if parentOf lineage k = [] then [none] else (parentOf lineage k).map some

@[simp] theorem rowAccession_deltaAccessionRow (source : String) (c o : Row Cell)
    (p : Option (Row Cell)) : rowAccession (deltaAccessionRow source c o p) = cohortAccession c := rfl

@[simp] theorem rowDigest_deltaAccessionRow (source : String) (c o : Row Cell)
    (p : Option (Row Cell)) : rowDigest (deltaAccessionRow source c o p) = outcomeDigest o := rfl

/-! ## The delta of one accession -/

namespace Merged

variable (h : Merged lineage input merge) {o d : Row Cell} {k : Cell}
include h

theorem filter_cohort {c : Row Cell} (hc : c ∈ input.cohortAccessions) (hk : cohortAccession c = some k) :
    input.cohortAccessions.filter (fun c => cohortAccession c = some k) = [c] := by
  have hone := filter_key_eq_singleton h.cohortNodup hc
  rwa [hk] at hone

theorem filter_eligible (ho : o ∈ eligibleOutcomes lineage input) (hk : outcomeAccession o = some k) :
    (eligibleOutcomes lineage input).filter (fun o => outcomeAccession o = some k) = [o] := by
  have hone := filter_key_eq_singleton (nodup_eligibleOutcomes h.outcomesNodup) ho
  rwa [hk] at hone

theorem filter_facts {c : Row Cell} (hc : c ∈ input.cohortAccessions) (hck : cohortAccession c = some k)
    (ho : o ∈ eligibleOutcomes lineage input) (hk : outcomeAccession o = some k) :
    (innerJoin cohortAccession outcomeAccession input.cohortAccessions
      (eligibleOutcomes lineage input)).filter (fun j => cohortAccession j.1 = some k) = [(c, o)] := by
  have hmatch : matchRows cohortAccession outcomeAccession (eligibleOutcomes lineage input) c = [o] := by
    rw [← h.filter_eligible ho hk]
    apply List.filter_congr
    intro b _
    simp [hck, eq_comm]
  have hleft : (innerJoin cohortAccession outcomeAccession input.cohortAccessions
      (eligibleOutcomes lineage input)).filter (fun j => cohortAccession j.1 = some k) =
      innerJoin cohortAccession outcomeAccession
        (input.cohortAccessions.filter fun c => cohortAccession c = some k)
        (eligibleOutcomes lineage input) :=
    filter_innerJoin (fun c => decide (cohortAccession c = some k)) _ _
  rw [hleft, h.filter_cohort hc hck]
  simp [innerJoin, hmatch]

theorem filter_deltaAccessions (ho : o ∈ eligibleOutcomes lineage input)
    (hk : outcomeAccession o = some k) : ∃ c ∈ input.cohortAccessions, cohortAccession c = some k ∧
      merge.deltaAccessions.filter (fun d => rowAccession d = some k) =
        ((parentChoices lineage k).filter fun p => !input.refresh || isChanged o p).map
          (deltaAccessionRow input.sourceIdentity c o) := by
  have hout := (mem_eligibleOutcomes.mp ho).1
  obtain ⟨c, hc, k', hk', hck⟩ := h.inCohort o hout
  obtain rfl := Option.some.inj (hk'.symm.trans hk)
  refine ⟨c, hc, hck, ?_⟩
  have hparent : matchRows (fun j : Row Cell × Row Cell => cohortAccession j.1) rowAccession
      (lineage.parentRows .accessions) (c, o) = parentOf lineage k' := by
    apply List.filter_congr
    intro p _
    simp [hck, eq_comm]
  have hjoin : (leftJoin (fun j : Row Cell × Row Cell => cohortAccession j.1) rowAccession
      (innerJoin cohortAccession outcomeAccession input.cohortAccessions
        (eligibleOutcomes lineage input)) (lineage.parentRows .accessions)).filter
          (fun j => cohortAccession j.1.1 = some k') =
      (parentChoices lineage k').map fun p => ((c, o), p) := by
    have hleft := @filter_leftJoin _ _ _ _ (fun j : Row Cell × Row Cell => cohortAccession j.1)
      rowAccession (fun j => decide (cohortAccession j.1 = some k'))
      (innerJoin cohortAccession outcomeAccession input.cohortAccessions
        (eligibleOutcomes lineage input)) (lineage.parentRows .accessions)
    rw [hleft, h.filter_facts hc hck ho hk]
    unfold parentChoices
    split_ifs with hnone
    · simp [leftJoin, hparent, hnone]
    · simp [leftJoin, hparent, hnone]
  have hstatus := h.statuses o hout
  rw [h.accessions, List.filter_map]
  unfold deltaAccessionJoin
  rw [List.filter_filter]
  have hswap : ∀ j : (Row Cell × Row Cell) × Option (Row Cell),
      ((fun d => decide (rowAccession d = some k')) ∘ fun j =>
        deltaAccessionRow input.sourceIdentity j.1.1 j.1.2 j.2) j =
      decide (cohortAccession j.1.1 = some k') := by
    intro j
    rfl
  simp only [hswap]
  simp only [Bool.and_comm (decide (cohortAccession _ = some k'))]
  rw [← List.filter_filter, hjoin, List.filter_map, List.map_map]
  congr 1
  apply List.filter_congr
  intro p _
  cases input.refresh <;> simp [hstatus]

theorem exists_eligible (hd : d ∈ merge.deltaAccessions) : ∃ o ∈ eligibleOutcomes lineage input,
    ∃ k, outcomeAccession o = some k ∧ rowAccession d = some k ∧ rowDigest d = outcomeDigest o := by
  rw [h.accessions, List.mem_map] at hd
  obtain ⟨⟨⟨c, o⟩, p⟩, hj, rfl⟩ := hd
  have hleft := (List.mem_filter.mp hj).1
  obtain ⟨⟨c', o'⟩, hfacts, hin⟩ := List.mem_flatMap.mp hleft
  obtain ⟨-, ho, k, hck, hk⟩ := mem_innerJoin.mp hfacts
  have hsame : (c', o') = (c, o) := by
    split_ifs at hin with hnone
    · exact (congrArg Prod.fst (List.mem_singleton.mp hin)).symm
    · obtain ⟨_, _, heq⟩ := List.mem_map.mp hin
      exact congrArg Prod.fst heq
  obtain ⟨rfl, rfl⟩ := Prod.mk.inj hsame
  exact ⟨o', ho, k, hk, by simpa using hck, by simp⟩

theorem filter_deltaAccessions_eq_nil
    (hnone : ∀ o ∈ eligibleOutcomes lineage input, outcomeAccession o ≠ some k) :
    merge.deltaAccessions.filter (fun d => rowAccession d = some k) = [] := by
  rw [List.filter_eq_nil_iff]
  intro d hd hdk
  obtain ⟨o, ho, k', hk', hdk', -⟩ := h.exists_eligible hd
  obtain rfl := Option.some.inj (hdk'.symm.trans (of_decide_eq_true hdk))
  exact hnone o ho hk'

end Merged

end EdgarSec.Inventory
