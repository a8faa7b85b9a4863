import EdgarSec.Dag.KeyBounds
import EdgarSec.Dag.StagedParts

/-! The ranges of a relation's parts: cut between keys, in the order of the keys, and over the
budget only where one key is. -/

namespace EdgarSec.Dag
open Foundation Lib

variable {V : Type} [LinearOrder V]

def takesKey (text : ValueText V) (range : String × String) (k : V) : Bool :=
  match text.cast range.1, text.cast range.2 with
  | some lo, some hi => if range.1 = range.2 then k = lo else lo ≤ k ∧ k ≤ hi
  | _, _ => false

def rangeCount (text : ValueText V) (groups : List (V × Nat)) (range : String × String) : Nat :=
  ((groups.filter fun g => takesKey text range g.1).map Prod.snd).sum

structure KeyAligned (text : ValueText V) (maxRows : Int) (groups : List (V × Nat))
    (ranges : List (String × String)) : Prop where
  inOrder : ranges.Pairwise fun r s =>
    ∀ k l : V, takesKey text r k = true → takesKey text s l = true → k < l
  once : ∀ g ∈ groups, ranges.countP (fun r => takesKey text r g.1) = 1
  budget : ∀ r ∈ ranges, (rangeCount text groups r : Int) ≤ maxRows ∨
    ∃ g ∈ groups, maxRows < (g.2 : Int) ∧ groups.filter (fun h => takesKey text r h.1) = [g]

/-- The parts read for the ranges of a relation: its rows are shared out among them, each row
with a key to one part. -/
structure RowsOnce (spec : RelationSpec) (active : Table V) (tables : List (Table V)) : Prop where
  once : ∀ row ∈ active, (keyCell spec row).isSome = true →
    tables.countP (fun t => decide (row ∈ t)) = 1
  shared : (tables.flatten.filter fun row => (keyCell spec row).isSome).Perm
    (active.filter fun row => (keyCell spec row).isSome)

/-! ## Ranges -/

section Ranges
variable {text : ValueText V}

theorem takesKey_ends {c : List V} {lo hi : V} (hlo : c.head? = some lo)
    (hhi : c.getLast? = some hi) (k : V) :
    takesKey text (ends (c.map text.str)) k = decide (lo ≤ k ∧ k ≤ hi) := by
  have hends : ends (c.map text.str) = (text.str lo, text.str hi) := by
    simp [ends, List.headD_eq_head?_getD, List.getLastD_eq_getLast?, hlo, hhi]
  rw [hends]
  simp only [takesKey, text.cast_str]
  split
  · rename_i hsame
    have hlohi : lo = hi := by
      have hcasts := congrArg text.cast hsame
      rwa [text.cast_str, text.cast_str, Option.some.injEq] at hcasts
    subst hlohi
    apply decide_eq_decide.mpr
    rw [le_antisymm_iff, and_comm]
  · rfl

omit [LinearOrder V] in
theorem ends_of_ne_nil {c : List V} (hne : c ≠ []) :
    ∃ lo hi, c.head? = some lo ∧ c.getLast? = some hi ∧ lo ∈ c ∧ hi ∈ c :=
  ⟨c.head hne, c.getLast hne, List.head?_eq_some_head hne, List.getLast?_eq_some_getLast hne,
    List.head_mem hne, List.getLast_mem hne⟩

theorem takesKey_iff_mem {chunks : List (List V)} (hsorted : chunks.flatten.Pairwise (· < ·))
    {c : List V} (hc : c ∈ chunks) (hne : c ≠ []) {k : V} (hk : k ∈ chunks.flatten) :
    takesKey text (ends (c.map text.str)) k = decide (k ∈ c) := by
  obtain ⟨lo, hi, hlo, hhi, _, _⟩ := ends_of_ne_nil hne
  rw [takesKey_ends hlo hhi]
  exact decide_eq_decide.mpr (mem_chunk_iff_between hsorted hc hlo hhi hk)

theorem pairwise_takesKey {chunks : List (List V)} (hsorted : chunks.flatten.Pairwise (· < ·))
    (hne : ∀ c ∈ chunks, c ≠ []) :
    (chunks.map fun c => ends (c.map text.str)).Pairwise fun r s =>
      ∀ k l : V, takesKey text r k = true → takesKey text s l = true → k < l := by
  apply List.pairwise_map.mpr
  have hruns := (List.pairwise_flatten.mp hsorted).2
  refine hruns.imp_of_mem fun {a b} ha hb hab k l hk hl => ?_
  obtain ⟨_, hi, halo, hahi, _, hhi⟩ := ends_of_ne_nil (hne a ha)
  obtain ⟨lo, _, hblo, hbhi, hlo, _⟩ := ends_of_ne_nil (hne b hb)
  rw [takesKey_ends halo hahi] at hk
  rw [takesKey_ends hblo hbhi] at hl
  calc k ≤ hi := (of_decide_eq_true hk).2
    _ < lo := hab hi hhi lo hlo
    _ ≤ l := (of_decide_eq_true hl).1

theorem keyAligned_runs {maxRows : Int} {runs : List (List (V × Nat))}
    (hsorted : (runs.flatten.map Prod.fst).Pairwise (· < ·))
    (hruns : ∀ run ∈ runs, run ≠ [] ∧ Within maxRows run) :
    KeyAligned text maxRows runs.flatten
      (runs.map fun run => ends (run.map fun g => text.str g.1)) := by
  have hchunks : runs.flatten.map Prod.fst = (runs.map fun run => run.map Prod.fst).flatten :=
    List.map_flatten
  have hnodup : (runs.flatten.map Prod.fst).Nodup := hsorted.imp ne_of_lt
  have hranges : (runs.map fun run => ends (run.map fun g => text.str g.1)) =
      (runs.map fun run => run.map Prod.fst).map fun c => ends (c.map text.str) := by
    simp only [List.map_map, Function.comp_def]
  have hne : ∀ c ∈ runs.map fun run => run.map Prod.fst, c ≠ [] := by
    intro c hc
    obtain ⟨run, hrun, rfl⟩ := List.mem_map.mp hc
    simpa using (hruns run hrun).1
  have htakes : ∀ run ∈ runs, ∀ g ∈ runs.flatten,
      takesKey text (ends (run.map fun g => text.str g.1)) g.1 = decide (g ∈ run) := by
    intro run hrun g hg
    have hown := @takesKey_iff_mem V _ text _ (hchunks ▸ hsorted) (run.map Prod.fst)
      (List.mem_map_of_mem hrun) (hne _ (List.mem_map_of_mem hrun)) g.1
      (hchunks ▸ List.mem_map_of_mem hg)
    rw [List.map_map] at hown
    rw [Function.comp_def] at hown
    rw [hown]
    apply decide_eq_decide.mpr
    constructor
    · -- keys are distinct, so a group is known by its key
      intro hin
      obtain ⟨h, hh, hkey⟩ := List.mem_map.mp hin
      have hsame : h = g := List.inj_on_of_nodup_map hnodup (List.mem_flatten_of_mem hrun hh) hg hkey
      exact hsame ▸ hh
    · exact fun hin => List.mem_map_of_mem hin
  constructor
  · rw [hranges]
    exact pairwise_takesKey (hchunks ▸ hsorted) hne
  · intro g hg
    rw [List.countP_map, ← countP_mem_chunk (hnodup.of_map _) hg]
    apply List.countP_congr
    intro run hrun
    rw [Function.comp_apply, htakes run hrun g hg]
    simp only [decide_eq_true_eq]
  · intro r hr
    obtain ⟨run, hrun, rfl⟩ := List.mem_map.mp hr
    have hfilter : runs.flatten.filter
        (fun g => takesKey text (ends (run.map fun g => text.str g.1)) g.1) = run := by
      apply Eq.trans _ (filter_mem_chunk (hnodup.of_map _) hrun)
      exact List.filter_congr fun g hg =>
        (htakes run hrun g hg).trans (decide_eq_decide.mpr Iff.rfl)
    rw [rangeCount, hfilter]
    rcases (hruns run hrun).2 with hfits | ⟨g, hg⟩
    · exact Or.inl hfits
    · by_cases hover : maxRows < (g.2 : Int)
      · exact Or.inr ⟨g, List.mem_flatten_of_mem hrun (by rw [hg]; exact List.mem_singleton_self g),
          hover, hg⟩
      · left
        rw [hg]
        simpa using hover

end Ranges

/-! ## Rows -/

theorem rowsOnce_whole (spec : RelationSpec) (active : Table V) : RowsOnce spec active [active] := by
  constructor
  · intro row hrow _
    simp [hrow]
  · rw [List.flatten_singleton]

theorem rowsOnce_chunks {spec : RelationSpec} {active : Table V} {chunks : List (List V)}
    (hnodup : chunks.flatten.Nodup)
    (hkeys : ∀ row ∈ active, ∀ k, keyCell spec row = some k → k ∈ chunks.flatten) :
    RowsOnce spec active
      (chunks.map fun c => active.filter fun row => (keyCell spec row).any (· ∈ c)) := by
  constructor
  · intro row hrow hkey
    obtain ⟨k, hk⟩ := Option.isSome_iff_exists.mp hkey
    rw [List.countP_map, ← countP_mem_chunk hnodup (hkeys row hrow k hk)]
    apply List.countP_congr
    intro c _
    simp [hrow, hk]
  · rw [← List.flatMap_def]
    have hshare := (flatMap_filter_perm (keyCell spec) hnodup active).filter
      (fun row => (keyCell spec row).isSome)
    apply hshare.trans
    rw [List.filter_filter]
    refine List.Perm.of_eq (List.filter_congr fun row hrow => ?_)
    cases hk : keyCell spec row with
    | none => simp
    | some k => simpa using hkeys row hrow k hk

theorem exists_rowsOnce (choice : Choice) (text : ValueText V) (spec : RelationSpec)
    (active : Table V) :
    ∃ tables, (partRanges choice text spec active).mapM (selectRange text spec active) = .ok tables ∧
      RowsOnce spec active tables := by
  rcases partRanges_tables choice text spec active with hwhole | hruns
  · refine ⟨[active], ?_, rowsOnce_whole spec active⟩
    rw [hwhole]
    rfl
  · obtain ⟨chunks, _, hsorted, hkeys, hne, heq⟩ := hruns
    refine ⟨_, ?_, rowsOnce_chunks (hsorted.imp ne_of_lt) hkeys⟩
    rw [heq, List.mapM_map]
    exact mapM_eq_ok_map fun c hc => selectRange_chunk hsorted hkeys hc (hne c hc)

/-- Groups in the order of their keys are cut between keys, in order, each key in one range, and
a range is over the budget only where it is one key that is; with these ranges each row that has
a key goes to one part. -/
theorem key_ranges_aligned (text : ValueText V) (maxRows : Int) (groups : List (V × Nat))
    (hsorted : (groups.map Prod.fst).Pairwise (· < ·)) (hpos : ∀ g ∈ groups, 0 < g.2) :
    KeyAligned text maxRows groups
      (keyRanges maxRows [] 0 (groups.map fun g => (text.str g.1, g.2))) ∧
    ∀ (choice : Choice) (spec : RelationSpec) (active : Table V), ∃ tables,
      (partRanges choice text spec active).mapM (selectRange text spec active) = .ok tables ∧
        RowsOnce spec active tables := by
  refine ⟨?_, fun choice spec active => exists_rowsOnce choice text spec active⟩
  obtain ⟨runs, hflat, hruns, heq⟩ := exists_runs_keyRanges maxRows text.str groups [] hpos
    fun hnil => absurd rfl hnil
  rw [List.nil_append] at hflat
  rw [List.map_nil, List.map_nil, List.sum_nil] at heq
  subst hflat
  rw [heq]
  exact keyAligned_runs hsorted hruns

theorem key_ranges_aligned_overfull :
    keyRanges 3 [] 0 [("1", 2), ("2", 1), ("3", 7), ("4", 1)] = [("1", "2"), ("3", "3"), ("4", "4")] ∧
      KeyAligned natText 3 [(1, 2), (2, 1), (3, 7), (4, 1)]
        (keyRanges 3 [] 0 ([(1, 2), (2, 1), (3, 7), (4, 1)].map fun g => (natText.str g.1, g.2))) :=
  ⟨by decide +kernel, (key_ranges_aligned natText 3 [(1, 2), (2, 1), (3, 7), (4, 1)]
    (by decide +kernel) (by decide +kernel)).1⟩

end EdgarSec.Dag
