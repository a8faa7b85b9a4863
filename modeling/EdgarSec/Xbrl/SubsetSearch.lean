import EdgarSec.Xbrl.PartitionVerdicts

/-! What one search over a list of members returns: each set once, and all of them unless there
are as many as wanted. -/

namespace EdgarSec.Xbrl
open Lib

variable {values : Dict String ℚ} {total : ℚ} {want : Nat}

/-! ## Each set once -/

theorem nodup_record {s : Search} (h : s.found.Nodup) (chosen : Part) (current : ℚ) :
    (s.record total chosen current).found.Nodup := by
  unfold Search.record
  split_ifs with hnew
  · apply h.append (List.nodup_singleton _)
    intro p hp hlast
    exact hnew.2.2 (List.mem_singleton.mp hlast ▸ hp)
  · exact h

theorem nodup_visit (members : List String) : ∀ (chosen : Part) (current : ℚ) (s : Search),
    s.found.Nodup → (visit values total want members chosen current s).found.Nodup := by
  induction members with
  | nil =>
    intro chosen current s h
    unfold visit
    dsimp only
    rw [ite_self]
    split_ifs
    · exact h
    · exact h
    · exact @nodup_record total s.tick h chosen current
  | cons member rest ih =>
    intro chosen current s h
    have hown : (s.tick.record total chosen current).found.Nodup :=
      @nodup_record total s.tick h chosen current
    unfold visit
    dsimp only
    split_ifs
    · exact h
    · exact h
    · exact hown
    · exact hown
    · exact ih _ _ _ (ih _ _ _ hown)

/-! ## All of them, or enough -/

/-- Within its budget the search returns distinct parts, each a selection that sums to the total,
and as many as wanted or all; with distinct members these are the sets of members. The bound on
what is left passes no selection by that sums to the total. -/
theorem collect_complete (values : Dict String ℚ) (total : ℚ) (want : Nat) (members : List String)
    (state : Search) (hcapped : (collectPartitions values total want members state).capped = false) :
    (collectPartitions values total want members state).found.Nodup ∧
    (∀ p ∈ (collectPartitions values total want members state).found, ∃ t, t.Sublist members ∧
      Completes values total [] 0 t ∧ p = sortedNames t) ∧
    (want ≤ (collectPartitions values total want members state).found.length ∨
      ∀ t, t.Sublist members → Completes values total [] 0 t →
        sortedNames t ∈ (collectPartitions values total want members state).found) ∧
    (members.Nodup → SetsFound values total want members
      (collectPartitions values total want members state)) ∧
    ∀ (rest : List String) (current : ℚ), |total - current| - suffix values rest > tolerance →
      ∀ t, t.Sublist rest → ¬ |total - (current + sumOf values t)| ≤ tolerance := by
  have hvisited := @collect_visited values total want members state
  refine ⟨nodup_visit members [] 0 _ List.nodup_nil, ?_, ?_,
    fun hnodup => setsFound_collect hnodup state, ?_⟩
  · intro p hp
    obtain ⟨new, hnew, hall⟩ := hvisited.found
    rw [hnew] at hp
    exact hall p (by simpa using hp)
  · by_cases hlength : want ≤ (collectPartitions values total want members state).found.length
    · exact Or.inl hlength
    · exact Or.inr fun t ht hcompletes =>
        hvisited.complete hcapped (not_le.mp hlength) t ht hcompletes
  · intro rest current hpruned t ht hclose
    have hnone := @not_completes_of_pruned values total rest ["some"] current hpruned t ht
    exact hnone ⟨by simp, hclose⟩

def cancellingValues : Dict String ℚ := ⟨[("a", 5), ("b", -5), ("c", 7)], by decide +kernel⟩

theorem collect_complete_cancelling :
    (collectPartitions cancellingValues 7 4 ["a", "b", "c"] ⟨0, false, []⟩).found =
      [["a", "b", "c"], ["c"]] ∧
    ∀ S, SumsWithin cancellingValues 7 ["a", "b", "c"] S → partOf S ∈ [["a", "b", "c"], ["c"]] := by
  have hfound : (collectPartitions cancellingValues 7 4 ["a", "b", "c"] ⟨0, false, []⟩).capped = false ∧
      (collectPartitions cancellingValues 7 4 ["a", "b", "c"] ⟨0, false, []⟩).found =
        [["a", "b", "c"], ["c"]] := by decide +kernel
  have hsets := (collect_complete cancellingValues 7 4 ["a", "b", "c"] ⟨0, false, []⟩ hfound.1).2.2.2.1
    (by decide)
  refine ⟨hfound.2, ?_⟩
  rcases hsets.complete hfound.1 with hfull | hall
  · rw [hfound.2] at hfull
    exact absurd hfull (by decide)
  · rw [hfound.2] at hall
    exact hall

end EdgarSec.Xbrl
