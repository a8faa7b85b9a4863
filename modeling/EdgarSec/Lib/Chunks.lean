import Mathlib

/-! Sorted keys cut into runs: a run is the interval between its ends, the rows of the runs
are the rows of the keys. -/

namespace EdgarSec.Lib

variable {α κ : Type}

theorem filter_append_filter_perm (p q : α → Bool) (l : List α)
    (h : ∀ a ∈ l, ¬ (p a = true ∧ q a = true)) :
    (l.filter p ++ l.filter q).Perm (l.filter fun a => p a || q a) := by
  induction l with
  | nil => exact List.Perm.refl _
  | cons a l ih =>
    have hrest := ih fun b hb => h b (List.mem_cons_of_mem a hb)
    have ha := h a List.mem_cons_self
    cases hp : p a with
    | true =>
      have hq : q a = false := Bool.eq_false_iff.mpr fun hq => ha ⟨hp, hq⟩
      simpa [hp, hq] using hrest
    | false =>
      cases hq : q a with
      | true =>
        simp only [List.filter_cons, hp, hq, Bool.false_or, if_true, Bool.false_eq_true, if_false]
        exact List.perm_middle.trans (hrest.cons a)
      | false => simpa [hp, hq] using hrest

section Rows
variable [DecidableEq κ]

theorem flatMap_filter_perm (key : α → Option κ) {chunks : List (List κ)}
    (h : chunks.flatten.Nodup) (rows : List α) :
    (chunks.flatMap fun c => rows.filter fun r => (key r).any (· ∈ c)).Perm
      (rows.filter fun r => (key r).any (· ∈ chunks.flatten)) := by
  induction chunks with
  | nil => simp
  | cons c chunks ih =>
    rw [List.flatten_cons, List.nodup_append] at h
    obtain ⟨_, hrest, hdisj⟩ := h
    rw [List.flatMap_cons]
    apply ((ih hrest).append_left _).trans
    apply (filter_append_filter_perm _ _ rows ?_).trans
    · refine List.Perm.of_eq (List.filter_congr fun r _ => ?_)
      cases key r <;> simp
    · rintro r _ ⟨hc, hcs⟩
      obtain ⟨k, hk, hin⟩ := (Option.any_eq_true _ _).mp hc
      obtain ⟨k', hk', hin'⟩ := (Option.any_eq_true _ _).mp hcs
      obtain rfl : k = k' := Option.some.inj (hk.symm.trans hk')
      exact hdisj k (of_decide_eq_true hin) k (of_decide_eq_true hin') rfl

theorem flatMap_filter_subperm (key : α → Option κ) {chunks : List (List κ)}
    (h : chunks.flatten.Nodup) (rows : List α) :
    (chunks.flatMap fun c => rows.filter fun r => (key r).any (· ∈ c)).Subperm rows :=
  (flatMap_filter_perm key h rows).subperm.trans List.filter_sublist.subperm

theorem sum_length_filter_le (key : α → κ) {keys : List κ} (h : keys.Nodup) (rows : List α) :
    (keys.map fun k => (rows.filter fun r => key r = k).length).sum ≤ rows.length := by
  have hchunks : (keys.map fun k => [k]).flatten.Nodup := by
    rwa [← List.flatMap_def, List.flatMap_singleton']
  have hsub := (flatMap_filter_subperm (fun r => some (key r)) hchunks rows).length_le
  rw [List.length_flatMap, List.map_map] at hsub
  simpa [Function.comp_def] using hsub

theorem countP_mem_chunk {chunks : List (List κ)} (h : chunks.flatten.Nodup) {k : κ}
    (hk : k ∈ chunks.flatten) : chunks.countP (fun c => decide (k ∈ c)) = 1 := by
  induction chunks with
  | nil => cases hk
  | cons c chunks ih =>
    rw [List.flatten_cons] at h hk
    obtain ⟨_, hrest, hdisj⟩ := List.nodup_append.mp h
    rw [List.countP_cons]
    by_cases hc : k ∈ c
    · have hnone : chunks.countP (fun c => decide (k ∈ c)) = 0 := by
        apply List.countP_eq_zero.mpr
        intro d hd hin
        exact hdisj k hc k (List.mem_flatten_of_mem hd (of_decide_eq_true hin)) rfl
      rw [hnone, if_pos (decide_eq_true hc)]
    · have hin : k ∈ chunks.flatten := (List.mem_append.mp hk).resolve_left hc
      rw [ih hrest hin, if_neg (by simpa using hc)]

theorem filter_mem_chunk {chunks : List (List κ)} (h : chunks.flatten.Nodup) {c : List κ}
    (hc : c ∈ chunks) : chunks.flatten.filter (fun k => decide (k ∈ c)) = c := by
  obtain ⟨pre, post, rfl⟩ := List.append_of_mem hc
  rw [List.flatten_append, List.flatten_cons] at h ⊢
  obtain ⟨_, hright, hpre⟩ := List.nodup_append.mp h
  obtain ⟨_, _, hpost⟩ := List.nodup_append.mp hright
  have hbefore : pre.flatten.filter (fun k => decide (k ∈ c)) = [] := by
    apply List.filter_eq_nil_iff.mpr
    intro k hk hin
    exact hpre k hk k (List.mem_append_left _ (of_decide_eq_true hin)) rfl
  have hafter : post.flatten.filter (fun k => decide (k ∈ c)) = [] := by
    apply List.filter_eq_nil_iff.mpr
    intro k hk hin
    exact hpost k (of_decide_eq_true hin) k hk rfl
  have hown : c.filter (fun k => decide (k ∈ c)) = c :=
    List.filter_eq_self.mpr fun k hk => decide_eq_true hk
  rw [List.filter_append, List.filter_append, hbefore, hafter, hown, List.nil_append,
    List.append_nil]

end Rows

section Intervals
variable [LinearOrder κ]

theorem mem_chunk_iff_between {chunks : List (List κ)} (h : chunks.flatten.Pairwise (· < ·))
    {c : List κ} (hc : c ∈ chunks) {lo hi : κ} (hlo : c.head? = some lo) (hhi : c.getLast? = some hi)
    {k : κ} (hk : k ∈ chunks.flatten) : lo ≤ k ∧ k ≤ hi ↔ k ∈ c := by
  obtain ⟨pre, post, rfl⟩ := List.append_of_mem hc
  rw [List.flatten_append, List.flatten_cons] at h hk
  obtain ⟨_, hcpost, hpre⟩ := List.pairwise_append.mp h
  obtain ⟨hsorted, _, hpost⟩ := List.pairwise_append.mp hcpost
  have hloc : lo ∈ c := List.mem_of_mem_head? hlo
  have hhic : hi ∈ c := List.mem_of_getLast? hhi
  constructor
  · rintro ⟨hlok, hkhi⟩
    rcases List.mem_append.mp hk with hk | hk
    · exact absurd (hpre k hk lo (List.mem_append_left _ hloc)) (not_lt.mpr hlok)
    · rcases List.mem_append.mp hk with hk | hk
      · exact hk
      · exact absurd (hpost hi hhic k hk) (not_lt.mpr hkhi)
  · intro hkc
    constructor
    · obtain ⟨rest, rfl⟩ : ∃ rest, c = lo :: rest := by
        cases c with
        | nil => cases hlo
        | cons a rest => exact ⟨rest, by rw [Option.some.inj hlo]⟩
      rcases List.mem_cons.mp hkc with rfl | hin
      · exact le_refl _
      · exact ((List.pairwise_cons.mp hsorted).1 k hin).le
    · obtain ⟨rest, rfl⟩ := List.getLast?_eq_some_iff.mp hhi
      rcases List.mem_append.mp hkc with hin | hin
      · exact ((List.pairwise_append.mp hsorted).2.2 k hin hi List.mem_cons_self).le
      · exact (List.mem_singleton.mp hin).le

end Intervals

/-! ## Sublists and totals -/

theorem sum_map_le_of_sublist {l l' : List α} (f : α → Nat) (h : l.Sublist l') :
    (l.map f).sum ≤ (l'.map f).sum :=
  (h.map f).sum_le_sum fun _ _ => Nat.zero_le _

theorem perm_of_subperm_of_sum_eq {l l' : List α} {f : α → Nat} (hpos : ∀ a, 0 < f a)
    (h : l.Subperm l') (hsum : (l'.map f).sum ≤ (l.map f).sum) : l.Perm l' := by
  obtain ⟨m, hm, hsub⟩ := h
  have hlm : (m.map f).sum = (l.map f).sum := (hm.map f).sum_eq
  have hkey : ∀ {m l' : List α}, m.Sublist l' → (l'.map f).sum ≤ (m.map f).sum → m = l' := by
    intro m l' hsub
    induction hsub with
    | slnil => exact fun _ => rfl
    | @cons m l' a hsub ih =>
      intro hle
      have hmono := sum_map_le_of_sublist f hsub
      have ha := hpos a
      rw [List.map_cons, List.sum_cons] at hle
      omega
    | @cons_cons m l' a hsub ih =>
      intro hle
      rw [List.map_cons, List.map_cons, List.sum_cons, List.sum_cons] at hle
      rw [ih (by omega)]
  exact hm.symm.trans (List.Perm.of_eq (hkey hsub (by rw [hlm]; exact hsum)))

theorem sum_map_le_of_subperm {l l' : List α} (f : α → Nat) (h : l.Subperm l') :
    (l.map f).sum ≤ (l'.map f).sum := by
  obtain ⟨m, hm, hsub⟩ := h
  rw [← (hm.map f).sum_eq]
  exact sum_map_le_of_sublist f hsub

end EdgarSec.Lib
