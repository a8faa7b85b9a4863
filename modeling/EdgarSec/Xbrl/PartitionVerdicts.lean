import EdgarSec.Xbrl.Partitions

/-! What the verdicts of `classify_partitions` say about the sets of members that sum to the
total, and when. -/

namespace EdgarSec.Xbrl
open Lib

section FromKeys
variable {α : Type} [DecidableEq α] {l : List α} {a b : α}

@[simp] theorem mem_fromKeys : a ∈ fromKeys l ↔ a ∈ l := by
  induction l with
  | nil => simp [fromKeys]
  | cons b l ih =>
    by_cases hab : a = b
    · simp [fromKeys, hab]
    · simp [fromKeys, hab, ih]

theorem nodup_fromKeys (l : List α) : (fromKeys l).Nodup := by
  induction l with
  | nil => exact List.nodup_nil
  | cons b l ih =>
    rw [fromKeys, List.nodup_cons]
    exact ⟨by simp, ih.filter _⟩

end FromKeys

/-! ## The subset search -/

section Values
variable {values : Dict String ℚ} {total : ℚ} {want : Nat}

theorem sumOf_perm {s t : List String} (h : s.Perm t) : sumOf values s = sumOf values t :=
  (h.map _).sum_eq

theorem abs_sumOf_le_suffix (t : List String) : |sumOf values t| ≤ suffix values t := by
  induction t with
  | nil => simp [sumOf, suffix]
  | cons m t ih =>
    have hsum : sumOf values (m :: t) = value values m + sumOf values t := by simp [sumOf]
    have hsuffix : suffix values (m :: t) = |value values m| + suffix values t := by simp [suffix]
    rw [hsum, hsuffix]
    exact (abs_add_le _ _).trans (by linarith)

theorem suffix_le_of_sublist {s t : List String} (h : s.Sublist t) :
    suffix values s ≤ suffix values t := by
  apply (h.map fun member => |value values member|).sum_le_sum
  intro a ha
  obtain ⟨m, _, rfl⟩ := List.mem_map.mp ha
  exact abs_nonneg _

/-- A selection from the list completes what is chosen to a partition. -/
def Completes (values : Dict String ℚ) (total : ℚ) (chosen : Part) (current : ℚ) (t : List String) :
    Prop :=
  chosen ++ t ≠ [] ∧ |total - (current + sumOf values t)| ≤ tolerance

theorem not_completes_of_pruned {members : List String} {chosen : Part} {current : ℚ}
    (h : |total - current| - suffix values members > tolerance) {t : List String}
    (ht : t.Sublist members) : ¬ Completes values total chosen current t := by
  intro ⟨_, hclose⟩
  have hsum := (@abs_sumOf_le_suffix values t).trans (suffix_le_of_sublist ht)
  have hsplit : total - current = (total - (current + sumOf values t)) + sumOf values t := by ring
  have hfar : |total - current| ≤ |total - (current + sumOf values t)| + |sumOf values t| := by
    rw [hsplit]
    exact abs_add_le _ _
  linarith

namespace Search

@[simp] theorem found_tick (s : Search) : s.tick.found = s.found := rfl

theorem capped_record (s : Search) (chosen : Part) (current : ℚ) :
    (s.record total chosen current).capped = s.capped := by
  unfold record
  split_ifs <;> rfl

theorem found_record (s : Search) (chosen : Part) (current : ℚ) :
    ∃ new, (s.record total chosen current).found = s.found ++ new ∧
      ∀ p ∈ new, p = sortedNames chosen ∧ Completes values total chosen current [] := by
  unfold record
  split_ifs with h
  · refine ⟨[sortedNames chosen], rfl, ?_⟩
    intro p hp
    have hclose : |total - current| ≤ tolerance := of_decide_eq_true h.2.1
    exact ⟨List.mem_singleton.mp hp, by simpa using h.1, by simpa [sumOf] using hclose⟩
  · exact ⟨[], by simp, by simp⟩

theorem mem_found_record {s : Search} {chosen : Part} {current : ℚ}
    (h : Completes values total chosen current []) :
    sortedNames chosen ∈ (s.record total chosen current).found := by
  unfold record
  split_ifs with hnew
  · simp
  · by_contra hmem
    apply hnew
    refine ⟨by simpa using h.1, decide_eq_true ?_, hmem⟩
    simpa [sumOf] using h.2

end Search

structure Visited (values : Dict String ℚ) (total : ℚ) (want : Nat) (members : List String)
    (chosen : Part) (current : ℚ) (s s' : Search) : Prop where
  found : ∃ new, s'.found = s.found ++ new ∧ ∀ p ∈ new, ∃ t, t.Sublist members ∧
    Completes values total chosen current t ∧ p = sortedNames (chosen ++ t)
  capped : s'.capped = false → s.capped = false
  complete : s'.capped = false → s'.found.length < want → ∀ t, t.Sublist members →
    Completes values total chosen current t → sortedNames (chosen ++ t) ∈ s'.found

theorem visited_refl {members : List String} {chosen : Part} {current : ℚ} {s : Search}
    (h : s.capped = true ∨ want ≤ s.found.length) :
    Visited values total want members chosen current s s := by
  refine ⟨⟨[], by simp, by simp⟩, id, ?_⟩
  intro hcapped hlength
  rcases h with h | h
  · simp [h] at hcapped
  · omega

theorem visited_record {members : List String} {chosen : Part} {current : ℚ} {s s' : Search}
    (hfound : s.found = s'.found) (hcapped : s'.capped = false → s.capped = false)
    (hrest : (s'.record total chosen current).found.length < want →
      ∀ t, t.Sublist members → Completes values total chosen current t → t = []) :
    Visited values total want members chosen current s (s'.record total chosen current) := by
  refine ⟨?_, ?_, ?_⟩
  · obtain ⟨new, hnew, hall⟩ := @Search.found_record values total s' chosen current
    refine ⟨new, by rw [hnew, hfound], ?_⟩
    intro p hp
    obtain ⟨rfl, hcompletes⟩ := hall p hp
    exact ⟨[], List.nil_sublist _, hcompletes, by simp⟩
  · rw [Search.capped_record]
    exact hcapped
  · intro _ hlength t ht hcompletes
    obtain rfl := hrest hlength t ht hcompletes
    rw [List.append_nil]
    exact Search.mem_found_record hcompletes

theorem Visited.cons {member : String} {rest : List String} {chosen : Part} {current : ℚ}
    {s s1 s2 s3 : Search} (hrecord : Visited values total want [] chosen current s s1)
    (hchosen : Visited values total want rest (chosen ++ [member]) (current + value values member) s1 s2)
    (hleft : Visited values total want rest chosen current s2 s3) :
    Visited values total want (member :: rest) chosen current s s3 := by
  have hstep : ∀ t, Completes values total (chosen ++ [member]) (current + value values member) t ↔
      Completes values total chosen current (member :: t) := by
    intro t
    have hsum : sumOf values (member :: t) = value values member + sumOf values t := by simp [sumOf]
    simp [Completes, hsum, add_assoc]
  obtain ⟨new1, hnew1, hall1⟩ := hrecord.found
  obtain ⟨new2, hnew2, hall2⟩ := hchosen.found
  obtain ⟨new3, hnew3, hall3⟩ := hleft.found
  refine ⟨⟨new1 ++ (new2 ++ new3), by simp [hnew1, hnew2, hnew3], ?_⟩, ?_, ?_⟩
  · intro p hp
    rcases List.mem_append.mp hp with hp | hp
    · obtain ⟨t, ht, hcompletes, rfl⟩ := hall1 p hp
      exact ⟨t, ht.trans (List.nil_sublist _), hcompletes, rfl⟩
    · rcases List.mem_append.mp hp with hp | hp
      · obtain ⟨t, ht, hcompletes, rfl⟩ := hall2 p hp
        exact ⟨member :: t, ht.cons_cons _, (hstep t).mp hcompletes, by simp⟩
      · obtain ⟨t, ht, hcompletes, rfl⟩ := hall3 p hp
        exact ⟨t, ht.trans (List.sublist_cons_self _ _), hcompletes, rfl⟩
  · intro hcapped
    exact hrecord.capped (hchosen.capped (hleft.capped hcapped))
  · intro hcapped hlength t ht hcompletes
    rcases List.sublist_cons_iff.mp ht with ht | ⟨r, rfl, hr⟩
    · exact hleft.complete hcapped hlength t ht hcompletes
    · have hearlier : s2.found.length < want := by
        rw [hnew3, List.length_append] at hlength
        omega
      have hmem := hchosen.complete (hleft.capped hcapped) hearlier r hr ((hstep r).mpr hcompletes)
      rw [hnew3]
      apply List.mem_append_left
      simpa using hmem

theorem visit_visited (members : List String) : ∀ (chosen : Part) (current : ℚ) (s : Search),
    Visited values total want members chosen current s
      (visit values total want members chosen current s) := by
  have hcapped : ∀ s : Search, ¬ (s.capped = true ∨ want ≤ s.found.length) → s.capped = false := by
    intro s h
    simpa using (not_or.mp h).1
  induction members with
  | nil =>
    intro chosen current s
    unfold visit
    dsimp only
    rw [ite_self]
    split_ifs with hstop hcap
    · exact visited_refl hstop
    · exact ⟨⟨[], by simp, by simp⟩, by simp [hcap], by simp [hcap]⟩
    · refine visited_record rfl (fun _ => hcapped s hstop) ?_
      intro _ t ht _
      exact List.sublist_nil.mp ht
  | cons member rest ih =>
    intro chosen current s
    unfold visit
    dsimp only
    split_ifs with hstop hcap hfull hprune
    · exact visited_refl hstop
    · exact ⟨⟨[], by simp, by simp⟩, by simp [hcap], by simp [hcap]⟩
    · refine visited_record rfl (fun _ => hcapped s hstop) ?_
      intro hlength
      omega
    · refine visited_record rfl (fun _ => hcapped s hstop) ?_
      intro _ t ht hcompletes
      exact absurd hcompletes (not_completes_of_pruned hprune ht)
    · refine Visited.cons ?_ (ih _ _ _) (ih _ _ _)
      refine visited_record rfl (fun _ => hcapped s hstop) ?_
      intro _ t ht _
      exact List.sublist_nil.mp ht

/-! ## Sets of members -/

def nonzeroMembers (values : Dict String ℚ) : Finset String :=
  values.keys.toFinset.filter fun member => value values member ≠ 0

def IsPartition (values : Dict String ℚ) (total : ℚ) (S : Finset String) : Prop :=
  S ⊆ nonzeroMembers values ∧ S.Nonempty ∧ |total - ∑ m ∈ S, value values m| ≤ tolerance

def partOf (S : Finset String) : Part := S.sort (· ≤ ·)

@[simp] theorem mem_partOf {S : Finset String} {m : String} : m ∈ partOf S ↔ m ∈ S := Finset.mem_sort _

@[simp] theorem toFinset_partOf (S : Finset String) : (partOf S).toFinset = S := Finset.sort_toFinset S _

theorem partOf_injective : Function.Injective partOf := by
  intro S T h
  rw [← toFinset_partOf S, h, toFinset_partOf]

theorem sumOf_partOf (S : Finset String) : sumOf values (partOf S) = ∑ m ∈ S, value values m := by
  have hsum := List.sum_toFinset (value values) (Finset.sort_nodup S (· ≤ ·))
  rw [Finset.sort_toFinset] at hsum
  exact hsum.symm

theorem sortedNames_perm (t : List String) : (sortedNames t).Perm t := List.perm_insertionSort _ t

theorem sortedNames_eq_partOf {t : List String} (h : t.Nodup) : sortedNames t = partOf t.toFinset := by
  have hnodup : (sortedNames t).Nodup := (sortedNames_perm t).nodup_iff.mpr h
  have hset : (sortedNames t).toFinset = t.toFinset := List.toFinset_eq_of_perm _ _ (sortedNames_perm t)
  rw [partOf, ← hset]
  exact ((List.toFinset_sort _ hnodup).mpr (List.pairwise_insertionSort _ t)).symm

theorem IsPartition.partOf_ne_nil {S : Finset String} (h : IsPartition values total S) :
    partOf S ≠ [] := by
  obtain ⟨m, hm⟩ := h.2.1
  exact List.ne_nil_of_mem (mem_partOf.mpr hm)

/-- A nonempty set of members of the list that sums to the total, within the tolerance. -/
def SumsWithin (values : Dict String ℚ) (total : ℚ) (members : List String) (S : Finset String) : Prop :=
  S ⊆ members.toFinset ∧ S.Nonempty ∧ |total - ∑ m ∈ S, value values m| ≤ tolerance

theorem sumsWithin_toFinset {members t : List String} (hnodup : members.Nodup) (ht : t.Sublist members) :
    SumsWithin values total members t.toFinset ↔ Completes values total [] 0 t := by
  have hsub : t.toFinset ⊆ members.toFinset := by
    intro m hm
    exact List.mem_toFinset.mpr (ht.subset (List.mem_toFinset.mp hm))
  have hsum : ∑ m ∈ t.toFinset, value values m = sumOf values t :=
    List.sum_toFinset _ (hnodup.sublist ht)
  simp [SumsWithin, Completes, hsub, hsum, List.toFinset_nonempty_iff]

def Finer (S T : Finset String) : Prop := finerFirst (partOf S) (partOf T)

/-! ## All partitions are found -/

theorem collect_visited (members : List String) (state : Search) :
    Visited values total want members [] 0 { state with found := [] }
      (collectPartitions values total want members state) :=
  visit_visited members [] 0 _

structure SetsFound (values : Dict String ℚ) (total : ℚ) (want : Nat) (members : List String)
    (s : Search) : Prop where
  sound : ∀ p ∈ s.found, ∃ S, SumsWithin values total members S ∧ p = partOf S
  complete : s.capped = false → want ≤ s.found.length ∨
    ∀ S, SumsWithin values total members S → partOf S ∈ s.found

theorem setsFound_collect {members : List String} (hnodup : members.Nodup) (state : Search) :
    SetsFound values total want members (collectPartitions values total want members state) := by
  have hvisited := @collect_visited values total want members state
  constructor
  · intro p hp
    obtain ⟨new, hnew, hall⟩ := hvisited.found
    rw [hnew] at hp
    obtain ⟨t, ht, hcompletes, rfl⟩ := hall p (by simpa using hp)
    refine ⟨t.toFinset, (sumsWithin_toFinset hnodup ht).mpr hcompletes, ?_⟩
    rw [List.nil_append]
    exact sortedNames_eq_partOf (hnodup.sublist ht)
  · intro hcapped
    by_cases hlength : want ≤ (collectPartitions values total want members state).found.length
    · exact Or.inl hlength
    · right
      intro S hS
      -- the set is a selection from the list
      have ht : (members.filter (· ∈ S)).Sublist members := List.filter_sublist
      have htS : (members.filter (· ∈ S)).toFinset = S := by
        ext m
        have hm : m ∈ S → m ∈ members := fun hmS => List.mem_toFinset.mp (hS.1 hmS)
        simp only [List.mem_toFinset, List.mem_filter, decide_eq_true_eq]
        exact ⟨fun h => h.2, fun h => ⟨hm h, h⟩⟩
      have hcompletes := (sumsWithin_toFinset hnodup ht).mp (htS.symm ▸ hS)
      have hmem := hvisited.complete hcapped (not_le.mp hlength) _ ht hcompletes
      rwa [List.nil_append, sortedNames_eq_partOf (hnodup.sublist ht), htS] at hmem

section Enumerate
variable {members : List String} (hset : members.toFinset = nonzeroMembers values)
  (hnodup : members.Nodup)
include hset hnodup

theorem isPartition_of_collect {sub : List String} (hsub : sub.Sublist members) {state : Search} {p : Part}
    (hp : p ∈ (collectPartitions values total want sub state).found) :
    ∃ S, IsPartition values total S ∧ p = partOf S := by
  obtain ⟨S, hS, rfl⟩ := (setsFound_collect (hnodup.sublist hsub) state).sound p hp
  refine ⟨S, ⟨?_, hS.2⟩, rfl⟩
  intro m hm
  rw [← hset, List.mem_toFinset]
  exact hsub.subset (List.mem_toFinset.mp (hS.1 hm))

theorem mem_collect {state : Search} {S : Finset String} (hS : IsPartition values total S)
    (hcapped : (collectPartitions values total want members state).capped = false)
    (hlength : (collectPartitions values total want members state).found.length < want) :
    partOf S ∈ (collectPartitions values total want members state).found := by
  rcases (setsFound_collect hnodup state).complete hcapped with hfull | hall
  · exact absurd hfull (not_le.mpr hlength)
  · exact hall S ⟨hset.symm ▸ hS.1, hS.2⟩

end Enumerate

theorem mem_enumerate {work : List String} (hset : work.toFinset = nonzeroMembers values)
    (hnodup : work.Nodup) (hcapped : (enumeratePartitions values work total).2 = false) {p : Part} :
    p ∈ (enumeratePartitions values work total).1 ↔ ∃ S, IsPartition values total S ∧ p = partOf S := by
  have hperm := List.perm_insertionSort (largerFirst values) work
  have hset' : (work.insertionSort (largerFirst values)).toFinset = nonzeroMembers values :=
    (List.toFinset_eq_of_perm _ _ hperm).trans hset
  have hnodup' := hperm.nodup_iff.mpr hnodup
  revert hcapped
  unfold enumeratePartitions
  dsimp only
  split_ifs with hmany
  · simp
  cases hfirst : (collectPartitions values total 1 (work.insertionSort (largerFirst values))
      ⟨0, false, []⟩).found with
  | nil =>
    dsimp only
    intro hcapped
    refine ⟨by simp, ?_⟩
    rintro ⟨S, hS, rfl⟩
    have hmem := mem_collect hset' hnodup' hS hcapped (by simp [hfirst])
    simp [hfirst] at hmem
  | cons pivot others =>
    dsimp only
    generalize hstate : collectPartitions values total 1 ((work.insertionSort (largerFirst values)).filter
      (· ∉ pivot)) (collectPartitions values total 1 (work.insertionSort (largerFirst values))
        ⟨0, false, []⟩) = second
    intro hcapped
    have hrest : (collectPartitions values total maxCandidates (work.insertionSort (largerFirst values))
          second).capped = false ∧
        (collectPartitions values total maxCandidates (work.insertionSort (largerFirst values))
          second).found.length < maxCandidates := by
      cases hsecond : second.found <;> simpa [hsecond] using hcapped
    have hfound : p ∈ (collectPartitions values total maxCandidates
        (work.insertionSort (largerFirst values)) second).found ↔
          ∃ S, IsPartition values total S ∧ p = partOf S := by
      constructor
      · exact isPartition_of_collect hset' hnodup' (List.Sublist.refl _)
      · rintro ⟨S, hS, rfl⟩
        exact mem_collect hset' hnodup' hS hrest.1 hrest.2
    cases hsecond : second.found with
    | nil =>
      rw [mem_fromKeys]
      exact hfound
    | cons other more =>
      rw [mem_fromKeys, List.mem_cons, List.mem_cons, hfound]
      refine ⟨?_, fun h => Or.inr (Or.inr h)⟩
      rintro (rfl | rfl | h)
      · apply isPartition_of_collect hset' hnodup' (List.Sublist.refl _)
        rw [hfirst]
        exact List.mem_cons_self
      · apply isPartition_of_collect hset' hnodup' List.filter_sublist
        rw [hstate, hsecond]
        exact List.mem_cons_self
      · exact h

/-! ## Disjoint families -/

theorem finerFirst_total (p q : Part) : finerFirst p q ∨ finerFirst q p := by
  unfold finerFirst
  rcases lt_trichotomy p.length q.length with h | h | h
  · exact Or.inr (Or.inl h)
  · rcases le_total p q with hpq | hqp
    · exact Or.inl (Or.inr ⟨h, hpq⟩)
    · exact Or.inr (Or.inr ⟨h.symm, hqp⟩)
  · exact Or.inl (Or.inl h)

theorem finerFirst_trans {p q r : Part} (hpq : finerFirst p q) (hqr : finerFirst q r) :
    finerFirst p r := by
  unfold finerFirst at *
  rcases hpq with hpq | ⟨hpq, hle⟩
  · rcases hqr with hqr | ⟨hqr, _⟩
    · exact Or.inl (hqr.trans hpq)
    · exact Or.inl (hqr ▸ hpq)
  · rcases hqr with hqr | ⟨hqr, hle'⟩
    · exact Or.inl (hpq ▸ hqr)
    · exact Or.inr ⟨hpq.trans hqr, hle.trans hle'⟩

theorem finerFirst_antisymm {p q : Part} (hpq : finerFirst p q) (hqp : finerFirst q p) : p = q := by
  unfold finerFirst at *
  rcases hpq with hpq | ⟨heq, hle⟩
  · rcases hqp with hqp | ⟨heq, _⟩ <;> omega
  · rcases hqp with hqp | ⟨_, hge⟩
    · omega
    · exact le_antisymm hle hge

instance : Std.Total finerFirst := ⟨finerFirst_total⟩

instance : IsTrans Part finerFirst := ⟨fun _ _ _ => finerFirst_trans⟩

theorem mem_sortedPartitions {found : List Part} {p : Part} : p ∈ sortedPartitions found ↔ p ∈ found := by
  rw [sortedPartitions, (List.perm_insertionSort finerFirst _).mem_iff, mem_fromKeys]

theorem nodup_sortedPartitions (found : List Part) : (sortedPartitions found).Nodup :=
  (List.perm_insertionSort finerFirst _).nodup_iff.mpr (nodup_fromKeys found)

theorem sortedPartitions_eq_cons {found : List Part} {p : Part} (hp : p ∈ found)
    (hmin : ∀ q ∈ found, finerFirst p q) : ∃ rest, sortedPartitions found = p :: rest := by
  cases hsorted : sortedPartitions found with
  | nil =>
    have hmem := mem_sortedPartitions.mpr hp
    simp [hsorted] at hmem
  | cons p' rest =>
    have hpairwise : (p' :: rest).Pairwise finerFirst := by
      rw [← hsorted]
      exact List.pairwise_insertionSort finerFirst _
    have hp' : p' ∈ found := mem_sortedPartitions.mp (hsorted ▸ List.mem_cons_self)
    have hle : finerFirst p' p := by
      have hmem : p ∈ p' :: rest := hsorted ▸ mem_sortedPartitions.mpr hp
      rcases List.mem_cons.mp hmem with rfl | hmem
      · exact (finerFirst_total p p).elim id id
      · exact (List.pairwise_cons.mp hpairwise).1 p hmem
    obtain rfl := finerFirst_antisymm hle (hmin p' hp')
    exact ⟨rest, rfl⟩

theorem mem_familyLoop {parts : List Part} : ∀ {used : List String} {q : Part},
    q ∈ familyLoop used parts → q ∈ parts ∧ List.Disjoint used q := by
  induction parts with
  | nil => simp [familyLoop]
  | cons part parts ih =>
    intro used q hq
    rw [familyLoop] at hq
    split_ifs at hq with hany
    · obtain ⟨hmem, hdisj⟩ := ih hq
      exact ⟨List.mem_cons_of_mem _ hmem, hdisj⟩
    · rcases List.mem_cons.mp hq with rfl | hq
      · refine ⟨List.mem_cons_self, ?_⟩
        intro m hused hm
        exact hany (List.any_eq_true.mpr ⟨m, hm, decide_eq_true hused⟩)
      · obtain ⟨hmem, hdisj⟩ := ih hq
        exact ⟨List.mem_cons_of_mem _ hmem, fun m hm => hdisj (List.mem_append_left _ hm)⟩

theorem familyLoop_ne_nil {parts : List Part} {used : List String} {q : Part} (hq : q ∈ parts)
    (hdisj : List.Disjoint used q) : familyLoop used parts ≠ [] := by
  induction parts with
  | nil => simp at hq
  | cons part parts ih =>
    rw [familyLoop]
    split_ifs with hany
    · rcases List.mem_cons.mp hq with rfl | hq
      · obtain ⟨m, hm, hused⟩ := List.any_eq_true.mp hany
        exact absurd hm (fun hm => hdisj (of_decide_eq_true hused) hm)
      · exact ih hq
    · simp

theorem disjointFamily_eq_cons {found : List Part} {p : Part} (hp : p ∈ found)
    (hmin : ∀ q ∈ found, finerFirst p q) : ∃ rest, sortedPartitions found = p :: rest ∧
      disjointFamily found = p :: familyLoop p rest := by
  obtain ⟨rest, hrest⟩ := sortedPartitions_eq_cons hp hmin
  refine ⟨rest, hrest, ?_⟩
  simp [disjointFamily, hrest, familyLoop]

theorem hasDisjointPair_iff {found : List Part} {p : Part} (hp : p ∈ found)
    (hmin : ∀ q ∈ found, finerFirst p q) (hne : p ≠ []) :
    hasDisjointPair found = true ↔ ∃ q ∈ found, List.Disjoint p q := by
  obtain ⟨rest, hrest, hfamily⟩ := disjointFamily_eq_cons hp hmin
  have hself : ¬ List.Disjoint p p := by
    intro hdisj
    obtain ⟨m, hm⟩ := List.exists_mem_of_ne_nil p hne
    exact hdisj hm hm
  rw [hasDisjointPair, hfamily]
  constructor
  · intro h
    have hne : familyLoop p rest ≠ [] := by
      intro hnil
      simp [hnil] at h
    obtain ⟨q, hq⟩ := List.exists_mem_of_ne_nil _ hne
    obtain ⟨hmem, hdisj⟩ := mem_familyLoop hq
    exact ⟨q, mem_sortedPartitions.mp (hrest ▸ List.mem_cons_of_mem p hmem), hdisj⟩
  · rintro ⟨q, hq, hdisj⟩
    have hmem : q ∈ p :: rest := hrest ▸ mem_sortedPartitions.mpr hq
    rcases List.mem_cons.mp hmem with rfl | hmem
    · exact absurd hdisj hself
    · have hpos := List.length_pos_of_ne_nil (familyLoop_ne_nil hmem hdisj)
      simp only [List.length_cons, decide_eq_true_eq]
      omega

/-! ## The listed partitions -/

/-- `partitions` -/
def listed (found : List Part) : List Part :=
  (fromKeys (disjointFamily found ++ ordered found)).take maxPartitions

theorem mem_of_mem_listed {found : List Part} {q : Part} (h : q ∈ listed found) : q ∈ found := by
  have hmem := List.mem_of_mem_take h
  rw [mem_fromKeys, List.mem_append] at hmem
  rcases hmem with hmem | hmem
  · exact mem_sortedPartitions.mp (mem_familyLoop hmem).1
  · exact mem_sortedPartitions.mp (List.mem_of_mem_take hmem)

section Finest
variable {found : List Part} {p : Part} (hp : p ∈ found) (hmin : ∀ q ∈ found, finerFirst p q)
include hp hmin

theorem finest_mem_listed : p ∈ listed found := by
  obtain ⟨rest, -, hfamily⟩ := disjointFamily_eq_cons hp hmin
  simp [listed, hfamily, fromKeys, maxPartitions]

theorem exists_disjoint_listed (hne : p ≠ []) :
    (∃ q ∈ listed found, List.Disjoint p q) ↔ ∃ q ∈ found, List.Disjoint p q := by
  constructor
  · rintro ⟨q, hq, hdisj⟩
    exact ⟨q, mem_of_mem_listed hq, hdisj⟩
  · intro h
    obtain ⟨rest, hrest, hfamily⟩ := disjointFamily_eq_cons hp hmin
    have hpair := (hasDisjointPair_iff hp hmin hne).mpr h
    rw [hasDisjointPair, hfamily] at hpair
    cases hloop : familyLoop p rest with
    | nil => simp [hloop] at hpair
    | cons q more =>
      obtain ⟨hmem, hdisj⟩ := mem_familyLoop (hloop ▸ List.mem_cons_self : q ∈ familyLoop p rest)
      have hqp : q ≠ p := by
        rintro rfl
        obtain ⟨m, hm⟩ := List.exists_mem_of_ne_nil q hne
        exact hdisj hm hm
      refine ⟨q, ?_, hdisj⟩
      simp [listed, hfamily, hloop, fromKeys, maxPartitions, hqp]

theorem eq_of_length_listed (hlength : (listed found).length = 1) {q : Part} (hq : q ∈ found) :
    q = p := by
  have hall : (fromKeys (disjointFamily found ++ ordered found)).length = 1 := by
    simp only [listed, List.length_take, maxPartitions] at hlength
    omega
  obtain ⟨a, ha⟩ := List.length_eq_one_iff.mp hall
  have hsame : ∀ b ∈ disjointFamily found ++ ordered found, b = a := by
    intro b hb
    rw [← mem_fromKeys, ha] at hb
    exact List.mem_singleton.mp hb
  obtain ⟨rest, hrest, hfamily⟩ := disjointFamily_eq_cons hp hmin
  have hpa : p = a := hsame p (List.mem_append_left _ (by simp [hfamily]))
  have hnodup := nodup_sortedPartitions found
  rw [hrest] at hnodup
  cases rest with
  | nil =>
    have hmem := mem_sortedPartitions.mpr hq
    rw [hrest] at hmem
    exact List.mem_singleton.mp hmem
  | cons b more =>
    have hb : b ∈ ordered found := by simp [ordered, hrest, maxPartitions]
    have hba : b = a := hsame b (List.mem_append_right _ hb)
    simp [hpa, hba] at hnodup

end Finest

/-! ## The verdict -/

structure VerdictHolds (values : Dict String ℚ) (total : ℚ) (c : PartitionClassification) : Prop where
  overlapping : c.kind = .overlappingPartitions ↔
    ∃ S T, IsPartition values total S ∧ IsPartition values total T ∧ Disjoint S T
  clean : c.kind = .cleanPartition → ∀ S, IsPartition values total S ↔ S = nonzeroMembers values
  sums : ∀ p ∈ c.partitions, |total - sumOf values p| ≤ tolerance

/-- No member can be left out of all without missing the total. -/
def NoneSpare (values : Dict String ℚ) (total : ℚ) : Prop :=
  2 ≤ values.keys.length → ∀ member ∈ values.keys,
    tolerance < |total - (sumOf values values.keys - value values member)|

/-- Disjoint partitions, if there are any, are to be found beside the finest partition. -/
def FinestHasPartner (values : Dict String ℚ) (total : ℚ) : Prop :=
  ∀ P, IsPartition values total P → (∀ Q, IsPartition values total Q → Finer P Q) →
    (∃ S T, IsPartition values total S ∧ IsPartition values total T ∧ Disjoint S T) →
      ∃ T, IsPartition values total T ∧ Disjoint P T

theorem disjoint_partOf {S T : Finset String} : List.Disjoint (partOf S) (partOf T) ↔ Disjoint S T := by
  rw [Finset.disjoint_left]
  constructor
  · intro h m hS hT
    exact h (mem_partOf.mpr hS) (mem_partOf.mpr hT)
  · intro h m hS hT
    exact h (mem_partOf.mp hS) (mem_partOf.mp hT)

theorem exists_finest {found : List Part} (hne : found ≠ []) :
    ∃ p ∈ found, ∀ q ∈ found, finerFirst p q := by
  cases hsorted : sortedPartitions found with
  | nil =>
    obtain ⟨p, hp⟩ := List.exists_mem_of_ne_nil found hne
    have hmem := mem_sortedPartitions.mpr hp
    simp [hsorted] at hmem
  | cons p rest =>
    have hpairwise : (p :: rest).Pairwise finerFirst := by
      rw [← hsorted]
      exact List.pairwise_insertionSort finerFirst _
    refine ⟨p, mem_sortedPartitions.mp (hsorted ▸ List.mem_cons_self), ?_⟩
    intro q hq
    have hmem : q ∈ p :: rest := hsorted ▸ mem_sortedPartitions.mpr hq
    rcases List.mem_cons.mp hmem with rfl | hmem
    · exact (finerFirst_total q q).elim id id
    · exact (List.pairwise_cons.mp hpairwise).1 q hmem

section Kind
variable {work nonzero : List String} {partitions : List Part}

theorem verdictKind_eq_overlapping_iff {capped : Bool} :
    verdictKind values work nonzero total partitions capped = .overlappingPartitions ↔
      hasDisjointPair partitions = true := by
  unfold verdictKind
  split_ifs with h <;> simp [h]

theorem verdictKind_eq_clean {capped : Bool}
    (h : verdictKind values work nonzero total partitions capped = .cleanPartition) :
    partitions.length = 1 ∧ ∀ part ∈ partitions, part.toFinset = nonzero.toFinset := by
  unfold verdictKind at h
  split_ifs at h with _ hclean
  exact ⟨hclean.1, hclean.2.1⟩

end Kind

theorem verdictHolds_of_search_iff {work : List String} {found : List Part} {c : PartitionClassification}
    (hfound : ∀ p, p ∈ found ↔ ∃ S, IsPartition values total S ∧ p = partOf S)
    (hwork : (work.filter fun member => value values member ≠ 0).toFinset = nonzeroMembers values)
    (hkind : c.kind = verdictKind values work (work.filter fun member => value values member ≠ 0) total
      (listed found) false) (hlisted : c.partitions = listed found) :
    VerdictHolds values total c ↔ FinestHasPartner values total := by
  have hsums : ∀ p ∈ c.partitions, |total - sumOf values p| ≤ tolerance := by
    intro p hp
    obtain ⟨S, hS, rfl⟩ := (hfound p).mp (mem_of_mem_listed (hlisted ▸ hp))
    rw [sumOf_partOf]
    exact hS.2.2
  have hclean : c.kind = .cleanPartition → ∀ S, IsPartition values total S ↔ S = nonzeroMembers values := by
    intro hc
    obtain ⟨hlength, hset⟩ := verdictKind_eq_clean (hkind ▸ hc)
    obtain ⟨p, hp⟩ := List.length_eq_one_iff.mp hlength
    have hpf : p ∈ found := mem_of_mem_listed (hp ▸ List.mem_cons_self)
    obtain ⟨P, hP, rfl⟩ := (hfound p).mp hpf
    have hnonzero : P = nonzeroMembers values := by
      have hsame := hset (partOf P) (hp ▸ List.mem_cons_self)
      rwa [toFinset_partOf, hwork] at hsame
    obtain ⟨f, hf, hmin⟩ := exists_finest (List.ne_nil_of_mem hpf)
    intro S
    constructor
    · intro hS
      have hSf : partOf S = f := eq_of_length_listed hf hmin hlength ((hfound _).mpr ⟨S, hS, rfl⟩)
      have hPf : partOf P = f := eq_of_length_listed hf hmin hlength hpf
      rw [← hnonzero]
      exact partOf_injective (hSf.trans hPf.symm)
    · rintro rfl
      exact hnonzero ▸ hP
  have hverdict : VerdictHolds values total c ↔ (hasDisjointPair (listed found) = true ↔
      ∃ S T, IsPartition values total S ∧ IsPartition values total T ∧ Disjoint S T) := by
    have hover : c.kind = .overlappingPartitions ↔ hasDisjointPair (listed found) = true := by
      rw [hkind]
      exact verdictKind_eq_overlapping_iff
    rw [← hover]
    exact ⟨fun h => h.overlapping, fun h => ⟨h, hclean, hsums⟩⟩
  rw [hverdict]
  by_cases hne : found = []
  · have hno : ∀ S, ¬ IsPartition values total S := by
      intro S hS
      have hmem := (hfound _).mpr ⟨S, hS, rfl⟩
      simp [hne] at hmem
    constructor
    · intro _ P hP
      exact absurd hP (hno P)
    · intro _
      refine ⟨?_, fun ⟨S, _, hS, _⟩ => absurd hS (hno S)⟩
      intro hpair
      rw [hne] at hpair
      exact absurd hpair (by decide)
  · obtain ⟨p, hp, hmin⟩ := exists_finest hne
    obtain ⟨P, hP, rfl⟩ := (hfound p).mp hp
    have hpair : hasDisjointPair (listed found) = true ↔ ∃ T, IsPartition values total T ∧ Disjoint P T := by
      rw [hasDisjointPair_iff (finest_mem_listed hp hmin) (fun q hq => hmin q (mem_of_mem_listed hq))
        hP.partOf_ne_nil, exists_disjoint_listed hp hmin hP.partOf_ne_nil]
      constructor
      · rintro ⟨q, hq, hdisj⟩
        obtain ⟨T, hT, rfl⟩ := (hfound q).mp hq
        exact ⟨T, hT, disjoint_partOf.mp hdisj⟩
      · rintro ⟨T, hT, hdisj⟩
        exact ⟨partOf T, (hfound _).mpr ⟨T, hT, rfl⟩, disjoint_partOf.mpr hdisj⟩
    rw [hpair]
    constructor
    · intro h Q hQ hfinest hboth
      -- the finest partition is unique
      have hQP : Q = P := by
        apply partOf_injective
        exact finerFirst_antisymm (hfinest P hP) (hmin _ ((hfound _).mpr ⟨Q, hQ, rfl⟩))
      rw [hQP]
      exact h.mpr hboth
    · intro h
      refine ⟨fun ⟨T, hT, hdisj⟩ => ⟨P, T, hP, hT, hdisj⟩, ?_⟩
      exact h P hP (fun Q hQ => hmin _ ((hfound _).mpr ⟨Q, hQ, rfl⟩))

/-! ## The shortcut -/

theorem signs_of_uniqueClean {work : List String} {workSum : ℚ}
    (h : uniqueClean values work total workSum = true) : |total - workSum| ≤ tolerance ∧
      ((∀ m ∈ work, 0 < value values m) ∨ ∀ m ∈ work, value values m < 0) := by
  simp only [uniqueClean, Bool.and_eq_true, identityVerified, decide_eq_true_eq, List.all_eq_true] at h
  obtain ⟨⟨hclose, hsigns⟩, hnonzero⟩ := h
  refine ⟨hclose, ?_⟩
  obtain ⟨sign, hsign⟩ := List.length_eq_one_iff.mp hsigns
  have hall : ∀ m ∈ work, decide (0 < value values m) = sign := by
    intro m hm
    have hmem : decide (0 < value values m) ∈ fromKeys ((work.filter fun member =>
        value values member ≠ 0).map fun member => decide (0 < value values member)) := by
      rw [mem_fromKeys]
      exact List.mem_map_of_mem (List.mem_filter.mpr ⟨hm, decide_eq_true (hnonzero m hm)⟩)
    rw [hsign] at hmem
    exact List.mem_singleton.mp hmem
  cases sign with
  | true => exact Or.inl fun m hm => of_decide_eq_true (hall m hm)
  | false =>
    refine Or.inr fun m hm => ?_
    have hle : ¬ 0 < value values m := of_decide_eq_false (hall m hm)
    exact lt_of_le_of_ne (not_lt.mp hle) (hnonzero m hm)

section Shortcut
variable (hclose : |total - sumOf values values.keys| ≤ tolerance)
  (hsign : (∀ m ∈ values.keys, 0 < value values m) ∨ ∀ m ∈ values.keys, value values m < 0)
include hsign

theorem nonzeroMembers_of_sign : nonzeroMembers values = values.keys.toFinset := by
  apply Finset.filter_true_of_mem
  intro m hm
  rcases hsign with hpos | hneg
  · exact (hpos m (List.mem_toFinset.mp hm)).ne'
  · exact (hneg m (List.mem_toFinset.mp hm)).ne

theorem sum_erase_between (low high : ℚ) {S : Finset String} (hS : S ⊆ values.keys.toFinset) {m : String}
    (hm : m ∈ values.keys.toFinset) (hmS : m ∉ S)
    (hlow : low ≤ ∑ x ∈ S, value values x ∧ low ≤ ∑ x ∈ values.keys.toFinset, value values x)
    (hhigh : ∑ x ∈ S, value values x ≤ high ∧ ∑ x ∈ values.keys.toFinset, value values x ≤ high) :
    low ≤ ∑ x ∈ values.keys.toFinset.erase m, value values x ∧
      ∑ x ∈ values.keys.toFinset.erase m, value values x ≤ high := by
  have hsub : S ⊆ values.keys.toFinset.erase m := by
    intro x hx
    exact Finset.mem_erase.mpr ⟨fun heq => hmS (heq ▸ hx), hS hx⟩
  have hkey : ∀ x ∈ values.keys.toFinset.erase m, x ∈ values.keys := by
    intro x hx
    exact List.mem_toFinset.mp (Finset.mem_of_mem_erase hx)
  have hsplit := Finset.add_sum_erase _ (value values) hm
  rcases hsign with hpos | hneg
  · have hgrow : ∑ x ∈ S, value values x ≤ ∑ x ∈ values.keys.toFinset.erase m, value values x :=
      Finset.sum_le_sum_of_subset_of_nonneg hsub fun x hx _ => (hpos x (hkey x hx)).le
    have hvalue := hpos m (List.mem_toFinset.mp hm)
    exact ⟨hlow.1.trans hgrow, by linarith [hhigh.2]⟩
  · have hshrink : ∑ x ∈ values.keys.toFinset.erase m, value values x ≤ ∑ x ∈ S, value values x := by
      have hneg' : ∑ x ∈ S, -value values x ≤ ∑ x ∈ values.keys.toFinset.erase m, -value values x :=
        Finset.sum_le_sum_of_subset_of_nonneg hsub fun x hx _ => (neg_pos.mpr (hneg x (hkey x hx))).le
      simpa using hneg'
    have hvalue := hneg m (List.mem_toFinset.mp hm)
    exact ⟨by linarith [hlow.2], hshrink.trans hhigh.1⟩

include hclose

theorem isPartition_iff_of_noneSpare (hne : values.keys ≠ []) (hspare : NoneSpare values total)
    (S : Finset String) : IsPartition values total S ↔ S = nonzeroMembers values := by
  have hall := nonzeroMembers_of_sign hsign
  have hsum : ∑ m ∈ values.keys.toFinset, value values m = sumOf values values.keys :=
    List.sum_toFinset _ values.nodup
  constructor
  · intro ⟨hsub, hnonempty, hS⟩
    by_contra hproper
    rw [hall] at hsub hproper
    obtain ⟨m, hm, hmS⟩ := Finset.exists_of_ssubset (hsub.ssubset_of_ne hproper)
    have hcard := List.toFinset_card_of_nodup (l := values.keys) values.nodup
    have htwo : 2 ≤ values.keys.length := by
      obtain ⟨x, hx⟩ := hnonempty
      have hxm : x ≠ m := by
        rintro rfl
        exact hmS hx
      have hpair : ({x, m} : Finset String).card ≤ values.keys.toFinset.card := by
        apply Finset.card_le_card
        intro y hy
        rcases Finset.mem_insert.mp hy with rfl | hy
        · exact hsub hx
        · exact Finset.mem_singleton.mp hy ▸ hm
      rwa [Finset.card_pair hxm, hcard] at hpair
    have hfar := hspare htwo m (List.mem_toFinset.mp hm)
    have hS' := abs_le.mp hS
    have hclose' := abs_le.mp hclose
    rw [← hsum] at hclose'
    obtain ⟨hlow, hhigh⟩ := sum_erase_between hsign (total - tolerance) (total + tolerance) hsub hm hmS
      ⟨by linarith, by linarith⟩ ⟨by linarith, by linarith⟩
    have hsplit := Finset.add_sum_erase _ (value values) hm
    have hnear : |total - (sumOf values values.keys - value values m)| ≤ tolerance := by
      rw [← hsum, abs_le]
      constructor <;> linarith
    exact absurd hnear (not_le.mpr hfar)
  · rintro rfl
    refine ⟨Finset.Subset.refl _, ?_, ?_⟩
    · rw [hall]
      exact (List.toFinset_nonempty_iff _).mpr hne
    · rw [hall, hsum]
      exact hclose

theorem verdictHolds_of_shortcut_iff (hne : values.keys ≠ []) {c : PartitionClassification}
    (hkind : c.kind = .cleanPartition) (hparts : ∀ p ∈ c.partitions, p.Perm values.keys) :
    VerdictHolds values total c ↔ NoneSpare values total := by
  have hall := nonzeroMembers_of_sign hsign
  constructor
  · intro h htwo m hm
    by_contra hnear
    have hmem : m ∈ values.keys.toFinset := List.mem_toFinset.mpr hm
    have hsum : ∑ m ∈ values.keys.toFinset, value values m = sumOf values values.keys :=
      List.sum_toFinset _ values.nodup
    have hsplit := Finset.add_sum_erase _ (value values) hmem
    have herase : ∑ x ∈ values.keys.toFinset.erase m, value values x =
        sumOf values values.keys - value values m := by linarith
    have hcard := List.toFinset_card_of_nodup (l := values.keys) values.nodup
    have hpart : IsPartition values total (values.keys.toFinset.erase m) := by
      refine ⟨hall ▸ Finset.erase_subset _ _, ?_, by rw [herase]; exact not_lt.mp hnear⟩
      rw [← Finset.card_pos, Finset.card_erase_of_mem hmem, hcard]
      omega
    have hsame := (h.clean hkind _).mp hpart
    rw [hall] at hsame
    exact Finset.notMem_erase m _ (hsame ▸ hmem)
  · intro hspare
    have honly := isPartition_iff_of_noneSpare hclose hsign hne hspare
    refine ⟨⟨fun hover => ?_, ?_⟩, fun _ => honly, ?_⟩
    · rw [hkind] at hover
      cases hover
    · rintro ⟨S, T, hS, hT, hdisj⟩
      obtain rfl := (honly S).mp hS
      obtain rfl := (honly T).mp hT
      exact absurd (Finset.disjoint_self_iff_empty _ |>.mp hdisj) hS.2.1.ne_empty
    · intro p hp
      rw [sumOf_perm (hparts p hp)]
      exact hclose

end Shortcut

/-! ## Every verdict -/

theorem classifyPartitions_none (axis : Option String) : classifyPartitions values total axis none =
    if sortedNames values.keys = [] then { kind := .incomplete, basis := .arcless }
    else classifyWork values (sortedNames values.keys) total axis none [] .arcless := by
  simp [classifyPartitions]

/-- Uncapped and without definition arcs, the verdict says what it is taken to say exactly when no
member can be spared, where the shortcut is taken, and when the finest partition has a partner,
where it is not. -/
theorem classifyPartitions_holds_iff (axis : Option String)
    (huncapped : (classifyPartitions values total axis none).enumerationCapped = false) :
    VerdictHolds values total (classifyPartitions values total axis none) ↔
      if uniqueClean values (sortedNames values.keys) total (sumOf values (sortedNames values.keys)) = true
        then NoneSpare values total else FinestHasPartner values total := by
  have hperm := sortedNames_perm values.keys
  rw [classifyPartitions_none] at huncapped ⊢
  by_cases hfiled : sortedNames values.keys = []
  · have hkeys : values.keys = [] := List.perm_nil.mp (hfiled ▸ hperm.symm)
    have hno : ∀ S, ¬ IsPartition values total S := by
      intro S hS
      obtain ⟨m, hm⟩ := hS.2.1
      have hmem := (Finset.mem_filter.mp (hS.1 hm)).1
      simp [hkeys] at hmem
    have hshort : uniqueClean values [] total (sumOf values []) = false := by
      simp [uniqueClean, fromKeys]
    rw [hfiled, if_pos rfl, if_neg (by simp [hshort])]
    constructor
    · intro _ P hP
      exact absurd hP (hno P)
    · intro _
      exact ⟨⟨by simp, fun ⟨S, _, hS, _⟩ => absurd hS (hno S)⟩, by simp, by simp⟩
  rw [if_neg hfiled] at huncapped ⊢
  unfold classifyWork at huncapped ⊢
  dsimp only at huncapped ⊢
  by_cases hshort : uniqueClean values (sortedNames values.keys) total
      (sumOf values (sortedNames values.keys)) = true
  · rw [if_pos hshort, if_pos hshort]
    obtain ⟨hclose, hsign⟩ := signs_of_uniqueClean hshort
    rw [sumOf_perm hperm] at hclose
    have hsign' : (∀ m ∈ values.keys, 0 < value values m) ∨ ∀ m ∈ values.keys, value values m < 0 := by
      simpa [hperm.mem_iff] using hsign
    have hne : values.keys ≠ [] := by
      intro hnil
      exact hfiled (List.perm_nil.mp (hnil ▸ hperm))
    apply verdictHolds_of_shortcut_iff hclose hsign' hne rfl
    intro p hp
    obtain rfl := List.mem_singleton.mp hp
    exact (sortedNames_perm _).trans hperm
  · rw [if_neg hshort] at huncapped ⊢
    rw [if_neg hshort]
    have hwork : ((sortedNames values.keys).filter fun member => value values member ≠ 0).toFinset =
        nonzeroMembers values := by
      ext m
      simp [nonzeroMembers, hperm.mem_iff]
    have hnodup : ((sortedNames values.keys).filter fun member => value values member ≠ 0).Nodup :=
      (hperm.nodup_iff.mpr values.nodup).filter _
    have hfound := @mem_enumerate values total _ hwork hnodup
    generalize enumeratePartitions values ((sortedNames values.keys).filter fun member =>
      value values member ≠ 0) total = search at huncapped hfound ⊢
    obtain ⟨found, capped⟩ := search
    obtain rfl : capped = false := huncapped
    exact verdictHolds_of_search_iff (fun p => hfound rfl) hwork rfl rfl

end Values

/-- Two members that sum to the total. -/
theorem classifyPartitions_holds_pair :
    VerdictHolds ⟨[("x:A", 600), ("x:B", 400)], by decide⟩ 1000
      (classifyPartitions ⟨[("x:A", 600), ("x:B", 400)], by decide⟩ 1000 none none) := by
  apply (classifyPartitions_holds_iff none (by decide +kernel)).mpr
  rw [if_pos (by decide +kernel)]
  unfold NoneSpare
  decide +kernel

def pairedValues : Dict String ℚ :=
  ⟨[("a", 200), ("b", 300), ("c", 500), ("d", 700), ("e", 800)], by decide⟩

/-- The finest partition meets both pairs, and the family stops at it. -/
theorem classifyPartitions_misses_pair :
    (classifyPartitions pairedValues 1000 none none).enumerationCapped = false ∧
      ¬ VerdictHolds pairedValues 1000 (classifyPartitions pairedValues 1000 none none) := by
  have hresult : classifyPartitions pairedValues 1000 none none =
      ⟨.overUnexplained, [["a", "b", "c"], ["a", "e"], ["b", "d"]], [], .arcless, false⟩ := by
    decide +kernel
  rw [hresult]
  refine ⟨rfl, fun h => ?_⟩
  have hpair : IsPartition pairedValues 1000 {"a", "e"} ∧ IsPartition pairedValues 1000 {"b", "d"} ∧
      Disjoint ({"a", "e"} : Finset String) {"b", "d"} := by
    unfold IsPartition
    decide +kernel
  have hkind := h.overlapping.mpr ⟨_, _, hpair⟩
  cases hkind

end EdgarSec.Xbrl
