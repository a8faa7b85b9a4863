import EdgarSec.Dag.Compaction

/-! What compaction writes: for each relation parts whose rows, together, are among the
active rows, under paths the resolver finds again. -/

namespace EdgarSec.Dag
open Foundation Lib

/-! ## Names -/

structure PlainName (name : String) : Prop where
  ne_empty : name ≠ ""
  ne_here : name ≠ "."
  ne_up : name ≠ ".."
  slash : '/' ∉ name.toList

theorem not_isAbsolute_of_plain {name : String} (h : PlainName name) (rest : String) :
    isAbsolute (name ++ rest) = false := by
  have hne : name.toList ≠ [] := fun hnil => h.ne_empty (String.toList_eq_nil_iff.mp hnil)
  obtain ⟨c, cs, hc⟩ := List.exists_cons_of_ne_nil hne
  have hslash : c ≠ '/' := fun he => h.slash (by simp [hc, he])
  simp [isAbsolute, String.toList_append, hc, hslash]

theorem splitPath_of_plain {name : String} (h : PlainName name) : splitPath name = [name] := by
  have hsplit : name.toList.splitOn '/' = [name.toList] := by
    have hi : (['/'].intercalate [name.toList]).splitOn '/' = [name.toList] :=
      List.splitOn_intercalate '/' (by simpa using h.slash) (by simp)
    simpa using hi
  simp [splitPath, hsplit, h.ne_empty, h.ne_here]

theorem splitPath_of_plain_pair {dir file : String} (hd : PlainName dir) (hf : PlainName file) :
    splitPath (dir ++ "/" ++ file) = [dir, file] := by
  have hsplit : (dir ++ "/" ++ file).toList.splitOn '/' = [dir.toList, file.toList] := by
    have hi : (['/'].intercalate [dir.toList, file.toList]).splitOn '/' = [dir.toList, file.toList] :=
      List.splitOn_intercalate '/' (by simpa using ⟨hd.slash, hf.slash⟩) (by simp)
    have htext : (dir ++ "/" ++ file).toList = ['/'].intercalate [dir.toList, file.toList] := by
      simp [String.toList_append, List.intercalate]
    rw [htext, hi]
  rw [splitPath, hsplit]
  simp [hd.ne_empty, hd.ne_here, hf.ne_empty, hf.ne_here]

theorem joinPath_of_plain {base : Path} {name : String} (h : PlainName name) :
    joinPath base name = base ++ [name] := by
  have habs := not_isAbsolute_of_plain h ""
  rw [String.append_empty] at habs
  rw [joinPath, habs, splitPath_of_plain h]
  rfl

theorem joinPath_of_plain_pair {base : Path} {dir file : String} (hd : PlainName dir)
    (hf : PlainName file) : joinPath base (dir ++ "/" ++ file) = base ++ [dir, file] := by
  have habs := not_isAbsolute_of_plain hd ("/" ++ file)
  rw [← String.append_assoc] at habs
  rw [joinPath, habs, splitPath_of_plain_pair hd hf]
  rfl

theorem plainName_of_isIdentifier {name : String} (h : isIdentifier name = true) : PlainName name := by
  unfold isIdentifier at h
  split at h
  · cases h
  · rename_i c cs hc
    obtain ⟨hfirst, hrest⟩ := Bool.and_eq_true_iff.mp h
    have hchars : ∀ d ∈ name.toList, d ≠ '/' ∧ d ≠ '.' := by
      intro d hd
      rw [hc] at hd
      have hok : (d.isAlphanum || d == '_') = true := by
        rcases List.mem_cons.mp hd with rfl | hd
        · rcases Bool.or_eq_true_iff.mp hfirst with ha | hu
          · simp [Char.isAlphanum, ha]
          · simp [hu]
        · exact List.all_eq_true.mp hrest d hd
      constructor
      · rintro rfl
        revert hok
        decide
      · rintro rfl
        revert hok
        decide
    refine ⟨?_, ?_, ?_, fun hin => (hchars _ hin).1 rfl⟩
    · rintro rfl
      cases hc
    · rintro rfl
      exact (hchars '.' (by decide)).2 rfl
    · rintro rfl
      exact (hchars '.' (by decide)).2 rfl

theorem plainName_spec (spec : RelationSpec) : PlainName spec.name :=
  plainName_of_isIdentifier spec.isIdentifier_name

theorem toList_partFileName (i : Nat) : (partFileName i).toList =
    "part-".toList ++ (Nat.toDigits 10 i).leftpad 5 '0' ++ ".parquet".toList := by
  simp [partFileName, String.toList_append]

theorem plainName_partFileName (i : Nat) : PlainName (partFileName i) := by
  have hhead : ∃ rest, (partFileName i).toList = 'p' :: 'a' :: rest := ⟨_, toList_partFileName i⟩
  obtain ⟨rest, hrest⟩ := hhead
  have hne : ∀ s : String, s.toList.head? ≠ some 'p' → partFileName i ≠ s := by
    rintro s hs rfl
    simp [hrest] at hs
  refine ⟨hne _ (by decide), hne _ (by decide), hne _ (by decide), ?_⟩
  rw [toList_partFileName]
  simp only [List.mem_append, List.leftpad, List.mem_replicate, not_or]
  refine ⟨⟨by decide, by simp, fun hin => ?_⟩, by decide⟩
  have hdigit := Nat.isDigit_of_mem_toDigits (by decide) (by decide) hin
  revert hdigit
  decide

theorem partFileName_injective : Function.Injective partFileName := by
  intro i j h
  have hlist := congrArg String.toList h
  rw [toList_partFileName, toList_partFileName, List.append_left_inj, List.append_right_inj] at hlist
  have hvalue : ∀ n, Nat.ofDigitChars 10 ((Nat.toDigits 10 n).leftpad 5 '0') 0 = n := by
    intro n
    rw [List.leftpad, Nat.ofDigitChars_append, Nat.ofDigitChars_replicate_zero, Nat.mul_zero,
      Nat.ofDigitChars_ten_toDigits]
  rw [← hvalue i, hlist, hvalue j]

variable {V : Type} [LinearOrder V]

/-! ## Ranges -/

section Ranges
variable {κ : Type}

/-- A run holds as many rows as a part may, or it is one key. -/
def Within (maxRows : Int) (run : List (κ × Nat)) : Prop :=
  ((run.map Prod.snd).sum : Int) ≤ maxRows ∨ ∃ g, run = [g]

theorem exists_runs_keyRanges (maxRows : Int) (f : κ → String) (groups : List (κ × Nat)) :
    ∀ cur : List (κ × Nat), (∀ g ∈ cur ++ groups, 0 < g.2) → (cur ≠ [] → Within maxRows cur) →
    ∃ runs : List (List (κ × Nat)), runs.flatten = cur ++ groups ∧
      (∀ run ∈ runs, run ≠ [] ∧ Within maxRows run) ∧
      keyRanges maxRows (cur.map fun g => f g.1) (cur.map Prod.snd).sum
        (groups.map fun g => (f g.1, g.2)) = runs.map fun run => ends (run.map fun g => f g.1) := by
  induction groups with
  | nil =>
    intro cur _ hcur
    by_cases hnil : cur = []
    · exact ⟨[], by simp [hnil], by simp, by simp [keyRanges, hnil]⟩
    · exact ⟨[cur], by simp, by simpa using ⟨hnil, hcur hnil⟩, by simp [keyRanges, hnil]⟩
  | cons g groups ih =>
    intro cur hpos hcur
    have hg : 0 < g.2 := hpos g (by simp)
    simp only [List.map_cons, keyRanges]
    split
    · rename_i hfull
      have hnil : cur ≠ [] := by
        intro hnil
        rw [hnil] at hfull
        exact absurd hfull.1 (by simp)
      have hlater : ∀ h ∈ [g] ++ groups, 0 < h.2 :=
        fun h hh => hpos h (List.mem_append_right _ hh)
      obtain ⟨runs, hflat, hruns, heq⟩ := ih [g] hlater fun _ => Or.inr ⟨g, rfl⟩
      refine ⟨cur :: runs, by simp [hflat], ?_, ?_⟩
      · intro run hrun
        rcases List.mem_cons.mp hrun with rfl | hrun
        · exact ⟨hnil, hcur hnil⟩
        · exact hruns run hrun
      · rw [List.map_cons, ← heq]
        simp
    · -- the key joins the run; a first key is a run of its own, however many rows it has
      rename_i hfits
      have hlater : ∀ h ∈ (cur ++ [g]) ++ groups, 0 < h.2 := by
        intro h hh
        exact hpos h (by simpa using hh)
      have hjoined : Within maxRows (cur ++ [g]) := by
        by_cases hnil : cur = []
        · exact Or.inr ⟨g, by rw [hnil, List.nil_append]⟩
        · obtain ⟨h, rest, rfl⟩ := List.exists_cons_of_ne_nil hnil
          have hh : 0 < h.2 := hpos h (by simp)
          refine Or.inl ?_
          simp only [List.map_cons, List.sum_cons] at hfits
          simp only [List.map_append, List.map_cons, List.sum_append, List.sum_cons, List.map_nil,
            List.sum_nil]
          omega
      obtain ⟨runs, hflat, hruns, heq⟩ := ih (cur ++ [g]) hlater fun _ => hjoined
      refine ⟨runs, by simp [hflat], hruns, ?_⟩
      rw [← heq]
      simp

end Ranges

section Selecting
variable {choice : Choice} {text : ValueText V} {spec : RelationSpec} {active : Table V}

def keyCell (spec : RelationSpec) (row : Row V) : Option V := spec.schema.cell row (keyColumn spec)

theorem selectRange_chunk {chunks : List (List V)} (hsorted : chunks.flatten.Pairwise (· < ·))
    (hkeys : ∀ row ∈ active, ∀ k, keyCell spec row = some k → k ∈ chunks.flatten) {c : List V}
    (hc : c ∈ chunks) (hne : c ≠ []) :
    selectRange text spec active (some (ends (c.map text.str))) =
      .ok (active.filter fun row => (keyCell spec row).any (· ∈ c)) := by
  obtain ⟨lo, hlo⟩ : ∃ lo, c.head? = some lo := ⟨_, List.head?_eq_some_head hne⟩
  obtain ⟨hi, hhi⟩ : ∃ hi, c.getLast? = some hi := ⟨_, List.getLast?_eq_some_getLast hne⟩
  have hends : ends (c.map text.str) = (text.str lo, text.str hi) := by
    simp [ends, List.headD_eq_head?_getD, List.getLastD_eq_getLast?, hlo, hhi]
  have hcast : ∀ v, castParam text (text.str v) = .ok v := by
    intro v
    rw [castParam, text.cast_str]
  rw [hends, selectRange, hcast, hcast]
  simp only [bind, Except.bind]
  refine congrArg Except.ok (List.filter_congr fun row hrow => ?_)
  cases hk : keyCell spec row with
  | none => simp [keyCell] at hk; simp [hk]
  | some k =>
    have hbetween := mem_chunk_iff_between hsorted hc hlo hhi (hkeys row hrow k hk)
    have hk' : spec.schema.cell row (keyColumn spec) = some k := hk
    rw [hk', Option.any_some, Option.any_some]
    split
    · rename_i hsame
      have hlohi : lo = hi := by
        have hcasts := congrArg text.cast hsame
        rwa [text.cast_str, text.cast_str, Option.some.injEq] at hcasts
      subst hlohi
      apply decide_eq_decide.mpr
      rw [← hbetween]
      constructor
      · rintro rfl
        exact ⟨le_refl _, le_refl _⟩
      · rintro ⟨hle, hge⟩
        exact le_antisymm hge hle
    · exact decide_eq_decide.mpr hbetween

theorem map_fst_keyCounts {keys : List V} : (keyCounts choice keys).map Prod.fst =
    choice.sort (fun a b => decide (a ≤ b)) keys.dedup := by
  simp [keyCounts, List.map_map, Function.comp_def]

theorem pairwise_keyCounts {keys : List V} :
    ((keyCounts choice keys).map Prod.fst).Pairwise (· < ·) := by
  have horder : SortOrder fun a b : V => decide (a ≤ b) := by
    constructor
    · intro a b
      simpa using le_total a b
    · intro a b c
      simpa using fun hab hbc => le_trans hab hbc
  rw [map_fst_keyCounts]
  have hsorted := choice.pairwise_sort horder keys.dedup
  have hnodup : (choice.sort (fun a b => decide (a ≤ b)) keys.dedup).Nodup :=
    (choice.sort_perm _ _).nodup_iff.mpr keys.nodup_dedup
  exact hsorted.imp₂ (fun a b hle hne => lt_of_le_of_ne (of_decide_eq_true hle) hne) hnodup

theorem pos_of_mem_keyCounts {keys : List V} : ∀ g ∈ keyCounts choice keys, 0 < g.2 := by
  intro g hg
  obtain ⟨k, hk, rfl⟩ := List.mem_map.mp hg
  have hin : k ∈ keys.dedup := (choice.sort_perm _ _).mem_iff.mp hk
  exact List.count_pos_iff.mpr (List.mem_dedup.mp hin)

theorem partRanges_tables (choice : Choice) (text : ValueText V) (spec : RelationSpec)
    (active : Table V) :
    partRanges choice text spec active = [none] ∨
    ∃ chunks : List (List V), chunks ≠ [] ∧ chunks.flatten.Pairwise (· < ·) ∧
      (∀ row ∈ active, ∀ k, keyCell spec row = some k → k ∈ chunks.flatten) ∧
      (∀ c ∈ chunks, c ≠ []) ∧
      partRanges choice text spec active = chunks.map fun c => some (ends (c.map text.str)) := by
  unfold partRanges
  split
  · exact Or.inl rfl
  rename_i maxRows _
  split
  · exact Or.inl rfl
  simp only
  split
  · exact Or.inl rfl
  rename_i hranges
  right
  obtain ⟨runs, hflat, hruns, heq⟩ := exists_runs_keyRanges maxRows text.str
    (keyCounts choice (active.filterMap fun row => spec.schema.cell row (keyColumn spec))) []
    pos_of_mem_keyCounts (fun hnil => absurd rfl hnil)
  rw [List.nil_append] at hflat
  rw [List.map_nil, List.map_nil, List.sum_nil] at heq
  have hkeys : (runs.map fun run => run.map Prod.fst).flatten =
      (keyCounts choice (active.filterMap fun row => spec.schema.cell row (keyColumn spec))).map
        Prod.fst := by
    rw [← hflat, List.map_flatten]
  rw [heq] at hranges ⊢
  refine ⟨runs.map fun run => run.map Prod.fst, ?_, hkeys ▸ pairwise_keyCounts, ?_, ?_, ?_⟩
  · simpa using hranges
  · intro row hrow k hk
    rw [hkeys, map_fst_keyCounts, (choice.sort_perm _ _).mem_iff, List.mem_dedup]
    exact List.mem_filterMap.mpr ⟨row, hrow, hk⟩
  · intro c hc
    obtain ⟨run, hrun, rfl⟩ := List.mem_map.mp hc
    simpa using (hruns run hrun).1
  · simp only [List.map_map, Function.comp_def]

theorem partRanges_subperm {tables : List (Table V)}
    (h : (partRanges choice text spec active).mapM (selectRange text spec active) = .ok tables) :
    tables.flatten.Subperm active ∧ partRanges choice text spec active ≠ [] := by
  rcases partRanges_tables choice text spec active with hwhole | hruns
  · rw [hwhole] at h ⊢
    have hone : tables = [active] := (Except.ok.inj h).symm
    rw [hone, List.flatten_singleton]
    exact ⟨List.Subperm.refl _, by simp⟩
  · obtain ⟨chunks, hchunks, hsorted, hkeys, hne, heq⟩ := hruns
    rw [heq] at h ⊢
    have htables : tables = chunks.map fun c => active.filter fun row =>
        (keyCell spec row).any (· ∈ c) := by
      rw [List.mapM_map] at h
      refine eq_map_of_mapM h fun c hc b hb => ?_
      rw [Function.comp_apply, selectRange_chunk hsorted hkeys hc (hne c hc)] at hb
      exact Except.ok.inj hb
    refine ⟨?_, by simpa using hchunks⟩
    rw [htables, ← List.flatMap_def]
    exact flatMap_filter_subperm _ (hsorted.imp ne_of_lt) active

end Selecting

end EdgarSec.Dag
