import EdgarSec.Patterns.TrieWords

/-! When the factored alternation of a list of words matches as the plain one does. -/

namespace EdgarSec.Patterns
open Lib Foundation Lexical Reader

/-! ## What a pattern stands for -/

def literals (word : Chars) : List CharTest := word.map .literal

section Stands
variable {u : CharTables} {flags : Flags}

def Spells (u : CharTables) (flags : Flags) (pattern : Chars) (words : List (List CharTest)) : Prop :=
  ∃ items, Reads pattern items ∧ Regex.StandsFor (CharTest.test u flags) (Assertion.holds u flags) (sequence items) words

theorem spells_nil : Spells u flags [] [[]] := ⟨[], reads_nil, Regex.standsFor_empty⟩

theorem Spells.cons {pattern : Chars} {words : List (List CharTest)} (h : Spells u flags pattern words) (c : Char) :
    Spells u flags (escapeChar c ++ pattern) (words.map (.literal c :: ·)) := by
  obtain ⟨items, hreads, hstands⟩ := h
  exact ⟨_, (reads_escapeChar c).append hreads, hstands.cons (.literal c)⟩

theorem spells_escape (word : Chars) : Spells u flags (escape word) [literals word] := by
  induction word with
  | nil => exact spells_nil
  | cons c rest ih => exact ih.cons c

theorem standsFor_sequence_one {r : Re} {words : List (List CharTest)}
    (h : Regex.StandsFor (CharTest.test u flags) (Assertion.holds u flags) r words) :
    Regex.StandsFor (CharTest.test u flags) (Assertion.holds u flags) (sequence [r]) words := by
  intro p
  rw [← h p]
  unfold Regex.matchAt
  show ((Regex.ends _ _ r p).flatMap fun q => [q]).head? = _
  rw [List.flatMap_singleton']

theorem Spells.maybe {pattern : Chars} {words : List (List CharTest)} (h : Spells u flags pattern words) :
    Spells u flags (groupOpen ++ pattern ++ [')', '?']) (words ++ [[]]) := by
  obtain ⟨items, hreads, hstands⟩ := h
  exact ⟨_, reads_maybe hreads, standsFor_sequence_one hstands.group.maybe⟩

theorem standsFor_choose {branches : List (Re × List (List CharTest))} (hne : branches ≠ [])
    (h : ∀ b ∈ branches, Regex.StandsFor (CharTest.test u flags) (Assertion.holds u flags) b.1 b.2) :
    Regex.StandsFor (CharTest.test u flags) (Assertion.holds u flags) (choose (branches.map Prod.fst))
      (branches.flatMap Prod.snd) := by
  induction branches with
  | nil => exact absurd rfl hne
  | cons b branches ih =>
    have hb := h b List.mem_cons_self
    cases branches with
    | nil =>
      rw [List.flatMap_cons, List.flatMap_nil, List.append_nil]
      exact hb
    | cons b' branches =>
      have hrest := ih (List.cons_ne_nil _ _) fun b hb => h b (List.mem_cons_of_mem _ hb)
      rw [List.flatMap_cons]
      exact hb.alt hrest

theorem spells_group {branches : List (Chars × List (List CharTest))} (hne : branches ≠ [])
    (h : ∀ b ∈ branches, Spells u flags b.1 b.2) :
    Spells u flags (groupOpen ++ ['|'].intercalate (branches.map Prod.fst) ++ [')']) (branches.flatMap Prod.snd) := by
  choose! itemsOf hreads hstands using h
  have hgroup := @reads_group (branches.map fun b => (b.1, itemsOf b))
    (by
      intro b hb
      obtain ⟨b', hb', rfl⟩ := List.mem_map.mp hb
      exact hreads b' hb')
    (by
      intro hnil
      exact hne (List.map_eq_nil_iff.mp hnil))
  have hchoose := @standsFor_choose u flags (branches.map fun b => (sequence (itemsOf b), b.2))
    (by
      intro hnil
      exact hne (List.map_eq_nil_iff.mp hnil))
    (by
      intro b hb
      obtain ⟨b', hb', rfl⟩ := List.mem_map.mp hb
      exact hstands b' hb')
  rw [List.map_map, List.map_map] at hgroup
  rw [List.map_map, List.flatMap_map] at hchoose
  exact ⟨_, hgroup, standsFor_sequence_one hchoose.group⟩

theorem spells_set {chars : Chars} (hne : chars ≠ []) :
    Spells u flags (['['] ++ chars.flatMap escapeChar ++ [']']) (chars.map fun c => [.literal c]) := by
  cases chars with
  | nil => exact absurd rfl hne
  | cons c rest =>
    refine ⟨_, reads_set c rest, ?_⟩
    have hany : ∀ d, CharTest.test u flags (.oneOf false ((c :: rest).map SetItem.single)) d =
        ((c :: rest).map CharTest.literal).any fun b => CharTest.test u flags b d := by
      intro d
      rw [CharTest.test, List.any_map, List.any_map, Bool.false_bne]
      rfl
    have hstands := @Regex.standsFor_any Char CharTest Assertion (CharTest.test u flags) (Assertion.holds u flags) _ _ hany
    rw [List.map_map] at hstands
    exact hstands

/-! ## The pattern of a tree -/

theorem isSingle_escapeChar {c : Char} {rest : Chars} (h : isSingle (escapeChar c ++ rest) = true) : rest = [] := by
  unfold isSingle escapeChar at h
  cases hspecial : specialChars.contains c with
  | true =>
    rw [hspecial, if_pos rfl] at h
    cases rest with
    | nil => rfl
    | cons d rest => simp at h
  | false =>
    rw [hspecial, if_neg Bool.false_ne_true] at h
    cases rest with
    | nil => rfl
    | cons d rest =>
      have hslash : c ≠ '\\' := by
        intro heq
        rw [heq] at hspecial
        exact absurd hspecial (by decide +kernel)
      simp at h
      exact absurd h.2.symm hslash

theorem not_groupOpen_escapeChar (c : Char) (rest : Chars) : groupOpen.isPrefixOf (escapeChar c ++ rest) = false := by
  unfold escapeChar groupOpen
  cases hspecial : specialChars.contains c with
  | true => rfl
  | false =>
    have hopen : c ≠ '(' := by
      intro heq
      rw [heq] at hspecial
      exact absurd hspecial (by decide +kernel)
    have hfront : ('(' == c) = false := beq_false_of_ne fun heq => hopen heq.symm
    rw [if_neg Bool.false_ne_true]
    show (('(' == c) && _) = false
    rw [hfront, Bool.false_and]

structure Branch (u : CharTables) (flags : Flags) where
  char : Char
  tail : Chars
  words : List (List CharTest)
  spells : Spells u flags tail words
  ended : tail = [] → words = [[]]

namespace Branch

def pattern (b : Branch u flags) : Chars := escapeChar b.char ++ b.tail

def all (b : Branch u flags) : List (List CharTest) := b.words.map (.literal b.char :: ·)

theorem spells_pattern (b : Branch u flags) : Spells u flags b.pattern b.all := b.spells.cons b.char

theorem spells_factored {branches : List (Branch u flags)} (hne : branches ≠ []) :
    Spells u flags (factored (branches.map pattern)) (branches.flatMap all) := by
  have hgroup := @spells_group u flags (branches.map fun b => (b.pattern, b.all))
    (by
      intro hnil
      exact hne (List.map_eq_nil_iff.mp hnil))
    (by
      intro b hb
      obtain ⟨b', -, rfl⟩ := List.mem_map.mp hb
      exact b'.spells_pattern)
  rw [List.map_map, List.flatMap_map] at hgroup
  cases branches with
  | nil => exact absurd rfl hne
  | cons b branches =>
    cases branches with
    | nil =>
      rw [List.flatMap_cons, List.flatMap_nil, List.append_nil]
      exact b.spells_pattern
    | cons b' branches =>
      show Spells u flags (if ((b :: b' :: branches).map pattern).all isSingle then _ else _) _
      by_cases hall : ((b :: b' :: branches).map pattern).all isSingle = true
      · rw [if_pos hall]
        -- every child is a leaf: the set of the characters
        have htail : ∀ x ∈ b :: b' :: branches, x.tail = [] := by
          intro x hx
          exact isSingle_escapeChar (List.all_eq_true.mp hall x.pattern (List.mem_map.mpr ⟨x, hx, rfl⟩))
        have hset := @spells_set u flags ((b :: b' :: branches).map Branch.char) (List.cons_ne_nil _ _)
        have hflat : ((b :: b' :: branches).map pattern).flatten =
            ((b :: b' :: branches).map Branch.char).flatMap escapeChar := by
          rw [List.flatMap_map, List.flatMap_def]
          congr 1
          apply List.map_congr_left
          intro x hx
          rw [pattern, htail x hx, List.append_nil]
        have hwords : (b :: b' :: branches).flatMap all =
            ((b :: b' :: branches).map Branch.char).map fun c => [.literal c] := by
          rw [List.map_map, List.flatMap_def]
          have heach : (b :: b' :: branches).map all = (b :: b' :: branches).map fun x => [[.literal x.char]] := by
            apply List.map_congr_left
            intro x hx
            rw [all, x.ended (htail x hx)]
            rfl
          rw [heach, ← List.flatMap_def, List.map_eq_flatMap]
          rfl
        show Spells u flags (['['] ++ ((b :: b' :: branches).map pattern).flatten ++ [']']) _
        rw [hflat, hwords]
        exact hset
      · rw [if_neg hall]
        exact hgroup

theorem spells_joinBranches {branches : List (Branch u flags)} (hne : branches ≠ []) (isEnd : Bool) :
    Spells u flags (joinBranches isEnd (branches.map pattern))
      (branches.flatMap all ++ if isEnd then [[]] else []) := by
  have hfactored := spells_factored hne
  unfold joinBranches
  cases isEnd with
  | false =>
    rw [if_neg Bool.false_ne_true, if_neg Bool.false_ne_true, List.append_nil]
    exact hfactored
  | true =>
    have hwrap : 1 < (branches.map pattern).length ∨ groupOpen.isPrefixOf (factored (branches.map pattern)) = false := by
      cases branches with
      | nil => exact absurd rfl hne
      | cons b branches =>
        cases branches with
        | nil => exact Or.inr (not_groupOpen_escapeChar b.char b.tail)
        | cons b' branches => exact Or.inl (by simp)
    rw [if_pos rfl, if_pos rfl, if_pos hwrap]
    exact hfactored.maybe

end Branch

theorem trieToRegex_eq {node : TrieNode} (hne : node.children ≠ []) : trieToRegex true node =
    joinBranches node.isEnd (node.sorted.map fun e => escapeChar e.1 ++ trieToRegex true e.2) := by
  obtain ⟨isEnd, children⟩ := node
  have hempty : children.isEmpty = false := by
    cases children with
    | nil => exact absurd rfl hne
    | cons e rest => rfl
  rw [trieToRegex, hempty, if_neg Bool.false_ne_true, branchesOf_eq, insertionSort_map_fst, List.map_map]
  rfl

theorem trieToRegex_leaf {node : TrieNode} (h : node.children = []) : trieToRegex true node = [] := by
  obtain ⟨isEnd, children⟩ := node
  have h : children = [] := h
  rw [trieToRegex, h]
  rfl

theorem escapeChar_ne_nil (c : Char) : escapeChar c ≠ [] := by
  unfold escapeChar
  split <;> exact List.cons_ne_nil _ _

theorem factored_ne_nil {branches : List Chars} (hne : branches ≠ []) (h : ∀ b ∈ branches, b ≠ []) :
    factored branches ≠ [] := by
  cases branches with
  | nil => exact absurd rfl hne
  | cons b branches =>
    cases branches with
    | nil => exact h b List.mem_cons_self
    | cons b' branches =>
      show (if (b :: b' :: branches).all isSingle then _ else _) ≠ []
      split <;> exact List.cons_ne_nil _ _

theorem joinBranches_ne_nil {branches : List Chars} (isEnd : Bool) (hne : branches ≠ []) (h : ∀ b ∈ branches, b ≠ []) :
    joinBranches isEnd branches ≠ [] := by
  have hfactored := factored_ne_nil hne h
  unfold joinBranches
  dsimp only
  split
  · split
    · exact List.cons_ne_nil _ _
    · exact List.append_ne_nil_of_left_ne_nil hfactored _
  · exact hfactored

theorem words_of_trieToRegex_nil {node : TrieNode} (hformed : Formed node) (h : trieToRegex true node = []) :
    node.words = [[]] := by
  by_cases hne : node.children = []
  · rw [words_eq]
    cases hformed with
    | @intro isEnd children hended _ _ =>
      have hne : children = [] := hne
      subst hne
      rw [hended rfl]
      rfl
  · rw [trieToRegex_eq hne] at h
    have hsorted : node.sorted ≠ [] := by
      intro hnil
      exact hne ((List.perm_insertionSort _ node.children).symm.trans (List.Perm.of_eq hnil)).eq_nil
    refine absurd h (joinBranches_ne_nil _ ?_ ?_)
    · intro hnil
      exact hsorted (List.map_eq_nil_iff.mp hnil)
    · intro b hb
      obtain ⟨e, -, rfl⟩ := List.mem_map.mp hb
      exact List.append_ne_nil_of_left_ne_nil (escapeChar_ne_nil e.1) _

theorem spells_trie {node : TrieNode} (hformed : Formed node) :
    Spells u flags (trieToRegex true node) (node.words.map literals) := by
  induction hformed with
  | @intro isEnd children hended hnodup hbelow ih =>
    by_cases hne : children = []
    · have hend : isEnd = true := hended hne
      rw [trieToRegex_leaf hne, words_eq]
      subst hne
      rw [hend]
      exact spells_nil
    · let branch : { e // e ∈ children } → Branch u flags := fun e =>
        ⟨e.1.1, trieToRegex true e.1.2, e.1.2.words.map literals, ih e.1 e.2, fun hnil => by
          rw [words_of_trieToRegex_nil (hbelow e.1 e.2) hnil]
          rfl⟩
      have hmem : ∀ e ∈ (⟨isEnd, children⟩ : TrieNode).sorted, e ∈ children := fun e he => (List.mem_insertionSort _).mp he
      let branches := (⟨isEnd, children⟩ : TrieNode).sorted.attach.map fun e => branch ⟨e.1, hmem e.1 e.2⟩
      have hpatterns : branches.map Branch.pattern =
          (⟨isEnd, children⟩ : TrieNode).sorted.map fun e => escapeChar e.1 ++ trieToRegex true e.2 := by
        rw [List.map_map]
        exact List.attach_map_val (f := fun e : Char × TrieNode => escapeChar e.1 ++ trieToRegex true e.2)
      have hwords : branches.flatMap Branch.all =
          (⟨isEnd, children⟩ : TrieNode).sorted.flatMap fun e => (e.2.words.map (e.1 :: ·)).map literals := by
        rw [List.flatMap_map, List.flatMap_def, List.flatMap_def]
        congr 1
        rw [← List.attach_map_val (f := fun e : Char × TrieNode => (e.2.words.map (e.1 :: ·)).map literals)]
        apply List.map_congr_left
        intro e _
        show ((e.1.2.words.map literals).map (CharTest.literal e.1.1 :: ·)) = _
        rw [List.map_map, List.map_map]
        rfl
      have hsome : branches ≠ [] := by
        intro hnil
        have hsorted : (⟨isEnd, children⟩ : TrieNode).sorted = [] := List.attach_eq_nil_iff.mp (List.map_eq_nil_iff.mp hnil)
        exact hne ((List.perm_insertionSort _ children).symm.trans (List.Perm.of_eq hsorted)).eq_nil
      have hjoin := Branch.spells_joinBranches hsome isEnd
      rw [hpatterns, hwords, ← List.map_flatMap] at hjoin
      rw [trieToRegex_eq hne, words_eq, List.map_append]
      cases isEnd <;> exact hjoin

/-! ## Both alternations -/

theorem mem_unique {words : List Chars} {x : Chars} : x ∈ unique words ↔ x ∈ words := by
  have hfold : ∀ seen : List Chars, (x ∈ words.foldl
      (fun seen word => if seen.contains word then seen else seen ++ [word]) seen ↔ x ∈ seen ∨ x ∈ words) := by
    induction words with
    | nil => simp
    | cons word words ih =>
      intro seen
      rw [List.foldl_cons, ih, List.mem_cons]
      by_cases hseen : seen.contains word = true
      · rw [if_pos hseen]
        constructor
        · intro h
          exact h.imp_right Or.inr
        · intro h
          rcases h with h | rfl | h
          · exact Or.inl h
          · exact Or.inl (List.contains_iff_mem.mp hseen)
          · exact Or.inr h
      · rw [if_neg hseen, List.mem_append, List.mem_singleton, or_assoc]
  rw [unique, hfold]
  simp

theorem unique_ne_nil {words : List Chars} (h : words ≠ []) : unique words ≠ [] := by
  obtain ⟨word, hword⟩ := List.exists_mem_of_ne_nil words h
  exact List.ne_nil_of_mem (mem_unique.mpr hword)

theorem Spells.group {pattern : Chars} {words : List (List CharTest)} (h : Spells u flags pattern words) :
    Spells u flags (groupOpen ++ pattern ++ [')']) words := by
  have hone := @spells_group u flags [(pattern, words)] (List.cons_ne_nil _ _) (by simpa using h)
  simpa [List.intercalate] using hone

theorem spells_compact {words : List Chars} (hne : words ≠ []) (hwords : ∀ w ∈ words, w ≠ []) :
    ∃ order : List Chars, (∀ x, x ∈ order ↔ x ∈ words) ∧ order.Pairwise TrieBefore ∧
      Spells u flags (compactAlternation true words) (order.map literals) := by
  cases words with
  | nil => exact absurd rfl hne
  | cons w words =>
    cases words with
    | nil => exact ⟨[w], fun x => Iff.rfl, List.pairwise_singleton _ _, spells_escape w⟩
    | cons v words =>
      have hunique : ∀ x ∈ unique (w :: v :: words), x ≠ [] := fun x hx => hwords x (mem_unique.mp hx)
      obtain ⟨hmem, hformed⟩ := buildPrefixTrie_spec hunique
      have hformed := hformed (unique_ne_nil hne)
      refine ⟨_, fun x => (hmem x).trans mem_unique, words_pairwise hformed, ?_⟩
      show Spells u flags (if _ then _ else _) _
      split
      · exact spells_trie hformed
      · exact (spells_trie hformed).group

theorem spells_compactPattern {words : List Chars} (hne : words ≠ []) (hwords : ∀ w ∈ words, w ≠ []) :
    ∃ order : List Chars, (∀ x, x ∈ order ↔ x ∈ words) ∧ order.Pairwise TrieBefore ∧
      Spells u flags (buildAlternation { autoEscape := true, compact := true } words) (order.map literals) := by
  cases words with
  | nil => exact absurd rfl hne
  | cons w words =>
    cases words with
    | nil => exact ⟨[w], fun x => Iff.rfl, List.pairwise_singleton _ _, spells_escape w⟩
    | cons v words =>
      obtain ⟨order, hmem, hpairwise, hspells⟩ := @spells_compact u flags (unique (w :: v :: words)) (unique_ne_nil hne)
        fun x hx => hwords x (mem_unique.mp hx)
      exact ⟨order, fun x => (hmem x).trans mem_unique, hpairwise, hspells⟩

instance : Std.Total longerFirst := ⟨by
  intro a b
  unfold longerFirst
  omega⟩

instance : IsTrans Chars longerFirst := ⟨by
  intro a b c hab hbc
  unfold longerFirst at *
  omega⟩

theorem spells_plainPattern {words : List Chars} (hne : words ≠ []) :
    ∃ order : List Chars, (∀ x, x ∈ order ↔ x ∈ words) ∧ order.Pairwise longerFirst ∧
      Spells u flags (buildAlternation { autoEscape := true } words) (order.map literals) := by
  cases words with
  | nil => exact absurd rfl hne
  | cons w words =>
    cases words with
    | nil => exact ⟨[w], fun x => Iff.rfl, List.pairwise_singleton _ _, spells_escape w⟩
    | cons v words =>
      let order := (unique (w :: v :: words)).insertionSort longerFirst
      have hmem : ∀ x, x ∈ order ↔ x ∈ w :: v :: words := fun x => (List.mem_insertionSort _).trans mem_unique
      have horder : order ≠ [] := List.ne_nil_of_mem ((hmem w).mpr List.mem_cons_self)
      have hgroup := @spells_group u flags (order.map fun x => (escape x, [literals x]))
        (by
          intro hnil
          exact horder (List.map_eq_nil_iff.mp hnil))
        (by
          intro b hb
          obtain ⟨x, -, rfl⟩ := List.mem_map.mp hb
          exact spells_escape x)
      refine ⟨order, hmem, List.pairwise_insertionSort _ _, ?_⟩
      rw [List.map_map, List.flatMap_map] at hgroup
      rw [List.map_eq_flatMap]
      show Spells u flags (groupOpen ++ ['|'].intercalate ((order.map escape).map (flexible { autoEscape := true })) ++
        [')']) _
      rw [List.map_map]
      exact hgroup

end Stands
end EdgarSec.Patterns
