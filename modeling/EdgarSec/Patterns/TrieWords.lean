import EdgarSec.Patterns.Reading

/-! The words of a prefix tree, in the order in which its pattern tries them. -/

namespace EdgarSec.Patterns
open Lib Foundation

/-! ## Words in order -/

def TrieNode.sorted (node : TrieNode) : List (Char × TrieNode) := node.children.insertionSort fun a b => a.1 ≤ b.1

mutual

def TrieNode.words : TrieNode → List Chars
  | ⟨isEnd, children⟩ =>
    ((childWords children).insertionSort fun a b => a.1 ≤ b.1).flatMap Prod.snd ++ if isEnd then [[]] else []

def childWords : List (Char × TrieNode) → List (Char × List Chars)
  | [] => []
  | (c, child) :: rest => (c, child.words.map (c :: ·)) :: childWords rest

end

def TrieBefore : Chars → Chars → Prop
  | _ :: _, [] => True
  | a :: word, b :: other => a < b ∨ (a = b ∧ TrieBefore word other)
  | [], _ => False

theorem TrieNode.induct {P : TrieNode → Prop} (h : ∀ isEnd children, (∀ e ∈ children, P e.2) → P ⟨isEnd, children⟩)
    (node : TrieNode) : P node := by
  obtain ⟨isEnd, children⟩ := node
  apply h
  intro e he
  exact TrieNode.induct h e.2
termination_by sizeOf node
decreasing_by
  have hmem := List.sizeOf_lt_of_mem he
  have hpair : sizeOf e.2 < sizeOf e := by
    cases e
    simp
  simp
  omega

section Words
variable {node : TrieNode} {word x : Chars} {isEnd : Bool} {children : List (Char × TrieNode)}

theorem childWords_eq : childWords children = children.map fun e => (e.1, e.2.words.map (e.1 :: ·)) := by
  induction children with
  | nil => rw [childWords, List.map_nil]
  | cons e rest ih => rw [childWords, ih, List.map_cons]

theorem branchesOf_eq : branchesOf true children =
    children.map fun e => (e.1, escapeChar e.1 ++ trieToRegex true e.2) := by
  induction children with
  | nil => rw [branchesOf, List.map_nil]
  | cons e rest ih => rw [branchesOf, ih, List.map_cons, if_pos rfl]

theorem insertionSort_map_fst {β γ : Type} (children : List (Char × β)) (f : Char × β → γ) :
    (children.map fun e => (e.1, f e)).insertionSort (fun a b => a.1 ≤ b.1) =
      (children.insertionSort fun a b => a.1 ≤ b.1).map fun e => (e.1, f e) := by
  symm
  apply List.map_insertionSort
  intro a _ b _
  exact Iff.rfl

theorem words_eq : node.words =
    (node.sorted.flatMap fun e => e.2.words.map (e.1 :: ·)) ++ if node.isEnd then [[]] else [] := by
  obtain ⟨isEnd, children⟩ := node
  rw [TrieNode.words, childWords_eq, insertionSort_map_fst, List.flatMap_map]
  rfl

theorem mem_words : x ∈ node.words ↔
    (∃ e ∈ node.children, ∃ w ∈ e.2.words, e.1 :: w = x) ∨ (node.isEnd = true ∧ x = []) := by
  rw [words_eq, List.mem_append, List.mem_flatMap]
  apply or_congr
  · constructor
    · intro h
      obtain ⟨e, he, hx⟩ := h
      exact ⟨e, (List.mem_insertionSort _).mp he, List.mem_map.mp hx⟩
    · intro h
      obtain ⟨e, he, hx⟩ := h
      exact ⟨e, (List.mem_insertionSort _).mpr he, List.mem_map.mpr hx⟩
  · cases node.isEnd <;> simp

theorem words_new : ({} : TrieNode).words = [] := by
  rw [words_eq]
  rfl

/-! ## Insertion -/

theorem mem_words_insert : x ∈ (node.insert word).words ↔ x = word ∨ x ∈ node.words := by
  induction word generalizing node x with
  | nil =>
    rw [TrieNode.insert, mem_words, mem_words]
    dsimp only
    constructor
    · intro h
      rcases h with hchild | ⟨-, hnil⟩
      · exact Or.inr (Or.inl hchild)
      · exact Or.inl hnil
    · intro h
      rcases h with hnil | hchild | ⟨-, hnil⟩
      · exact Or.inr ⟨rfl, hnil⟩
      · exact Or.inl hchild
      · exact Or.inr ⟨rfl, hnil⟩
  | cons c word ih =>
    rw [TrieNode.insert, mem_words, mem_words]
    dsimp only
    by_cases hthere : (node.children.any fun e => decide (e.1 = c)) = true
    · rw [if_pos hthere]
      obtain ⟨found, hfound, hkey⟩ := List.any_eq_true.mp hthere
      have hkey : found.1 = c := of_decide_eq_true hkey
      constructor
      · intro h
        rcases h with ⟨e, he, w, hw, rfl⟩ | hend
        · obtain ⟨e', he', rfl⟩ := List.mem_map.mp he
          by_cases hc : e'.1 = c
          · rw [if_pos hc] at hw ⊢
            rcases ih.mp hw with rfl | hold
            · exact Or.inl rfl
            · exact Or.inr (Or.inl ⟨e', he', w, hold, by rw [hc]⟩)
          · rw [if_neg hc] at hw ⊢
            exact Or.inr (Or.inl ⟨e', he', w, hw, rfl⟩)
        · exact Or.inr (Or.inr hend)
      · intro h
        rcases h with rfl | ⟨e, he, w, hw, rfl⟩ | hend
        · left
          refine ⟨(c, TrieNode.insert word found.2), List.mem_map.mpr ⟨found, hfound, by rw [if_pos hkey]⟩, word, ?_, rfl⟩
          exact ih.mpr (Or.inl rfl)
        · left
          by_cases hc : e.1 = c
          · refine ⟨(c, TrieNode.insert word e.2), List.mem_map.mpr ⟨e, he, by rw [if_pos hc]⟩, w, ?_, ?_⟩
            · exact ih.mpr (Or.inr hw)
            · rw [hc]
          · exact ⟨e, List.mem_map.mpr ⟨e, he, by rw [if_neg hc]⟩, w, hw, rfl⟩
        · exact Or.inr hend
    · rw [if_neg hthere]
      have hnew : ∀ w, w ∈ (TrieNode.insert word {}).words ↔ w = word := by
        intro w
        rw [ih, words_new]
        simp
      constructor
      · intro h
        rcases h with ⟨e, he, w, hw, rfl⟩ | hend
        · rcases List.mem_append.mp he with hold | hlast
          · exact Or.inr (Or.inl ⟨e, hold, w, hw, rfl⟩)
          · rw [List.mem_singleton.mp hlast] at hw ⊢
            rw [(hnew w).mp hw]
            exact Or.inl rfl
        · exact Or.inr (Or.inr hend)
      · intro h
        rcases h with rfl | ⟨e, he, w, hw, rfl⟩ | hend
        · left
          exact ⟨(c, TrieNode.insert word {}), List.mem_append_right _ (List.mem_singleton_self _), word,
            (hnew word).mpr rfl, rfl⟩
        · exact Or.inl ⟨e, List.mem_append_left _ he, w, hw, rfl⟩
        · exact Or.inr hend

inductive Formed : TrieNode → Prop
  | intro {isEnd : Bool} {children : List (Char × TrieNode)} (ended : children = [] → isEnd = true)
      (nodup : (children.map Prod.fst).Nodup) (below : ∀ e ∈ children, Formed e.2) : Formed ⟨isEnd, children⟩

theorem formed_insert (hnodup : (node.children.map Prod.fst).Nodup) (hbelow : ∀ e ∈ node.children, Formed e.2) :
    Formed (node.insert word) := by
  induction word generalizing node with
  | nil => exact .intro (fun _ => rfl) hnodup hbelow
  | cons c word ih =>
    have hchild : ∀ child : TrieNode, Formed child → Formed (child.insert word) := by
      intro child hformed
      cases hformed with
      | intro _ hnodup hbelow => exact ih hnodup hbelow
    rw [TrieNode.insert]
    by_cases hthere : (node.children.any fun e => decide (e.1 = c)) = true
    · rw [if_pos hthere]
      have hkeys : (node.children.map fun e => if e.1 = c then (c, TrieNode.insert word e.2) else e).map Prod.fst =
          node.children.map Prod.fst := by
        rw [List.map_map]
        apply List.map_congr_left
        intro e _
        rw [Function.comp_apply]
        by_cases hc : e.1 = c
        · rw [if_pos hc, hc]
        · rw [if_neg hc]
      refine .intro ?_ (hkeys ▸ hnodup) ?_
      · intro hnil
        obtain ⟨found, hfound, -⟩ := List.any_eq_true.mp hthere
        rw [List.map_eq_nil_iff.mp hnil] at hfound
        exact absurd hfound List.not_mem_nil
      · intro e he
        obtain ⟨e', he', rfl⟩ := List.mem_map.mp he
        by_cases hc : e'.1 = c
        · rw [if_pos hc]
          exact hchild e'.2 (hbelow e' he')
        · rw [if_neg hc]
          exact hbelow e' he'
    · rw [if_neg hthere]
      refine .intro (fun hnil => absurd hnil (List.append_ne_nil_of_right_ne_nil _ (List.cons_ne_nil _ _))) ?_ ?_
      · rw [List.map_append]
        refine List.nodup_append.mpr ⟨hnodup, List.nodup_singleton _, ?_⟩
        intro a ha b hb heq
        obtain ⟨e, he, rfl⟩ := List.mem_map.mp ha
        rw [List.map_singleton, List.mem_singleton] at hb
        exact hthere (List.any_eq_true.mpr ⟨e, he, decide_eq_true (heq.trans hb)⟩)
      · intro e he
        rcases List.mem_append.mp he with hold | hlast
        · exact hbelow e hold
        · rw [List.mem_singleton.mp hlast]
          exact @ih {} List.nodup_nil fun e he => absurd he List.not_mem_nil

theorem buildPrefixTrie_spec {words : List Chars} (hwords : ∀ w ∈ words, w ≠ []) :
    (∀ x, x ∈ (buildPrefixTrie words).words ↔ x ∈ words) ∧ (words ≠ [] → Formed (buildPrefixTrie words)) := by
  induction words using List.reverseRecOn with
  | nil =>
    refine ⟨fun x => ?_, fun h => absurd rfl h⟩
    rw [buildPrefixTrie, List.foldl_nil, words_new]
  | append_singleton words word ih =>
    obtain ⟨hmem, hformed⟩ := ih fun w hw => hwords w (List.mem_append_left _ hw)
    have hword : word ≠ [] := hwords word (List.mem_append_right _ (List.mem_singleton_self word))
    have hstep : buildPrefixTrie (words ++ [word]) = (buildPrefixTrie words).insert word := by
      unfold buildPrefixTrie
      rw [List.foldl_append, List.foldl_cons, List.foldl_nil, if_neg hword]
    rw [hstep]
    refine ⟨fun x => ?_, fun _ => ?_⟩
    · rw [mem_words_insert, hmem, List.mem_append, List.mem_singleton]
      exact or_comm
    · cases words with
      | nil => exact formed_insert List.nodup_nil fun e he => absurd he List.not_mem_nil
      | cons w words =>
        have hbefore := hformed (List.cons_ne_nil w words)
        generalize buildPrefixTrie (w :: words) = node at hbefore
        cases hbefore with
        | intro _ hnodup hbelow => exact formed_insert hnodup hbelow

/-! ## The order -/

theorem trieBefore_asymm {a b : Chars} (h : TrieBefore a b) : ¬ TrieBefore b a := by
  induction a generalizing b with
  | nil => exact absurd h (by simp [TrieBefore])
  | cons c a ih =>
    cases b with
    | nil => simp [TrieBefore]
    | cons d b =>
      intro hback
      rcases h with hlt | ⟨heq, hrest⟩
      · rcases hback with hgt | ⟨heq, -⟩
        · exact absurd hgt (lt_asymm hlt)
        · exact absurd hlt (heq ▸ lt_irrefl d)
      · rcases hback with hgt | ⟨-, hrest'⟩
        · exact absurd hgt (heq ▸ lt_irrefl c)
        · exact ih hrest hrest'

theorem sorted_pairwise (hnodup : (node.children.map Prod.fst).Nodup) :
    node.sorted.Pairwise fun a b => a.1 < b.1 := by
  have hle : node.sorted.Pairwise fun a b => a.1 ≤ b.1 := List.pairwise_insertionSort _ _
  have hne : (node.sorted.map Prod.fst).Nodup :=
    ((List.perm_insertionSort _ node.children).map Prod.fst).nodup_iff.mpr hnodup
  have hboth := hle.and (List.pairwise_map.mp hne)
  exact hboth.imp fun h => lt_of_le_of_ne h.1 h.2

theorem words_pairwise (hformed : Formed node) : node.words.Pairwise TrieBefore := by
  induction hformed with
  | @intro isEnd children _ hnodup hbelow ih =>
    rw [words_eq, List.pairwise_append]
    refine ⟨?_, ?_, ?_⟩
    · rw [List.pairwise_flatMap]
      constructor
      · intro e he
        rw [List.pairwise_map]
        apply (ih e ((List.mem_insertionSort _).mp he)).imp
        intro a b hab
        exact Or.inr ⟨rfl, hab⟩
      · apply (sorted_pairwise hnodup).imp
        intro a b hlt x hx y hy
        obtain ⟨w, -, rfl⟩ := List.mem_map.mp hx
        obtain ⟨v, -, rfl⟩ := List.mem_map.mp hy
        exact Or.inl hlt
    · cases isEnd <;> simp
    · intro x hx y hy
      obtain ⟨e, -, hx⟩ := List.mem_flatMap.mp hx
      obtain ⟨w, -, rfl⟩ := List.mem_map.mp hx
      have hnil : y = [] := by
        cases isEnd with
        | true => simpa using hy
        | false => simp at hy
      rw [hnil]
      trivial

end Words
end EdgarSec.Patterns
