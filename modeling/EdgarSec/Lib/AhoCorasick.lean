import EdgarSec.Lib.Dict

/-! Machines that look for many words at once: a tree of the words, failure links that a
breadth-first walk sets, and outputs that a state takes over from its failure state. -/

namespace EdgarSec.Lib

/-- For every state its transitions, its failure state and its outputs. State `0` is the root. -/
structure Machine (κ π : Type) where
  transitions : List (Dict κ Nat)
  fail : List Nat
  outputs : List (List π)

namespace Machine
variable {κ π : Type} [DecidableEq κ]

def initial : Machine κ π := ⟨[Dict.empty], [0], [[]]⟩

def size (m : Machine κ π) : Nat := m.transitions.length
def edges (m : Machine κ π) (s : Nat) : Dict κ Nat := m.transitions[s]?.getD Dict.empty
def next (m : Machine κ π) (s : Nat) (k : κ) : Option Nat := (m.edges s).get? k
def failOf (m : Machine κ π) (s : Nat) : Nat := m.fail[s]?.getD 0
def outs (m : Machine κ π) (s : Nat) : List π := m.outputs[s]?.getD []

/-! ## The tree -/

def grow (m : Machine κ π) (s : Nat) (k : κ) : Machine κ π where
  transitions := (m.transitions ++ [Dict.empty]).modify s fun d => d.set k m.size
  fail := m.fail ++ [0]
  outputs := m.outputs ++ [[]]

def addOutput (m : Machine κ π) (s : Nat) (p : π) : Machine κ π :=
  { m with outputs := m.outputs.modify s (· ++ [p]) }

def addChain (p : π) : Machine κ π → Nat → List κ → Machine κ π
  | m, s, [] => m.addOutput s p
  | m, s, k :: rest =>
    match m.next s k with
    | some t => addChain p m t rest
    | none => addChain p (m.grow s k) m.size rest

/-! ## Failure links -/

def follow (m : Machine κ π) (k : κ) : Nat → Nat → Nat
  | 0, s => s
  | n + 1, s => if s ≠ 0 ∧ m.next s k = none then follow m k n (m.failOf s) else s

def advance (m : Machine κ π) (s : Nat) (k : κ) : Nat := (m.next (m.follow k m.size s) k).getD 0

def linkChild (r : Nat) (m : Machine κ π) (child : κ × Nat) : Machine κ π :=
  let f := m.advance (m.failOf r) child.1
  { m with fail := m.fail.set child.2 f, outputs := m.outputs.modify child.2 (· ++ m.outs f) }

def linkFrom : Nat → Machine κ π → List Nat → Machine κ π
  | 0, m, _ => m
  | _ + 1, m, [] => m
  | n + 1, m, r :: queue =>
    linkFrom n ((m.edges r).items.foldl (linkChild r) m) (queue ++ (m.edges r).items.map Prod.snd)

def link (m : Machine κ π) : Machine κ π :=
  let children := (m.edges 0).items.map Prod.snd
  linkFrom m.size { m with fail := children.foldl (fun fail s => fail.set s 0) m.fail } children

def run (m : Machine κ π) (text : List κ) : Nat := text.foldl m.advance 0

/-! ## Words of states -/

/-- `words[s]` leads to the state `s`. -/
structure Spells (m : Machine κ π) (words : List (List κ)) : Prop where
  nodup : words.Nodup
  root : words[0]? = some []
  closed : ∀ w k, w ++ [k] ∈ words → w ∈ words
  transitions_length : m.transitions.length = words.length
  fail_length : m.fail.length = words.length
  outputs_length : m.outputs.length = words.length
  next_iff : ∀ s k t, m.next s k = some t ↔ ∃ w, words[s]? = some w ∧ words[t]? = some (w ++ [k])

variable {m : Machine κ π} {words : List (List κ)} {s t : Nat} {k : κ} {w x : List κ} {p : π}

def own (phrases : List (List κ × π)) (w : List κ) : List π :=
  (phrases.filter fun e => e.1 = w).map Prod.snd

structure Holds (m : Machine κ π) (phrases : List (List κ × π)) (words : List (List κ)) : Prop where
  spells : m.Spells words
  own_iff : ∀ s w, words[s]? = some w → m.outs s = own phrases w
  fail_zero : ∀ s, m.failOf s = 0
  mem_words : ∀ e ∈ phrases, e.1 ∈ words

theorem Spells.index_inj (h : m.Spells words) (hs : words[s]? = some w) (ht : words[t]? = some w) : s = t := by
  obtain ⟨hlt, hws⟩ := List.getElem?_eq_some_iff.mp hs
  obtain ⟨htl, hwt⟩ := List.getElem?_eq_some_iff.mp ht
  exact (List.Nodup.getElem_inj_iff h.nodup).mp (hws.trans hwt.symm)

theorem Spells.next_eq_none_iff (h : m.Spells words) (hs : words[s]? = some w) :
    m.next s k = none ↔ w ++ [k] ∉ words := by
  constructor
  · intro hnone hmem
    obtain ⟨t, ht⟩ := List.mem_iff_getElem?.mp hmem
    have hsome : m.next s k = some t := (h.next_iff s k t).mpr ⟨w, hs, ht⟩
    rw [hnone] at hsome
    exact absurd hsome (Option.some_ne_none t).symm
  · intro hmem
    cases hn : m.next s k with
    | none => rfl
    | some t =>
      obtain ⟨v, hv, ht⟩ := (h.next_iff s k t).mp hn
      rw [hs] at hv
      rw [Option.some.inj hv] at hmem
      exact absurd (List.mem_of_getElem? ht) hmem

theorem next_grow (hsize : m.next s k = none) (hs : s < m.size) (a : Nat) (c : κ) :
    (m.grow s k).next a c = if a = s ∧ c = k then some m.size else m.next a c := by
  unfold next edges grow
  rw [List.getElem?_modify]
  by_cases ha : a = s
  · subst ha
    have hlt : a < m.transitions.length := hs
    rw [List.getElem?_append_left hlt, List.getElem?_eq_getElem hlt]
    simp
  · have hne : ¬ s = a := fun e => ha e.symm
    have hnot : ¬ (a = s ∧ c = k) := fun e => ha e.1
    rw [if_neg hnot]
    simp only [if_neg hne]
    rcases Nat.lt_or_ge a m.transitions.length with hlt | hge
    · rw [List.getElem?_append_left hlt]
      simp
    · rw [List.getElem?_append_right hge, List.getElem?_eq_none hge]
      cases a - m.transitions.length with
      | zero => rfl
      | succ n => rfl

theorem getElem?_concat_iff {α : Type} {l : List α} {a b : α} {i : Nat} :
    (l ++ [a])[i]? = some b ↔ l[i]? = some b ∨ (i = l.length ∧ b = a) := by
  rcases Nat.lt_trichotomy i l.length with hlt | heq | hgt
  · rw [List.getElem?_append_left hlt]
    have hne : i ≠ l.length := Nat.ne_of_lt hlt
    simp [hne]
  · rw [heq, List.getElem?_append_right (Nat.le_refl _), Nat.sub_self, List.getElem?_eq_none (Nat.le_refl _)]
    simp [eq_comm]
  · rw [List.getElem?_eq_none (by simp; omega), List.getElem?_eq_none (Nat.le_of_lt hgt)]
    have hne : i ≠ l.length := Nat.ne_of_gt hgt
    simp [hne]

theorem Spells.grow (h : m.Spells words) (hs : words[s]? = some w) (hnone : m.next s k = none) :
    (m.grow s k).Spells (words ++ [w ++ [k]]) := by
  have hfresh : w ++ [k] ∉ words := (h.next_eq_none_iff hs).mp hnone
  have hlt : s < words.length := (List.getElem?_eq_some_iff.mp hs).1
  have hsize : m.size = words.length := h.transitions_length
  refine ⟨?_, getElem?_concat_iff.mpr (Or.inl h.root), ?_, ?_, ?_, ?_, ?_⟩
  · rw [List.nodup_append]
    refine ⟨h.nodup, List.nodup_singleton _, ?_⟩
    intro a ha b hb hab
    rw [List.mem_singleton.mp hb] at hab
    exact hfresh (hab ▸ ha)
  · intro v c hv
    rcases List.mem_append.mp hv with hv | hv
    · exact List.mem_append_left _ (h.closed v c hv)
    · have heq := List.append_inj' (List.mem_singleton.mp hv) rfl
      rw [heq.1]
      exact List.mem_append_left _ (List.mem_of_getElem? hs)
  · show ((m.transitions ++ [Dict.empty]).modify s _).length = _
    rw [List.length_modify, List.length_append, List.length_append, h.transitions_length]
    rfl
  · show (m.fail ++ [0]).length = _
    rw [List.length_append, List.length_append, h.fail_length]
    rfl
  · show (m.outputs ++ [[]]).length = _
    rw [List.length_append, List.length_append, h.outputs_length]
    rfl
  · intro a c b
    rw [next_grow hnone (hsize ▸ hlt)]
    simp only [getElem?_concat_iff]
    by_cases hac : a = s ∧ c = k
    · obtain ⟨rfl, rfl⟩ := hac
      rw [if_pos ⟨rfl, rfl⟩, hsize]
      constructor
      · intro hb
        exact ⟨w, Or.inl hs, Or.inr ⟨(Option.some.inj hb).symm, rfl⟩⟩
      · rintro ⟨v, hv | hv, hb | hb⟩
        · rw [hs] at hv
          rw [← Option.some.inj hv] at hb
          exact absurd (List.mem_of_getElem? hb) hfresh
        · rw [hb.1]
        · omega
        · omega
    · rw [if_neg hac, h.next_iff]
      constructor
      · intro hb
        obtain ⟨v, hv, hb⟩ := hb
        exact ⟨v, Or.inl hv, Or.inl hb⟩
      · rintro ⟨v, hv | hv, hb | hb⟩
        · exact ⟨v, hv, hb⟩
        · -- the new word hangs under `s` alone
          have heq := List.append_inj' hb.2 rfl
          rw [heq.1] at hv
          exact absurd ⟨h.index_inj hv hs, List.singleton_inj.mp heq.2⟩ hac
        · -- and nothing hangs under it
          rw [hv.2] at hb
          exact absurd (h.closed _ c (List.mem_of_getElem? hb)) hfresh
        · have hlen := congrArg List.length hb.2
          rw [hv.2] at hlen
          simp at hlen

omit [DecidableEq κ] in
theorem outs_addOutput (h : s < m.outputs.length) (a : Nat) :
    (m.addOutput s p).outs a = if a = s then m.outs a ++ [p] else m.outs a := by
  unfold outs addOutput
  rw [List.getElem?_modify]
  by_cases ha : a = s
  · subst ha
    rw [List.getElem?_eq_getElem h]
    simp
  · have hne : ¬ s = a := fun e => ha e.symm
    simp [ha, hne]

omit [DecidableEq κ] in
theorem getD_concat_default {α : Type} {l : List α} {d : α} (a : Nat) : (l ++ [d])[a]?.getD d = l[a]?.getD d := by
  rcases Nat.lt_or_ge a l.length with hlt | hge
  · rw [List.getElem?_append_left hlt]
  · rw [List.getElem?_append_right hge, List.getElem?_eq_none hge]
    cases a - l.length with
    | zero => rfl
    | succ n => rfl

theorem outs_grow (a : Nat) : (m.grow s k).outs a = m.outs a := getD_concat_default a
theorem failOf_grow (a : Nat) : (m.grow s k).failOf a = m.failOf a := getD_concat_default a

theorem holds_initial : (initial : Machine κ π).Holds [] [[]] := by
  refine ⟨⟨List.nodup_singleton _, rfl, ?_, rfl, rfl, rfl, ?_⟩, ?_, ?_, ?_⟩
  · intro w k hw
    have hlen := congrArg List.length (List.mem_singleton.mp hw)
    simp at hlen
  · intro s k t
    have hnone : (initial : Machine κ π).next s k = none := by
      cases s with
      | zero => rfl
      | succ s => rfl
    rw [hnone]
    constructor
    · intro h
      exact absurd h (Option.some_ne_none t).symm
    · rintro ⟨w, -, ht⟩
      have hlen := congrArg List.length (List.mem_singleton.mp (List.mem_of_getElem? ht))
      simp at hlen
  · intro s w _
    cases s with
    | zero => rfl
    | succ s => rfl
  · intro s
    cases s with
    | zero => rfl
    | succ s => rfl
  · intro e he
    exact absurd he List.not_mem_nil

theorem own_concat {phrases : List (List κ × π)} (v : List κ) :
    own (phrases ++ [(w, p)]) v = if v = w then own phrases v ++ [p] else own phrases v := by
  unfold own
  rw [List.filter_append, List.map_append]
  by_cases hvw : v = w
  · simp [hvw]
  · have hne : ¬ w = v := fun e => hvw e.symm
    simp [hvw, hne]

theorem own_eq_nil {phrases : List (List κ × π)} (h : ∀ e ∈ phrases, e.1 ≠ w) : own phrases w = [] := by
  unfold own
  rw [List.map_eq_nil_iff, List.filter_eq_nil_iff]
  intro e he hew
  exact h e he (of_decide_eq_true hew)

theorem Holds.grow {phrases : List (List κ × π)} (h : m.Holds phrases words) (hs : words[s]? = some w)
    (hnone : m.next s k = none) : (m.grow s k).Holds phrases (words ++ [w ++ [k]]) := by
  have hfresh : w ++ [k] ∉ words := (h.spells.next_eq_none_iff hs).mp hnone
  refine ⟨h.spells.grow hs hnone, ?_, ?_, fun e he => List.mem_append_left _ (h.mem_words e he)⟩
  · intro a v hv
    rw [outs_grow]
    rcases getElem?_concat_iff.mp hv with hv | hv
    · exact h.own_iff a v hv
    · have hout : m.outs a = [] := by
        unfold outs
        rw [hv.1, List.getElem?_eq_none (Nat.le_of_eq h.spells.outputs_length)]
        rfl
      rw [hout, hv.2, own_eq_nil]
      intro e he heq
      exact hfresh (heq ▸ h.mem_words e he)
  · intro a
    rw [failOf_grow, h.fail_zero a]

theorem Holds.addOutput {phrases : List (List κ × π)} (h : m.Holds phrases words) (hs : words[s]? = some w) :
    (m.addOutput s p).Holds (phrases ++ [(w, p)]) words := by
  have hlt : s < m.outputs.length := by
    rw [h.spells.outputs_length]
    exact (List.getElem?_eq_some_iff.mp hs).1
  have hlength : (m.addOutput s p).outputs.length = words.length := by
    show (m.outputs.modify s _).length = _
    rw [List.length_modify, h.spells.outputs_length]
  refine ⟨{ h.spells with outputs_length := hlength }, ?_, h.fail_zero, ?_⟩
  · intro a v hv
    rw [outs_addOutput hlt, own_concat, h.own_iff a v hv]
    by_cases ha : a = s
    · rw [ha, hs] at hv
      rw [if_pos ha, if_pos (Option.some.inj hv).symm]
    · have hvw : v ≠ w := fun e => ha (h.spells.index_inj (e ▸ hv) hs)
      rw [if_neg ha, if_neg hvw]
  · intro e he
    rcases List.mem_append.mp he with he | he
    · exact h.mem_words e he
    · rw [List.mem_singleton.mp he]
      exact List.mem_of_getElem? hs

theorem Holds.addChain {phrases : List (List κ × π)} (rest : List κ) (h : m.Holds phrases words)
    (hs : words[s]? = some w) :
    ∃ words', (addChain p m s rest).Holds (phrases ++ [(w ++ rest, p)]) words' := by
  induction rest generalizing m words s w with
  | nil =>
    rw [List.append_nil]
    exact ⟨words, h.addOutput hs⟩
  | cons k rest ih =>
    have hassoc : w ++ k :: rest = (w ++ [k]) ++ rest := by simp
    rw [hassoc, Machine.addChain]
    cases hn : m.next s k with
    | some t =>
      obtain ⟨v, hv, ht⟩ := (h.spells.next_iff s k t).mp hn
      rw [hs] at hv
      rw [← Option.some.inj hv] at ht
      exact ih h ht
    | none =>
      apply ih (h.grow hs hn)
      exact getElem?_concat_iff.mpr (Or.inr ⟨h.spells.transitions_length, rfl⟩)

def ofPhrases (phrases : List (List κ × π)) : Machine κ π :=
  phrases.foldl (fun m e => addChain e.2 m 0 e.1) initial

theorem holds_ofPhrases (phrases : List (List κ × π)) :
    ∃ words, (ofPhrases phrases).Holds phrases words := by
  induction phrases using List.reverseRecOn with
  | nil => exact ⟨[[]], holds_initial⟩
  | append_singleton phrases e ih =>
    obtain ⟨words, h⟩ := ih
    have hstep : ofPhrases (phrases ++ [e]) = addChain e.2 (ofPhrases phrases) 0 e.1 := by
      unfold ofPhrases
      rw [List.foldl_append]
      rfl
    rw [hstep]
    exact h.addChain e.1 h.spells.root

/-! ## Longest suffixes -/

/-- The longest suffix of `x` that is a word. -/
structure Longest (words : List (List κ)) (x w : List κ) : Prop where
  mem : w ∈ words
  suffix : w <:+ x
  greatest : ∀ g ∈ words, g <:+ x → g <:+ w

def FailsUpTo (m : Machine κ π) (words : List (List κ)) (n : Nat) : Prop :=
  ∀ s w, words[s]? = some w → w.length ≤ n → ∃ f, words[m.failOf s]? = some f ∧ Longest words w.tail f

theorem Spells.length_le (h : m.Spells words) (hw : w ∈ words) : w.length < words.length := by
  have hmem : ∀ v : List κ, v ∈ words → ∀ i, v.take i ∈ words := by
    intro v
    induction v using List.reverseRecOn with
    | nil =>
      intro hv i
      rwa [List.take_nil]
    | append_singleton v c ih =>
      intro hv i
      rcases Nat.lt_or_ge v.length i with hlt | hge
      · rwa [List.take_of_length_le (by simp; omega)]
      · rw [List.take_append_of_le_length hge]
        exact ih (h.closed v c hv) i
  have hcard : (Finset.range (w.length + 1)).card ≤ words.toFinset.card := by
    apply Finset.card_le_card_of_injOn (fun i => w.take i)
    · intro i _
      exact List.mem_toFinset.mpr (hmem w hw i)
    · intro i hi j hj hij
      have hlen := congrArg List.length hij
      simp only [List.length_take] at hlen
      have hi' := Finset.mem_range.mp hi
      have hj' := Finset.mem_range.mp hj
      omega
  rw [Finset.card_range, List.toFinset_card_of_nodup h.nodup] at hcard
  exact hcard

theorem Spells.eq_root (h : m.Spells words) (hs : words[s]? = some []) : s = 0 := h.index_inj hs h.root

omit [DecidableEq κ] in
theorem suffix_tail {g w : List κ} (h : g <:+ w) (hne : g ≠ w) : g <:+ w.tail := by
  cases w with
  | nil => exact absurd (List.suffix_nil.mp h) hne
  | cons c w =>
    rcases List.suffix_cons_iff.mp h with heq | htail
    · exact absurd heq hne
    · exact htail

theorem follow_spec (h : m.Spells words) (n : Nat) (hs : words[s]? = some w) (hn : w.length ≤ n)
    (hfails : m.FailsUpTo words w.length) (hsuffix : w <:+ x)
    (hall : ∀ g, g ++ [k] ∈ words → g <:+ x → g <:+ w) :
    ∃ v, words[m.follow k n s]? = some v ∧ v <:+ x ∧ (∀ g, g ++ [k] ∈ words → g <:+ x → g <:+ v) ∧
      (v = [] ∨ v ++ [k] ∈ words) := by
  induction n generalizing s w with
  | zero =>
    have hnil : w = [] := List.length_eq_zero_iff.mp (Nat.le_zero.mp hn)
    exact ⟨w, hs, hsuffix, hall, Or.inl hnil⟩
  | succ n ih =>
    rw [follow]
    by_cases hstop : s ≠ 0 ∧ m.next s k = none
    · rw [if_pos hstop]
      have hne : w ≠ [] := fun e => hstop.1 (h.eq_root (e ▸ hs))
      have hpos : 0 < w.length := List.length_pos_iff.mpr hne
      obtain ⟨f, hf, hlongest⟩ := hfails s w hs (Nat.le_refl _)
      have hflen : f.length < w.length := by
        have hle := hlongest.suffix.length_le
        rw [List.length_tail] at hle
        omega
      apply ih hf (by omega)
      · intro a v hv hlen
        exact hfails a v hv (by omega)
      · exact (hlongest.suffix.trans (List.tail_suffix w)).trans hsuffix
      · intro g hg hgx
        have hgw : g ≠ w := by
          intro e
          exact (h.next_eq_none_iff hs).mp hstop.2 (e ▸ hg)
        exact hlongest.greatest g (h.closed g k hg) (suffix_tail (hall g hg hgx) hgw)
    · rw [if_neg hstop]
      refine ⟨w, hs, hsuffix, hall, ?_⟩
      by_cases hroot : s = 0
      · left
        have hrootWord := h.root
        rw [← hroot, hs] at hrootWord
        exact Option.some.inj hrootWord
      · right
        by_contra hmem
        exact hstop ⟨hroot, (h.next_eq_none_iff hs).mpr hmem⟩

theorem advance_spec (h : m.Spells words) (hs : words[s]? = some w) (hfails : m.FailsUpTo words w.length)
    (hlongest : Longest words x w) (k : κ) :
    ∃ v, words[m.advance s k]? = some v ∧ Longest words (x ++ [k]) v := by
  have hfuel : w.length ≤ m.size := by
    have hlt := h.length_le hlongest.mem
    rw [← h.transitions_length] at hlt
    exact Nat.le_of_lt hlt
  have hall : ∀ g, g ++ [k] ∈ words → g <:+ x → g <:+ w := fun g hg hgx =>
    hlongest.greatest g (h.closed g k hg) hgx
  obtain ⟨v, hv, hvx, hvall, hend⟩ := follow_spec h m.size hs hfuel hfails hlongest.suffix hall
  -- a word that ends the longer text is a word that could go on with `k`
  have hback : ∀ g ∈ words, g <:+ x ++ [k] → g = [] ∨ ∃ g', g = g' ++ [k] ∧ g' <:+ v := by
    intro g hg hgx
    rcases List.suffix_concat_iff.mp hgx with hnil | ⟨g', rfl, hg'⟩
    · exact Or.inl hnil
    · exact Or.inr ⟨g', rfl, hvall g' hg hg'⟩
  rw [advance]
  cases hn : m.next (m.follow k m.size s) k with
  | some t =>
    obtain ⟨u, hu, ht⟩ := (h.next_iff _ _ _).mp hn
    rw [hv] at hu
    rw [← Option.some.inj hu] at ht
    refine ⟨v ++ [k], ht, List.mem_of_getElem? ht, List.suffix_append_self_iff.mpr hvx, ?_⟩
    intro g hg hgx
    rcases hback g hg hgx with rfl | ⟨g', rfl, hg'⟩
    · exact List.nil_suffix
    · exact List.suffix_append_self_iff.mpr hg'
  | none =>
    have hv' := (h.next_eq_none_iff hv).mp hn
    have hnil : v = [] := hend.resolve_right hv'
    refine ⟨[], h.root, List.mem_of_getElem? h.root, List.nil_suffix, ?_⟩
    intro g hg hgx
    rcases hback g hg hgx with rfl | ⟨g', rfl, hg'⟩
    · exact List.nil_suffix
    · rw [hnil] at hg' hv'
      rw [List.suffix_nil.mp hg'] at hg
      exact absurd hg hv'

/-! ## The walk -/

def hits (phrases : List (List κ × π)) (x : List κ) : List π :=
  (phrases.filter fun e => e.1 <:+ x).map Prod.snd

def Linked (m : Machine κ π) (phrases : List (List κ × π)) (words : List (List κ)) (s : Nat) : Prop :=
  ∀ w, words[s]? = some w →
    (∃ f, words[m.failOf s]? = some f ∧ Longest words w.tail f) ∧ (m.outs s).Perm (hits phrases w)

theorem own_append_hits {phrases : List (List κ × π)} (hmem : ∀ e ∈ phrases, e.1 ∈ words)
    (hw : w ≠ []) {f : List κ} (hf : Longest words w.tail f) :
    (own phrases w ++ hits phrases f).Perm (hits phrases w) := by
  have hiff : ∀ g ∈ words, g <:+ w ↔ g = w ∨ g <:+ f := by
    intro g hg
    constructor
    · intro hgw
      by_cases heq : g = w
      · exact Or.inl heq
      · exact Or.inr (hf.greatest g hg (suffix_tail hgw heq))
    · rintro (rfl | hgf)
      · exact List.suffix_refl g
      · exact (hgf.trans hf.suffix).trans (List.tail_suffix w)
  have hnot : ¬ w <:+ f := by
    intro hwf
    have hle := (hwf.trans hf.suffix).length_le
    have hpos := List.length_pos_iff.mpr hw
    rw [List.length_tail] at hle
    omega
  unfold own hits
  rw [← List.map_append]
  apply List.Perm.map
  induction phrases with
  | nil => exact List.Perm.refl _
  | cons e phrases ih =>
    have ih' := ih fun a ha => hmem a (List.mem_cons_of_mem _ ha)
    have he := hiff e.1 (hmem e List.mem_cons_self)
    by_cases heq : e.1 = w
    · have hef : ¬ e.1 <:+ f := heq ▸ hnot
      rw [List.filter_cons_of_pos (by simp [heq]), List.filter_cons_of_neg (by simp [hef]),
        List.filter_cons_of_pos (by simp [heq]), List.cons_append]
      exact ih'.cons e
    · by_cases hef : e.1 <:+ f
      · rw [List.filter_cons_of_neg (by simp [heq]), List.filter_cons_of_pos (by simp [hef]),
          List.filter_cons_of_pos (by simp [he.mpr (Or.inr hef)])]
        exact List.perm_middle.trans (ih'.cons e)
      · have hnone : ¬ e.1 <:+ w := fun hew => (he.mp hew).elim heq hef
        rw [List.filter_cons_of_neg (by simp [heq]), List.filter_cons_of_neg (by simp [hef]),
          List.filter_cons_of_neg (by simp [hnone])]
        exact ih'

section Walk
variable {phrases : List (List κ × π)} {r : Nat}

theorem Linked.congr {m' : Machine κ π} (h : Linked m phrases words s) (hfail : m'.failOf s = m.failOf s)
    (houts : m'.outs s = m.outs s) : Linked m' phrases words s := by
  intro w hw
  rw [hfail, houts]
  exact h w hw

theorem failOf_linkChild {child : κ × Nat} (h : child.2 < m.fail.length) (a : Nat) :
    (linkChild r m child).failOf a = if a = child.2 then m.advance (m.failOf r) child.1 else m.failOf a := by
  unfold failOf linkChild
  rw [List.getElem?_set]
  by_cases ha : a = child.2
  · have heq : child.2 = a := ha.symm
    rw [if_pos heq, if_pos h, if_pos ha]
    rfl
  · have hne : ¬ child.2 = a := fun e => ha e.symm
    rw [if_neg hne, if_neg ha]

theorem outs_linkChild {child : κ × Nat} (h : child.2 < m.outputs.length) (a : Nat) :
    (linkChild r m child).outs a =
      if a = child.2 then m.outs a ++ m.outs (m.advance (m.failOf r) child.1) else m.outs a := by
  unfold outs linkChild
  rw [List.getElem?_modify]
  by_cases ha : a = child.2
  · rw [ha, List.getElem?_eq_getElem h]
    simp [outs]
  · have hne : ¬ child.2 = a := fun e => ha e.symm
    simp [ha, hne]

theorem Spells.linkChild (h : m.Spells words) (child : κ × Nat) : (linkChild r m child).Spells words where
  nodup := h.nodup
  root := h.root
  closed := h.closed
  transitions_length := h.transitions_length
  fail_length := (List.length_set ..).trans h.fail_length
  outputs_length := (List.length_modify ..).trans h.outputs_length
  next_iff := h.next_iff

def LinkedUpTo (m : Machine κ π) (phrases : List (List κ × π)) (words : List (List κ)) (n : Nat) : Prop :=
  ∀ s w, words[s]? = some w → w.length ≤ n → Linked m phrases words s

theorem LinkedUpTo.fails {n : Nat} (h : LinkedUpTo m phrases words n) : m.FailsUpTo words n :=
  fun s w hs hn => (h s w hs hn w hs).1

theorem linked_linkChild (h : m.Spells words) (hmem : ∀ e ∈ phrases, e.1 ∈ words) (hr : words[r]? = some w)
    (hw : w ≠ []) (hlinked : LinkedUpTo m phrases words w.length) (hu : m.next r k = some t)
    (hown : m.outs t = own phrases (w ++ [k])) : Linked (linkChild r m (k, t)) phrases words t := by
  obtain ⟨u, hwu, hwt⟩ := (h.next_iff r k t).mp hu
  rw [hr] at hwu
  rw [← Option.some.inj hwu] at hwt
  have hlt : t < words.length := (List.getElem?_eq_some_iff.mp hwt).1
  obtain ⟨f, hf, hlongest⟩ := hlinked.fails r w hr (Nat.le_refl _)
  have hflen : f.length ≤ w.length := by
    have hle := hlongest.suffix.length_le
    rw [List.length_tail] at hle
    omega
  obtain ⟨v, hv, hvlongest⟩ := advance_spec h hf (fun a b hb hn => hlinked.fails a b hb (hn.trans hflen)) hlongest k
  have htail : (w ++ [k]).tail = w.tail ++ [k] := by
    cases w with
    | nil => exact absurd rfl hw
    | cons c w => rfl
  have hvlen : v.length ≤ w.length := by
    have hle := hvlongest.suffix.length_le
    have hpos := List.length_pos_iff.mpr hw
    rw [List.length_append, List.length_tail, List.length_singleton] at hle
    omega
  intro x hx
  rw [hwt] at hx
  rw [← Option.some.inj hx]
  rw [failOf_linkChild (h.fail_length ▸ hlt), outs_linkChild (h.outputs_length ▸ hlt), if_pos rfl, if_pos rfl]
  rw [htail]
  refine ⟨⟨v, hv, hvlongest⟩, ?_⟩
  have houts := (hlinked _ v hv hvlen v hv).2
  have hsplit := own_append_hits hmem (List.append_ne_nil_of_right_ne_nil w (List.cons_ne_nil k []))
    (htail ▸ hvlongest)
  rw [hown]
  exact (houts.append_left _).trans hsplit

theorem linked_linkChildren (h : m.Spells words) (hmem : ∀ e ∈ phrases, e.1 ∈ words) (hr : words[r]? = some w)
    (hw : w ≠ []) (hlinked : LinkedUpTo m phrases words w.length) (cs : List (κ × Nat))
    (hcs : ∀ c ∈ cs, m.next r c.1 = some c.2) (hown : ∀ c ∈ cs, m.outs c.2 = own phrases (w ++ [c.1]))
    (hnodup : (cs.map Prod.snd).Nodup) :
    (cs.foldl (linkChild r) m).Spells words ∧ (∀ s, (cs.foldl (linkChild r) m).edges s = m.edges s) ∧
      (∀ s, s ∉ cs.map Prod.snd →
        (cs.foldl (linkChild r) m).failOf s = m.failOf s ∧ (cs.foldl (linkChild r) m).outs s = m.outs s) ∧
      ∀ c ∈ cs, Linked (cs.foldl (linkChild r) m) phrases words c.2 := by
  induction cs generalizing m with
  | nil => exact ⟨h, fun _ => rfl, fun _ _ => ⟨rfl, rfl⟩, fun c hc => absurd hc List.not_mem_nil⟩
  | cons c cs ih =>
    rw [List.map_cons, List.nodup_cons] at hnodup
    have hc := hcs c List.mem_cons_self
    obtain ⟨u, hwu, hwc⟩ := (h.next_iff r c.1 c.2).mp hc
    rw [hr] at hwu
    rw [← Option.some.inj hwu] at hwc
    have hlt : c.2 < words.length := (List.getElem?_eq_some_iff.mp hwc).1
    have hfail : ∀ s, s ≠ c.2 → (linkChild r m c).failOf s = m.failOf s := fun s hs => by
      rw [failOf_linkChild (h.fail_length ▸ hlt), if_neg hs]
    have houts : ∀ s, s ≠ c.2 → (linkChild r m c).outs s = m.outs s := fun s hs => by
      rw [outs_linkChild (h.outputs_length ▸ hlt), if_neg hs]
    have hlinked' : LinkedUpTo (linkChild r m c) phrases words w.length := by
      intro s v hs hv
      have hne : s ≠ c.2 := by
        intro e
        rw [e, hwc] at hs
        rw [← Option.some.inj hs, List.length_append, List.length_singleton] at hv
        omega
      exact (hlinked s v hs hv).congr (hfail s hne) (houts s hne)
    have hnot : ∀ a ∈ cs, a.2 ≠ c.2 := fun a ha e => hnodup.1 (e ▸ List.mem_map_of_mem ha)
    obtain ⟨hspells, hedges, hrest, hdone⟩ := ih (h.linkChild c) hlinked'
      (fun a ha => hcs a (List.mem_cons_of_mem _ ha))
      (fun a ha => by rw [houts a.2 (hnot a ha)]; exact hown a (List.mem_cons_of_mem _ ha)) hnodup.2
    refine ⟨hspells, hedges, ?_, ?_⟩
    · intro s hs
      rw [List.map_cons, List.mem_cons] at hs
      push Not at hs
      obtain ⟨hf, ho⟩ := hrest s hs.2
      exact ⟨hf.trans (hfail s hs.1), ho.trans (houts s hs.1)⟩
    · intro a ha
      rcases List.mem_cons.mp ha with rfl | ha
      · have hself := linked_linkChild h hmem hr hw hlinked hc (hown a List.mem_cons_self)
        obtain ⟨hf, ho⟩ := hrest a.2 hnodup.1
        exact hself.congr hf ho
      · exact hdone a ha

structure Walked (m : Machine κ π) (phrases : List (List κ × π)) (words : List (List κ))
    (done queue : List Nat) : Prop where
  spells : m.Spells words
  mem_words : ∀ e ∈ phrases, e.1 ∈ words
  linked : ∀ s, s = 0 ∨ s ∈ done ++ queue → Linked m phrases words s
  fresh : ∀ s w, words[s]? = some w → s ≠ 0 → s ∉ done ++ queue → m.outs s = own phrases w
  children : ∀ r k t, m.next r k = some t → (t ∈ done ++ queue ↔ r = 0 ∨ r ∈ done)
  valid : ∀ s ∈ done ++ queue, ∃ w, words[s]? = some w ∧ w ≠ []
  sorted : (done ++ queue).Pairwise fun a b =>
    ∀ v w, words[a]? = some v → words[b]? = some w → v.length ≤ w.length
  nodup : (done ++ queue).Nodup

variable {done queue : List Nat}

theorem Spells.parent (h : m.Spells words) (hs : words[s]? = some (w ++ [k])) :
    ∃ r, words[r]? = some w ∧ m.next r k = some s := by
  obtain ⟨r, hr⟩ := List.mem_iff_getElem?.mp (h.closed w k (List.mem_of_getElem? hs))
  exact ⟨r, hr, (h.next_iff r k s).mpr ⟨w, hr, hs⟩⟩

theorem Walked.linkedUpTo (h : m.Walked phrases words done (r :: queue)) (hr : words[r]? = some w) :
    LinkedUpTo m phrases words w.length := by
  have hseen : ∀ v s, words[s]? = some v → v.length ≤ w.length → s = 0 ∨ s ∈ done ++ r :: queue := by
    intro v
    induction v using List.reverseRecOn with
    | nil =>
      intro s hs _
      exact Or.inl (h.spells.eq_root hs)
    | append_singleton v k ih =>
      intro s hs hle
      rw [List.length_append, List.length_singleton] at hle
      obtain ⟨p, hp, hnext⟩ := h.spells.parent hs
      right
      apply (h.children p k s hnext).mpr
      rcases ih p hp (by omega) with hroot | hmem
      · exact Or.inl hroot
      · right
        rcases List.mem_append.mp hmem with hdone | hqueue
        · exact hdone
        · -- the queue holds nothing above its first state
          have hsorted := (List.pairwise_append.mp h.sorted).2.1
          rcases List.mem_cons.mp hqueue with heq | hlater
          · rw [heq, hr] at hp
            rw [Option.some.inj hp] at hle
            omega
          · have hle' := (List.pairwise_cons.mp hsorted).1 p hlater w v hr hp
            omega
  intro s v hs hv
  exact h.linked s (hseen v s hs hv)

theorem Walked.step (h : m.Walked phrases words done (r :: queue)) :
    ((m.edges r).items.foldl (linkChild r) m).Walked phrases words (done ++ [r])
      (queue ++ (m.edges r).items.map Prod.snd) := by
  have hmemr : r ∈ done ++ r :: queue := List.mem_append_right _ List.mem_cons_self
  obtain ⟨w, hr, hw⟩ := h.valid r hmemr
  have hr0 : r ≠ 0 := by
    intro e
    rw [e, h.spells.root] at hr
    exact hw (Option.some.inj hr).symm
  have hrdone : r ∉ done := fun hd => (List.nodup_append.mp h.nodup).2.2 r hd r List.mem_cons_self rfl
  have hcs : ∀ c ∈ (m.edges r).items, m.next r c.1 = some c.2 := fun c hc => Dict.get?_eq_some_iff.mpr hc
  have hword : ∀ c ∈ (m.edges r).items, words[c.2]? = some (w ++ [c.1]) := by
    intro c hc
    obtain ⟨u, hu, hwc⟩ := (h.spells.next_iff r c.1 c.2).mp (hcs c hc)
    rw [hr] at hu
    rwa [Option.some.inj hu]
  have hnew : ∀ c ∈ (m.edges r).items, c.2 ∉ done ++ r :: queue := by
    intro c hc hmem
    rcases (h.children r c.1 c.2 (hcs c hc)).mp hmem with h0 | hd
    · exact hr0 h0
    · exact hrdone hd
  have hne0 : ∀ c ∈ (m.edges r).items, c.2 ≠ 0 := by
    intro c hc e
    have hwc := hword c hc
    rw [e, h.spells.root] at hwc
    exact absurd (Option.some.inj hwc).symm (List.append_ne_nil_of_right_ne_nil w (List.cons_ne_nil _ _))
  have hunodup : ((m.edges r).items.map Prod.snd).Nodup := by
    apply List.Nodup.map_on _ (List.Nodup.of_map Prod.fst (m.edges r).nodup)
    intro a ha b hb hab
    have hwa := hword a ha
    rw [hab, hword b hb] at hwa
    have heq := List.append_inj' (Option.some.inj hwa) rfl
    exact Prod.ext (List.singleton_inj.mp heq.2).symm hab
  obtain ⟨hspells, hedges, hrest, hlinked⟩ := linked_linkChildren h.spells h.mem_words hr hw (h.linkedUpTo hr)
    (m.edges r).items hcs (fun c hc => h.fresh c.2 _ (hword c hc) (hne0 c hc) (hnew c hc)) hunodup
  have hmem : ∀ s, s ∈ (done ++ [r]) ++ (queue ++ (m.edges r).items.map Prod.snd) ↔
      s ∈ done ++ r :: queue ∨ s ∈ (m.edges r).items.map Prod.snd := by
    intro s
    simp only [List.mem_append, List.mem_cons, List.not_mem_nil, or_false]
    tauto
  have hold : ∀ s, s = 0 ∨ s ∈ done ++ r :: queue → s ∉ (m.edges r).items.map Prod.snd := by
    intro s hs hmem'
    obtain ⟨c, hc, rfl⟩ := List.mem_map.mp hmem'
    rcases hs with h0 | hs
    · exact hne0 c hc h0
    · exact hnew c hc hs
  refine ⟨hspells, h.mem_words, ?_, ?_, ?_, ?_, ?_, ?_⟩
  · intro s hs
    rw [hmem, ← or_assoc] at hs
    rcases hs with hs | hs
    · obtain ⟨hf, ho⟩ := hrest s (hold s hs)
      exact (h.linked s hs).congr hf ho
    · obtain ⟨c, hc, rfl⟩ := List.mem_map.mp hs
      exact hlinked c hc
  · intro s v hs h0 hnot
    rw [hmem] at hnot
    push Not at hnot
    rw [(hrest s hnot.2).2]
    exact h.fresh s v hs h0 hnot.1
  · intro a k t hnext
    rw [next, hedges a] at hnext
    have hiff := h.children a k t hnext
    rw [hmem, @List.mem_append _ a, List.mem_singleton]
    constructor
    · intro ht
      rcases ht with ht | ht
      · rcases hiff.mp ht with h0 | hd
        · exact Or.inl h0
        · exact Or.inr (Or.inl hd)
      · -- a new state hangs under `r`
        obtain ⟨c, hc, rfl⟩ := List.mem_map.mp ht
        obtain ⟨u, hu, hwt⟩ := (h.spells.next_iff a k c.2).mp hnext
        rw [hword c hc] at hwt
        rw [← (List.append_inj' (Option.some.inj hwt) rfl).1] at hu
        exact Or.inr (Or.inr (h.spells.index_inj hu hr))
    · intro ha
      rcases ha with h0 | hd | rfl
      · exact Or.inl (hiff.mpr (Or.inl h0))
      · exact Or.inl (hiff.mpr (Or.inr hd))
      · exact Or.inr (List.mem_map.mpr ⟨(k, t), Dict.get?_eq_some_iff.mp hnext, rfl⟩)
  · intro s hs
    rcases (hmem s).mp hs with hs | hs
    · exact h.valid s hs
    · obtain ⟨c, hc, rfl⟩ := List.mem_map.mp hs
      exact ⟨_, hword c hc, List.append_ne_nil_of_right_ne_nil w (List.cons_ne_nil _ _)⟩
  · rw [List.append_assoc, List.singleton_append, ← List.cons_append, ← List.append_assoc]
    rw [List.pairwise_append]
    refine ⟨h.sorted, ?_, ?_⟩
    · rw [List.pairwise_map]
      apply List.pairwise_of_forall_mem_list
      intro a ha b hb u v hu hv
      rw [hword a ha] at hu
      rw [hword b hb] at hv
      rw [← Option.some.inj hu, ← Option.some.inj hv]
      simp
    · intro a ha b hb u v hu hv
      obtain ⟨c, hc, rfl⟩ := List.mem_map.mp hb
      rw [hword c hc] at hv
      rw [← Option.some.inj hv, List.length_append, List.length_singleton]
      -- the parent of a state in sight is done, so no deeper than `r`
      rcases List.eq_nil_or_concat' u with rfl | ⟨u', k, rfl⟩
      · exact Nat.zero_le _
      · obtain ⟨p, hp, hnext⟩ := h.spells.parent hu
        have hple : u'.length ≤ w.length := by
          rcases (h.children p k a hnext).mp ha with h0 | hd
          · rw [h0, h.spells.root] at hp
            rw [← Option.some.inj hp]
            exact Nat.zero_le _
          · exact (List.pairwise_append.mp h.sorted).2.2 p hd r List.mem_cons_self u' w hp hr
        rw [List.length_append, List.length_singleton]
        omega
  · rw [List.append_assoc, List.singleton_append, ← List.cons_append, ← List.append_assoc]
    rw [List.nodup_append]
    refine ⟨h.nodup, hunodup, ?_⟩
    intro a ha b hb hab
    exact hold a (Or.inr ha) (hab ▸ hb)

theorem Walked.length_lt (h : m.Walked phrases words done queue) : (done ++ queue).length < words.length := by
  have hroot : 0 ∉ done ++ queue := by
    intro hmem
    obtain ⟨w, hw, hne⟩ := h.valid 0 hmem
    rw [h.spells.root] at hw
    exact hne (Option.some.inj hw).symm
  have hnodup : (0 :: (done ++ queue)).Nodup := List.nodup_cons.mpr ⟨hroot, h.nodup⟩
  have hsub : ∀ s ∈ 0 :: (done ++ queue), s ∈ List.range words.length := by
    intro s hs
    rw [List.mem_range]
    rcases List.mem_cons.mp hs with rfl | hs
    · exact (List.getElem?_eq_some_iff.mp h.spells.root).1
    · obtain ⟨w, hw, -⟩ := h.valid s hs
      exact (List.getElem?_eq_some_iff.mp hw).1
  have hle := (List.subperm_of_subset hnodup hsub).length_le
  rw [List.length_range] at hle
  exact hle

theorem Walked.linkFrom (n : Nat) (h : m.Walked phrases words done queue) (hn : words.length ≤ n + done.length) :
    ∃ done', (linkFrom n m queue).Walked phrases words done' [] := by
  induction n generalizing m done queue with
  | zero =>
    have hlt := h.length_lt
    rw [List.length_append] at hlt
    omega
  | succ n ih =>
    cases queue with
    | nil => exact ⟨done, h⟩
    | cons r queue =>
      apply ih h.step
      rw [List.length_append, List.length_singleton]
      omega

theorem Walked.linkedAll (h : m.Walked phrases words done []) (s : Nat) : Linked m phrases words s := by
  have hseen : ∀ v s, words[s]? = some v → s = 0 ∨ s ∈ done := by
    intro v
    induction v using List.reverseRecOn with
    | nil =>
      intro s hs
      exact Or.inl (h.spells.eq_root hs)
    | append_singleton v k ih =>
      intro s hs
      obtain ⟨p, hp, hnext⟩ := h.spells.parent hs
      have hmem := (h.children p k s hnext).mpr (ih p hp)
      rw [List.append_nil] at hmem
      exact Or.inr hmem
  intro w hw
  apply h.linked s _ w hw
  rw [List.append_nil]
  exact hseen w s hw

theorem hits_nil (h : ∀ e ∈ phrases, e.1 ≠ []) : hits phrases ([] : List κ) = [] := by
  unfold hits
  rw [List.map_eq_nil_iff, List.filter_eq_nil_iff]
  intro e he hsuffix
  exact h e he (List.suffix_nil.mp (of_decide_eq_true hsuffix))

omit [DecidableEq κ] in
theorem getD_foldl_set (children : List Nat) (fail : List Nat) (h : ∀ a : Nat, fail[a]?.getD 0 = 0) (a : Nat) :
    (children.foldl (fun fail s => fail.set s 0) fail)[a]?.getD 0 = 0 := by
  induction children generalizing fail with
  | nil => exact h a
  | cons c children ih =>
    apply ih
    intro b
    rw [List.getElem?_set]
    by_cases hb : c = b
    · rw [if_pos hb]
      split <;> rfl
    · rw [if_neg hb]
      exact h b

omit [DecidableEq κ] in
theorem length_foldl_set (children : List Nat) (fail : List Nat) :
    (children.foldl (fun fail s => fail.set s 0) fail).length = fail.length := by
  induction children generalizing fail with
  | nil => rfl
  | cons c children ih => rw [List.foldl_cons, ih, List.length_set]

theorem Holds.walked (h : m.Holds phrases words) (hne : ∀ e ∈ phrases, e.1 ≠ []) :
    Walked { m with fail := ((m.edges 0).items.map Prod.snd).foldl (fun fail s => fail.set s 0) m.fail }
      phrases words [] ((m.edges 0).items.map Prod.snd) := by
  have hspells : Spells { m with
      fail := ((m.edges 0).items.map Prod.snd).foldl (fun fail s => fail.set s 0) m.fail } words :=
    { h.spells with
      fail_length := (length_foldl_set _ _).trans h.spells.fail_length
      next_iff := h.spells.next_iff }
  have hword : ∀ c ∈ (m.edges 0).items, words[c.2]? = some [c.1] := by
    intro c hc
    obtain ⟨u, hu, hwc⟩ := (h.spells.next_iff 0 c.1 c.2).mp (Dict.get?_eq_some_iff.mpr hc)
    rw [h.spells.root] at hu
    rwa [← Option.some.inj hu] at hwc
  have hlongest : Longest words ([] : List κ) [] :=
    ⟨List.mem_of_getElem? h.spells.root, List.nil_suffix, fun g _ hg => hg⟩
  have hshort : ∀ s w, s = 0 ∨ s ∈ [] ++ (m.edges 0).items.map Prod.snd → words[s]? = some w → w.tail = [] := by
    intro s w hs hw
    rcases hs with rfl | hs
    · rw [h.spells.root] at hw
      rw [← Option.some.inj hw]
      rfl
    · obtain ⟨c, hc, rfl⟩ := List.mem_map.mp hs
      rw [hword c hc] at hw
      rw [← Option.some.inj hw]
      rfl
  refine ⟨hspells, h.mem_words, ?_, ?_, ?_, ?_, ?_, ?_⟩
  · intro s hs w hw
    have hfail := getD_foldl_set ((m.edges 0).items.map Prod.snd) m.fail h.fail_zero s
    refine ⟨⟨[], ?_, ?_⟩, ?_⟩
    · show words[_]? = _
      rw [failOf, hfail]
      exact h.spells.root
    · rw [hshort s w hs hw]
      exact hlongest
    · show (m.outs s).Perm (hits phrases w)
      rw [h.own_iff s w hw]
      by_cases hnil : w = []
      · rw [hnil, hits_nil hne, own_eq_nil hne]
      · have htail : Longest words w.tail [] := by
          rw [hshort s w hs hw]
          exact hlongest
        have hsplit := own_append_hits h.mem_words hnil htail
        rwa [hits_nil hne, List.append_nil] at hsplit
  · intro s w hs _ _
    exact h.own_iff s w hs
  · intro r k t hnext
    have hnext' : m.next r k = some t := hnext
    rw [List.nil_append]
    constructor
    · intro ht
      obtain ⟨c, hc, rfl⟩ := List.mem_map.mp ht
      obtain ⟨u, hu, hwc⟩ := (h.spells.next_iff r k c.2).mp hnext'
      rw [hword c hc] at hwc
      have heq : [c.1] = u ++ [k] := Option.some.inj hwc
      cases u with
      | nil => exact Or.inl (h.spells.eq_root hu)
      | cons a u =>
        have hlen := congrArg List.length heq
        simp at hlen
    · intro hr
      rw [hr.resolve_right List.not_mem_nil] at hnext'
      exact List.mem_map.mpr ⟨(k, t), Dict.get?_eq_some_iff.mp hnext', rfl⟩
  · intro s hs
    obtain ⟨c, hc, rfl⟩ := List.mem_map.mp hs
    exact ⟨_, hword c hc, List.cons_ne_nil _ _⟩
  · rw [List.nil_append, List.pairwise_map]
    apply List.pairwise_of_forall_mem_list
    intro a ha b hb u v hu hv
    rw [hword a ha] at hu
    rw [hword b hb] at hv
    rw [← Option.some.inj hu, ← Option.some.inj hv]
    exact Nat.le_refl _
  · apply List.Nodup.map_on _ (List.Nodup.of_map Prod.fst (m.edges 0).nodup)
    intro a ha b hb hab
    have hwa := hword a ha
    rw [hab, hword b hb] at hwa
    exact Prod.ext (List.singleton_inj.mp (Option.some.inj hwa)).symm hab

theorem linked_link (h : m.Holds phrases words) (hne : ∀ e ∈ phrases, e.1 ≠ []) :
    m.link.Spells words ∧ ∀ s, Linked m.link phrases words s := by
  obtain ⟨done, hdone⟩ := (h.walked hne).linkFrom m.size (by rw [size, h.spells.transitions_length]; exact Nat.le_add_right _ _)
  exact ⟨hdone.spells, hdone.linkedAll⟩

end Walk

/-! ## The scan -/

theorem run_spec (h : m.Spells words) {phrases : List (List κ × π)} (hlinked : ∀ s, Linked m phrases words s)
    (text : List κ) : ∃ w, words[m.run text]? = some w ∧ Longest words text w := by
  induction text using List.reverseRecOn with
  | nil => exact ⟨[], h.root, List.mem_of_getElem? h.root, List.nil_suffix, fun g _ hg => hg⟩
  | append_singleton text k ih =>
    obtain ⟨w, hw, hlongest⟩ := ih
    have hstep : m.run (text ++ [k]) = m.advance (m.run text) k := by
      unfold run
      rw [List.foldl_append]
      rfl
    rw [hstep]
    exact advance_spec h hw (fun s v hs _ => (hlinked s v hs).1) hlongest k

theorem outs_run (phrases : List (List κ × π)) (hne : ∀ e ∈ phrases, e.1 ≠ []) (text : List κ) :
    ((ofPhrases phrases).link.outs ((ofPhrases phrases).link.run text)).Perm (hits phrases text) := by
  obtain ⟨words, hholds⟩ := holds_ofPhrases phrases
  obtain ⟨hspells, hlinked⟩ := linked_link hholds hne
  obtain ⟨w, hw, hlongest⟩ := run_spec hspells hlinked text
  have hhits : hits phrases w = hits phrases text := by
    unfold hits
    apply congrArg (List.map Prod.snd)
    apply List.filter_congr
    intro e he
    have hiff : e.1 <:+ w ↔ e.1 <:+ text :=
      ⟨fun hew => hew.trans hlongest.suffix, hlongest.greatest e.1 (hholds.mem_words e he)⟩
    exact decide_eq_decide.mpr hiff
  rw [← hhits]
  exact (hlinked _ w hw).2

end Machine
end EdgarSec.Lib
