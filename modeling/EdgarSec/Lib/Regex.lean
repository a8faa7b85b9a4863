import Mathlib

/-! Regular expressions as a backtracking engine runs them: the ends of a match, the one that is
tried first in front. -/

namespace EdgarSec.Lib

/-- `σ` tests one character, `τ` looks at a place without consuming. -/
inductive Regex (σ τ : Type) where
  | empty
  | one (a : σ)
  | check (t : τ)
  | cat (r s : Regex σ τ)
  | alt (r s : Regex σ τ)
  | rep (least : Nat) (most : Option Nat) (greedy : Bool) (r : Regex σ τ)
  | group (name : Option String) (r : Regex σ τ)
  deriving Repr

structure Spot (α : Type) where
  before : List α
  rest : List α
  groups : List (String × List α) := []
  deriving DecidableEq, Repr

namespace Spot
variable {α : Type}

def text (p : Spot α) : List α := p.before.reverse ++ p.rest

def next (p : Spot α) : Option (α × Spot α) :=
  match p.rest with
  | [] => none
  | c :: rest => some (c, { p with before := c :: p.before, rest := rest })

/-- The text from `p` to a later place `q`. -/
def upTo (p q : Spot α) : List α := p.rest.take (p.rest.length - q.rest.length)

/-- `q` is reached from `p` by consuming. -/
def Reaches (p q : Spot α) : Prop :=
  ∃ taken, p.rest = taken ++ q.rest ∧ q.before = taken.reverse ++ p.before

theorem Reaches.refl (p : Spot α) : p.Reaches p := ⟨[], rfl, rfl⟩

theorem Reaches.trans {p q q' : Spot α} (h : p.Reaches q) (h' : q.Reaches q') : p.Reaches q' := by
  obtain ⟨taken, hrest, hbefore⟩ := h
  obtain ⟨taken', hrest', hbefore'⟩ := h'
  refine ⟨taken ++ taken', ?_, ?_⟩
  · rw [hrest, hrest', List.append_assoc]
  · rw [hbefore', hbefore, List.reverse_append, List.append_assoc]

theorem upTo_eq {p q : Spot α} {taken : List α} (h : p.rest = taken ++ q.rest) : p.upTo q = taken := by
  rw [upTo, h, List.length_append, Nat.add_sub_cancel]
  exact List.take_left

theorem Reaches.rest_eq {p q : Spot α} (h : p.Reaches q) : p.rest = p.upTo q ++ q.rest := by
  obtain ⟨taken, hrest, -⟩ := h
  rw [upTo_eq hrest, hrest]

theorem Reaches.upTo_append {p q q' : Spot α} (h : p.Reaches q) (h' : q.Reaches q') : p.upTo q' = p.upTo q ++ q.upTo q' := by
  apply upTo_eq
  rw [List.append_assoc, ← h'.rest_eq]
  exact h.rest_eq

theorem Reaches.of_next {p q : Spot α} {c : α} (h : p.next = some (c, q)) : p.Reaches q ∧ p.upTo q = [c] := by
  have htaken : p.rest = [c] ++ q.rest ∧ q.before = [c].reverse ++ p.before := by
    obtain ⟨before, rest, groups⟩ := p
    cases rest with
    | nil => cases h
    | cons d rest =>
      injection h with h
      injection h with hc hq
      rw [← hc, ← hq]
      exact ⟨rfl, rfl⟩
  exact ⟨⟨[c], htaken.1, htaken.2⟩, upTo_eq htaken.1⟩

end Spot

namespace Regex
variable {α σ τ : Type}

/-! ## Repetition -/

section Repetition
variable (step : Spot α → List (Spot α))

def required : Nat → Spot α → List (Spot α)
  | 0, p => [p]
  | n + 1, p => (step p).flatMap (required n)

/-- At most `n` more rounds. A round that consumes nothing is the last one. -/
def optional (greedy : Bool) : Nat → Spot α → List (Spot α)
  | 0, p => [p]
  | n + 1, p =>
    let more := (step p).flatMap fun q => if q.rest.length < p.rest.length then optional greedy n q else [q]
    if greedy then more ++ [p] else p :: more

end Repetition

/-! ## Matching -/

section Matching
variable (test : σ → α → Bool) (holds : τ → List α → List α → Bool)

def consume (a : σ) (p : Spot α) : Option (Spot α) :=
  p.next.bind fun (c, q) => if test a c then some q else none

def ends : Regex σ τ → Spot α → List (Spot α)
  | empty, p => [p]
  | one a, p => (consume test a p).toList
  | check t, p => if holds t p.before p.rest then [p] else []
  | cat r s, p => (ends r p).flatMap (ends s)
  | alt r s, p => ends r p ++ ends s p
  | rep least most greedy r, p =>
    (required (ends r) least p).flatMap fun q =>
      optional (ends r) greedy (match most with | some most => most - least | none => q.rest.length) q
  | group name r, p =>
    match name with
    | none => ends r p
    | some name => (ends r p).map fun q => { q with groups := (name, p.upTo q) :: q.groups }

def matchAt (r : Regex σ τ) (p : Spot α) : Option (Spot α) := (ends test holds r p).head?

def fullmatchAt (r : Regex σ τ) (p : Spot α) : Option (Spot α) :=
  (ends test holds r p).find? fun q => q.rest.isEmpty

def searchFrom (r : Regex σ τ) (before : List α) : List α → Option (Spot α × Spot α)
  | [] => (matchAt test holds r ⟨before, [], []⟩).map (⟨before, [], []⟩, ·)
  | c :: rest =>
    match matchAt test holds r ⟨before, c :: rest, []⟩ with
    | some q => some (⟨before, c :: rest, []⟩, q)
    | none => searchFrom r (c :: before) rest

def search (r : Regex σ τ) (text : List α) : Option (Spot α × Spot α) := searchFrom test holds r [] text

/-- The matches of `r`, one after another, replaced by `new`; a match of nothing is left alone.
The fuel is the length of the text. -/
def subFrom (r : Regex σ τ) (new : List α) : Nat → List α → List α → List α
  | 0, _, rest => rest
  | _, _, [] => []
  | fuel + 1, before, c :: rest =>
    match matchAt test holds r ⟨before, c :: rest, []⟩ with
    | some q =>
      if q.rest.length < (c :: rest).length then new ++ subFrom r new fuel q.before q.rest
      else c :: subFrom r new fuel (c :: before) rest
    | none => c :: subFrom r new fuel (c :: before) rest

def sub (r : Regex σ τ) (new text : List α) : List α := subFrom test holds r new text.length [] text

end Matching

/-! ## Regexes that stand for a list of words

The words are tried in the order of the list, each one test after another. -/

section Words
variable {test : σ → α → Bool} {holds : τ → List α → List α → Bool} {p : Spot α} {a : σ} {r s : Regex σ τ}

def spell (test : σ → α → Bool) : List σ → Spot α → Option (Spot α)
  | [], p => some p
  | a :: word, p => (consume test a p).bind (spell test word)

def StandsFor (test : σ → α → Bool) (holds : τ → List α → List α → Bool) (r : Regex σ τ) (words : List (List σ)) : Prop :=
  ∀ p, matchAt test holds r p = words.findSome? fun word => spell test word p

attribute [local simp] ends spell

theorem head?_flatMap_toList {β γ : Type} (o : Option β) (f : β → List γ) :
    (o.toList.flatMap f).head? = o.bind fun b => (f b).head? := by
  cases o with
  | none => rfl
  | some b => simp

theorem matchAt_empty : matchAt test holds empty p = some p := rfl

theorem matchAt_alt : matchAt test holds (alt r s) p = (matchAt test holds r p).or (matchAt test holds s p) := by
  unfold matchAt
  rw [ends, List.head?_append]

theorem matchAt_cat_one : matchAt test holds (cat (one a) s) p = (consume test a p).bind (matchAt test holds s) := by
  unfold matchAt
  rw [ends, ends, head?_flatMap_toList]

theorem matchAt_maybe : matchAt test holds (rep 0 (some 1) true r) p = (matchAt test holds r p).or (some p) := by
  have hstop : ((ends test holds r p).flatMap fun q =>
      if q.rest.length < p.rest.length then optional (ends test holds r) true 0 q else [q]) = ends test holds r p := by
    have hself : ∀ q : Spot α, (if q.rest.length < p.rest.length then optional (ends test holds r) true 0 q else [q]) =
        [q] := by
      intro q
      split <;> rfl
    simp only [hself, List.flatMap_singleton']
  unfold matchAt
  rw [ends]
  show ([p].flatMap _).head? = _
  rw [List.flatMap_singleton]
  show (optional (ends test holds r) true 1 p).head? = _
  rw [optional, if_pos rfl, hstop, List.head?_append]
  rfl

theorem standsFor_empty : StandsFor test holds empty [[]] := by
  intro p
  rw [matchAt_empty]
  rfl

theorem StandsFor.cons {words : List (List σ)} (h : StandsFor test holds s words) (a : σ) :
    StandsFor test holds (cat (one a) s) (words.map (a :: ·)) := by
  intro p
  rw [matchAt_cat_one, List.findSome?_map]
  cases hstep : consume test a p with
  | none =>
    rw [Option.bind_none]
    symm
    rw [List.findSome?_eq_none_iff]
    intro word _
    rw [Function.comp_apply, spell, hstep]
    rfl
  | some q =>
    rw [Option.bind_some, h q]
    have hspell : (fun word => spell test (a :: word) p) = fun word => spell test word q := by
      funext word
      rw [spell, hstep]
      rfl
    show _ = words.findSome? (fun word => spell test (a :: word) p)
    rw [hspell]

theorem StandsFor.alt {words words' : List (List σ)} (h : StandsFor test holds r words)
    (h' : StandsFor test holds s words') : StandsFor test holds (alt r s) (words ++ words') := by
  intro p
  rw [matchAt_alt, h p, h' p, List.findSome?_append]

theorem StandsFor.group {words : List (List σ)} (h : StandsFor test holds r words) :
    StandsFor test holds (group none r) words := h

theorem StandsFor.maybe {words : List (List σ)} (h : StandsFor test holds r words) :
    StandsFor test holds (rep 0 (some 1) true r) (words ++ [[]]) := by
  intro p
  rw [matchAt_maybe, h p, List.findSome?_append]
  rfl

theorem standsFor_any {tests : List σ} (h : ∀ c, test a c = tests.any fun b => test b c) :
    StandsFor test holds (cat (one a) empty) (tests.map ([·])) := by
  intro p
  rw [matchAt_cat_one, List.findSome?_map]
  unfold consume
  cases hnext : p.next with
  | none =>
    symm
    rw [Option.bind_none, Option.bind_none, List.findSome?_eq_none_iff]
    intro b _
    rw [Function.comp_apply, spell, consume, hnext]
    rfl
  | some e =>
    obtain ⟨c, q⟩ := e
    have hspell : ((fun word => spell test word p) ∘ fun b => [b]) = fun b => if test b c then some q else none := by
      funext b
      rw [Function.comp_apply, spell, consume, hnext, Option.bind_some]
      dsimp only
      split <;> rfl
    rw [hspell, Option.bind_some]
    dsimp only
    rw [h c]
    by_cases hany : tests.any (fun b => test b c) = true
    · rw [if_pos hany, Option.bind_some, matchAt_empty]
      obtain ⟨b, hb, htest⟩ := List.any_eq_true.mp hany
      have hsome : (tests.findSome? fun b => if test b c then some q else none).isSome := by
        rw [List.findSome?_isSome_iff]
        refine ⟨b, hb, ?_⟩
        rw [if_pos htest]
        rfl
      obtain ⟨q', hq'⟩ := Option.isSome_iff_exists.mp hsome
      obtain ⟨b', -, hb'⟩ := List.exists_of_findSome?_eq_some hq'
      rw [hq']
      split at hb'
      · exact hb'
      · exact absurd hb'.symm (Option.some_ne_none q')
    · rw [if_neg hany, Option.bind_none]
      symm
      rw [List.findSome?_eq_none_iff]
      intro b hb
      rw [if_neg fun htest => hany (List.any_eq_true.mpr ⟨b, hb, htest⟩)]

/-! ## Where a word ends -/

/-- The tests of the word hold of the characters at the front of the text. -/
def Fits (test : σ → α → Bool) (word : List σ) (rest : List α) : Prop :=
  word.length ≤ rest.length ∧ ∀ pair ∈ word.zip rest, test pair.1 pair.2 = true

theorem fits_nil {rest : List α} : Fits test [] rest := ⟨Nat.zero_le _, fun _ h => absurd h List.not_mem_nil⟩

theorem not_fits_cons_nil {word : List σ} : ¬ Fits test (a :: word) ([] : List α) := by
  intro h
  exact absurd h.1 (Nat.not_succ_le_zero _)

theorem fits_cons {word : List σ} {c : α} {rest : List α} :
    Fits test (a :: word) (c :: rest) ↔ test a c = true ∧ Fits test word rest := by
  unfold Fits
  rw [List.zip_cons_cons, List.forall_mem_cons, List.length_cons, List.length_cons, Nat.succ_le_succ_iff]
  exact and_left_comm

instance (word : List σ) (rest : List α) : Decidable (Fits test word rest) := by
  unfold Fits
  infer_instance

def Spot.drop (n : Nat) (p : Spot α) : Spot α :=
  { p with before := (p.rest.take n).reverse ++ p.before, rest := p.rest.drop n }

theorem spell_eq (word : List σ) (p : Spot α) :
    spell test word p = if Fits test word p.rest then some (Spot.drop word.length p) else none := by
  induction word generalizing p with
  | nil =>
    rw [if_pos fits_nil]
    rfl
  | cons a word ih =>
    rw [spell, consume]
    obtain ⟨before, rest, groups⟩ := p
    cases rest with
    | nil =>
      rw [if_neg not_fits_cons_nil]
      rfl
    | cons c rest =>
      show ((if test a c then some (⟨c :: before, rest, groups⟩ : Spot α) else none).bind (spell test word)) = _
      by_cases htest : test a c = true
      · rw [if_pos htest, Option.bind_some, ih]
        by_cases hfits : Fits test word rest
        · rw [if_pos hfits, if_pos (fits_cons.mpr ⟨htest, hfits⟩)]
          simp [Spot.drop]
        · rw [if_neg hfits, if_neg fun h => hfits (fits_cons.mp h).2]
      · rw [if_neg htest, if_neg fun h => htest (fits_cons.mp h).1]
        rfl

end Words
/-! ## What a match takes -/

section Taken
variable {test : σ → α → Bool} {holds : τ → List α → List α → Bool} {r s : Regex σ τ} {p q : Spot α}

def tests : Regex σ τ → List σ
  | empty | check _ => []
  | one a => [a]
  | cat r s | alt r s => tests r ++ tests s
  | rep _ _ _ r | group _ r => tests r

def captures : Regex σ τ → List (String × Regex σ τ)
  | empty | one _ | check _ => []
  | cat r s | alt r s => captures r ++ captures s
  | rep _ _ _ r => captures r
  | group name r => (name.map fun name => (name, r)).toList ++ captures r

theorem mem_optional_succ {step : Spot α → List (Spot α)} {greedy : Bool} {n : Nat} (h : q ∈ optional step greedy (n + 1) p) :
    q = p ∨ ∃ p' ∈ step p, q = p' ∨ q ∈ optional step greedy n p' := by
  have hmore : q = p ∨
      q ∈ (step p).flatMap fun p' => if p'.rest.length < p.rest.length then optional step greedy n p' else [p'] := by
    rw [optional] at h
    split at h
    · rcases List.mem_append.mp h with h | h
      · exact Or.inr h
      · exact Or.inl (List.mem_singleton.mp h)
    · exact List.mem_cons.mp h
  rcases hmore with hstop | hmore
  · exact Or.inl hstop
  · obtain ⟨p', hp', hq⟩ := List.mem_flatMap.mp hmore
    refine Or.inr ⟨p', hp', ?_⟩
    split at hq
    · exact Or.inr hq
    · exact Or.inl (List.mem_singleton.mp hq)

section Closure
variable {R : Spot α → Spot α → Prop} (hrefl : ∀ p, R p p) (htrans : ∀ p q q', R p q → R q q' → R p q')
include hrefl htrans

theorem required_induction {step : Spot α → List (Spot α)} (hstep : ∀ p, ∀ q ∈ step p, R p q) (n : Nat) :
    ∀ p, ∀ q ∈ required step n p, R p q := by
  induction n with
  | zero =>
    intro p q hq
    rw [List.mem_singleton.mp hq]
    exact hrefl p
  | succ n ih =>
    intro p q hq
    obtain ⟨p', hp', hq⟩ := List.mem_flatMap.mp hq
    exact htrans p p' q (hstep p p' hp') (ih p' q hq)

theorem optional_induction {step : Spot α → List (Spot α)} {greedy : Bool} (hstep : ∀ p, ∀ q ∈ step p, R p q) (n : Nat) :
    ∀ p, ∀ q ∈ optional step greedy n p, R p q := by
  induction n with
  | zero =>
    intro p q hq
    rw [List.mem_singleton.mp hq]
    exact hrefl p
  | succ n ih =>
    intro p q hq
    rcases mem_optional_succ hq with rfl | ⟨p', hp', hq⟩
    · exact hrefl q
    · have hfirst : R p p' := hstep p p' hp'
      rcases hq with rfl | hq
      · exact hfirst
      · exact htrans p p' q hfirst (ih p' q hq)

theorem ends_induction (hone : ∀ a ∈ tests r, ∀ p q, consume test a p = some q → R p q)
    (hgroup : ∀ name body p q, (name, body) ∈ captures r → q ∈ ends test holds body p → R p q →
      R p { q with groups := (name, p.upTo q) :: q.groups }) :
    ∀ p, ∀ q ∈ ends test holds r p, R p q := by
  induction r with
  | empty =>
    intro p q hq
    rw [List.mem_singleton.mp hq]
    exact hrefl p
  | one a =>
    intro p q hq
    exact hone a (List.mem_singleton_self a) p q (Option.mem_toList.mp hq)
  | check t =>
    intro p q hq
    rw [ends] at hq
    split at hq
    · rw [List.mem_singleton.mp hq]
      exact hrefl p
    · exact absurd hq List.not_mem_nil
  | cat r s ihr ihs =>
    have hr := ihr (fun a ha => hone a (List.mem_append_left _ ha))
      fun name body p q hmem => hgroup name body p q (List.mem_append_left _ hmem)
    have hs := ihs (fun a ha => hone a (List.mem_append_right _ ha))
      fun name body p q hmem => hgroup name body p q (List.mem_append_right _ hmem)
    intro p q hq
    obtain ⟨p', hp', hq⟩ := List.mem_flatMap.mp hq
    exact htrans p p' q (hr p p' hp') (hs p' q hq)
  | alt r s ihr ihs =>
    intro p q hq
    rcases List.mem_append.mp hq with hq | hq
    · exact ihr (fun a ha => hone a (List.mem_append_left _ ha))
        (fun name body p q hmem => hgroup name body p q (List.mem_append_left _ hmem)) p q hq
    · exact ihs (fun a ha => hone a (List.mem_append_right _ ha))
        (fun name body p q hmem => hgroup name body p q (List.mem_append_right _ hmem)) p q hq
  | rep least most greedy r ih =>
    have hr := ih hone hgroup
    intro p q hq
    obtain ⟨p', hp', hq⟩ := List.mem_flatMap.mp hq
    exact htrans p p' q (required_induction hrefl htrans hr least p p' hp') (optional_induction hrefl htrans hr _ p' q hq)
  | group name r ih =>
    have hr := ih hone fun name body p q hmem => hgroup name body p q (List.mem_append_right _ hmem)
    intro p q hq
    cases name with
    | none => exact hr p q hq
    | some name =>
      obtain ⟨q', hq', rfl⟩ := List.mem_map.mp hq
      exact hgroup name r p q' (List.mem_append_left _ (List.mem_singleton_self _)) hq' (hr p q' hq')

end Closure

theorem consume_eq_some {a : σ} (h : consume test a p = some q) : ∃ c, test a c = true ∧ p.Reaches q ∧ p.upTo q = [c] := by
  obtain ⟨⟨c, q'⟩, hnext, hq⟩ := Option.bind_eq_some_iff.mp h
  dsimp only at hq
  split at hq
  · injection hq with hq
    rw [← hq]
    exact ⟨c, ‹_›, Spot.Reaches.of_next hnext⟩
  · cases hq

theorem ends_reaches (h : q ∈ ends test holds r p) : p.Reaches q := by
  apply ends_induction Spot.Reaches.refl (fun p q q' => Spot.Reaches.trans) _ _ p q h
  · intro a _ p q hconsume
    obtain ⟨c, -, hreaches, -⟩ := consume_eq_some hconsume
    exact hreaches
  · intro name body p q _ _ hreaches
    exact hreaches

theorem forall_taken (P : α → Prop) (hP : ∀ a ∈ tests r, ∀ c, test a c = true → P c) (h : q ∈ ends test holds r p) :
    ∀ c ∈ p.upTo q, P c := by
  have htaken : p.Reaches q ∧ ∀ c ∈ p.upTo q, P c := by
    apply ends_induction (R := fun p q => p.Reaches q ∧ ∀ c ∈ p.upTo q, P c) _ _ _ _ p q h
    · intro p
      refine ⟨Spot.Reaches.refl p, ?_⟩
      rw [Spot.upTo_eq (List.nil_append p.rest).symm]
      exact fun c hc => absurd hc List.not_mem_nil
    · intro p q q' hq hq'
      refine ⟨hq.1.trans hq'.1, ?_⟩
      rw [hq.1.upTo_append hq'.1]
      intro c hc
      rcases List.mem_append.mp hc with hc | hc
      · exact hq.2 c hc
      · exact hq'.2 c hc
    · intro a ha p q hconsume
      obtain ⟨c, hc, hreaches, hupTo⟩ := consume_eq_some hconsume
      refine ⟨hreaches, ?_⟩
      rw [hupTo]
      intro d hd
      rw [List.mem_singleton.mp hd]
      exact hP a ha c hc
    · intro name body p q _ _ hq
      exact hq
  exact htaken.2

/-- Every match of `r` takes `kept`, leaving out what `f` passes over. -/
def Yields (test : σ → α → Bool) (holds : τ → List α → List α → Bool) (f : α → Bool) (r : Regex σ τ) (kept : List α) : Prop :=
  ∀ p, ∀ q ∈ ends test holds r p, (p.upTo q).filter f = kept

section Yields
variable {f : α → Bool} {kept kept' : List α}

theorem yields_empty : Yields test holds f empty [] := by
  intro p q hq
  rw [List.mem_singleton.mp hq, Spot.upTo_eq (List.nil_append p.rest).symm]
  rfl

theorem yields_one {a : σ} {c : α} (hf : f c = true) (h : ∀ d, test a d = true → d = c) : Yields test holds f (one a) [c] := by
  intro p q hq
  obtain ⟨d, hd, -, htaken⟩ := consume_eq_some (Option.mem_toList.mp hq)
  rw [htaken, h d hd, List.filter_cons_of_pos hf]
  rfl

theorem Yields.cat (h : Yields test holds f r kept) (h' : Yields test holds f s kept') :
    Yields test holds f (cat r s) (kept ++ kept') := by
  intro p q hq
  obtain ⟨p', hp', hq⟩ := List.mem_flatMap.mp hq
  rw [(ends_reaches hp').upTo_append (ends_reaches hq), List.filter_append, h p p' hp', h' p' q hq]

theorem yields_rep {a : σ} (h : ∀ c, test a c = true → f c = false) (least : Nat) (most : Option Nat) (greedy : Bool) :
    Yields test holds f (rep least most greedy (one a)) [] := by
  intro p q hq
  have htests : ∀ b ∈ tests (rep least most greedy (one a) : Regex σ τ), ∀ c, test b c = true → f c = false := by
    intro b hb c hc
    rw [List.mem_singleton.mp hb] at hc
    exact h c hc
  have htaken := forall_taken (fun c => f c = false) htests hq
  rw [List.filter_eq_nil_iff]
  intro c hc
  rw [htaken c hc]
  exact Bool.false_ne_true

end Yields

/-! ### The length of a repetition -/

section Length
variable {step : Spot α → List (Spot α)} (hstep : ∀ p, ∀ q ∈ step p, p.Reaches q ∧ (p.upTo q).length = 1)
include hstep

theorem required_length (n : Nat) : ∀ p, ∀ q ∈ required step n p, p.Reaches q ∧ (p.upTo q).length = n := by
  induction n with
  | zero =>
    intro p q hq
    rw [List.mem_singleton.mp hq, Spot.upTo_eq (List.nil_append p.rest).symm]
    exact ⟨Spot.Reaches.refl p, rfl⟩
  | succ n ih =>
    intro p q hq
    obtain ⟨p', hp', hq⟩ := List.mem_flatMap.mp hq
    obtain ⟨hfirst, hone⟩ := hstep p p' hp'
    obtain ⟨hrest, hlength⟩ := ih p' q hq
    refine ⟨hfirst.trans hrest, ?_⟩
    rw [hfirst.upTo_append hrest, List.length_append, hone, hlength, Nat.add_comm]

theorem optional_length (greedy : Bool) (n : Nat) :
    ∀ p, ∀ q ∈ optional step greedy n p, p.Reaches q ∧ (p.upTo q).length ≤ n := by
  induction n with
  | zero =>
    intro p q hq
    rw [List.mem_singleton.mp hq, Spot.upTo_eq (List.nil_append p.rest).symm]
    exact ⟨Spot.Reaches.refl p, Nat.le_refl 0⟩
  | succ n ih =>
    intro p q hq
    rcases mem_optional_succ hq with rfl | ⟨p', hp', hq⟩
    · rw [Spot.upTo_eq (List.nil_append q.rest).symm]
      exact ⟨Spot.Reaches.refl q, Nat.zero_le _⟩
    · obtain ⟨hfirst, hone⟩ := hstep p p' hp'
      rcases hq with rfl | hq
      · exact ⟨hfirst, hone.le.trans (Nat.succ_le_succ (Nat.zero_le n))⟩
      · obtain ⟨hrest, hlength⟩ := ih p' q hq
        refine ⟨hfirst.trans hrest, ?_⟩
        rw [hfirst.upTo_append hrest, List.length_append, hone, Nat.add_comm]
        exact Nat.succ_le_succ hlength

end Length

theorem rep_length {a : σ} {least most : Nat} {greedy : Bool} (hle : least ≤ most)
    (h : q ∈ ends test holds (rep least (some most) greedy (one a)) p) :
    least ≤ (p.upTo q).length ∧ (p.upTo q).length ≤ most := by
  have hone : ∀ p, ∀ q ∈ ends test holds (one a : Regex σ τ) p, p.Reaches q ∧ (p.upTo q).length = 1 := by
    intro p q hq
    obtain ⟨c, -, hreaches, hupTo⟩ := consume_eq_some (Option.mem_toList.mp hq)
    rw [hupTo]
    exact ⟨hreaches, rfl⟩
  obtain ⟨p', hp', hq⟩ := List.mem_flatMap.mp h
  obtain ⟨hfirst, hleast⟩ := required_length hone least p p' hp'
  obtain ⟨hrest, hmore⟩ := optional_length hone greedy (most - least) p' q hq
  rw [hfirst.upTo_append hrest, List.length_append, hleast]
  exact ⟨Nat.le_add_right _ _, by omega⟩

/-! ### What no match is without -/

/-- Every match of `r` takes an element with `P`. -/
def Takes (test : σ → α → Bool) (holds : τ → List α → List α → Bool) (P : α → Prop) (r : Regex σ τ) : Prop :=
  ∀ p, ∀ q ∈ ends test holds r p, ∃ c ∈ p.upTo q, P c

section Takes
variable {P : α → Prop}

theorem takes_one {a : σ} (h : ∀ c, test a c = true → P c) : Takes test holds P (one a) := by
  intro p q hq
  obtain ⟨c, hc, -, hupTo⟩ := consume_eq_some (Option.mem_toList.mp hq)
  refine ⟨c, ?_, h c hc⟩
  rw [hupTo]
  exact List.mem_singleton_self c

theorem Takes.left (h : Takes test holds P r) : Takes test holds P (cat r s) := by
  intro p q hq
  obtain ⟨p', hp', hq⟩ := List.mem_flatMap.mp hq
  obtain ⟨c, hc, hP⟩ := h p p' hp'
  refine ⟨c, ?_, hP⟩
  rw [(ends_reaches hp').upTo_append (ends_reaches hq)]
  exact List.mem_append_left _ hc

theorem Takes.right (h : Takes test holds P s) : Takes test holds P (cat r s) := by
  intro p q hq
  obtain ⟨p', hp', hq⟩ := List.mem_flatMap.mp hq
  obtain ⟨c, hc, hP⟩ := h p' q hq
  refine ⟨c, ?_, hP⟩
  rw [(ends_reaches hp').upTo_append (ends_reaches hq)]
  exact List.mem_append_right _ hc

theorem Takes.alt (h : Takes test holds P r) (h' : Takes test holds P s) : Takes test holds P (alt r s) := by
  intro p q hq
  rcases List.mem_append.mp hq with hq | hq
  · exact h p q hq
  · exact h' p q hq

theorem Takes.group (h : Takes test holds P r) : Takes test holds P (group none r) := h

end Takes

/-! ### The matches that are found -/

theorem matchAt_mem (h : matchAt test holds r p = some q) : q ∈ ends test holds r p := List.mem_of_head? h

theorem searchFrom_spec {before rest : List α} (h : searchFrom test holds r before rest = some (p, q)) :
    p.text = before.reverse ++ rest ∧ p.groups = [] ∧ q ∈ ends test holds r p := by
  induction rest generalizing before with
  | nil =>
    obtain ⟨q', hq', hpair⟩ := Option.map_eq_some_iff.mp h
    injection hpair with hp hq
    rw [← hp, ← hq]
    exact ⟨rfl, rfl, matchAt_mem hq'⟩
  | cons c rest ih =>
    rw [searchFrom] at h
    split at h
    · injection h with hpair
      injection hpair with hp hq
      rw [← hp, ← hq]
      exact ⟨rfl, rfl, matchAt_mem ‹_›⟩
    · obtain ⟨htext, hmem⟩ := ih h
      refine ⟨?_, hmem⟩
      rw [htext, List.reverse_cons, List.append_assoc]
      rfl

theorem search_spec {text : List α} (h : search test holds r text = some (p, q)) :
    p.text = text ∧ p.groups = [] ∧ q ∈ ends test holds r p := searchFrom_spec h

theorem sub_filter {f : α → Bool} {new : List α} (h : Yields test holds f r (new.filter f)) (text : List α) :
    (sub test holds r new text).filter f = text.filter f := by
  have hfrom : ∀ (fuel : Nat) (before rest : List α), (subFrom test holds r new fuel before rest).filter f = rest.filter f := by
    intro fuel
    induction fuel with
    | zero =>
      intro before rest
      rfl
    | succ fuel ih =>
      intro before rest
      cases rest with
      | nil => rfl
      | cons c rest =>
        have hskip : (c :: subFrom test holds r new fuel (c :: before) rest).filter f = (c :: rest).filter f := by
          rw [List.filter_cons, ih, ← List.filter_cons]
        rw [subFrom]
        split
        · rename_i q hq
          have hmem : q ∈ ends test holds r ⟨before, c :: rest, []⟩ := matchAt_mem hq
          split
          · -- the part replaced and the rest of the text
            have hrest := (ends_reaches hmem).rest_eq
            rw [List.filter_append, ih, ← h _ q hmem, ← List.filter_append, ← hrest]
          · exact hskip
        · exact hskip
  exact hfrom text.length [] text

theorem sub_of_takes {P : α → Prop} {new text : List α} (h : Takes test holds P r) (hnone : ∀ c ∈ text, ¬ P c) :
    sub test holds r new text = text := by
  have hfrom : ∀ (fuel : Nat) (before rest : List α), (∀ c ∈ rest, ¬ P c) → subFrom test holds r new fuel before rest = rest := by
    intro fuel
    induction fuel with
    | zero =>
      intro before rest _
      rfl
    | succ fuel ih =>
      intro before rest hrest
      cases rest with
      | nil => rfl
      | cons c rest =>
        rw [subFrom]
        split
        · rename_i q hq
          have hmem : q ∈ ends test holds r ⟨before, c :: rest, []⟩ := matchAt_mem hq
          obtain ⟨d, hd, hP⟩ := h _ q hmem
          have hsplit : c :: rest = _ ++ q.rest := (ends_reaches hmem).rest_eq
          have hin : d ∈ c :: rest := by
            rw [hsplit]
            exact List.mem_append_left _ hd
          exact absurd hP (hrest d hin)
        · rw [ih _ _ fun d hd => hrest d (List.mem_cons_of_mem _ hd)]
  exact hfrom text.length [] text hnone

theorem groups_spec (h : q ∈ ends test holds r p) :
    ∀ e ∈ q.groups, e ∈ p.groups ∨ ∃ name body p' q', (name, body) ∈ captures r ∧ q' ∈ ends test holds body p' ∧
      e = (name, p'.upTo q') := by
  apply ends_induction (R := fun p q => ∀ e ∈ q.groups, e ∈ p.groups ∨ ∃ name body p' q', (name, body) ∈ captures r ∧
    q' ∈ ends test holds body p' ∧ e = (name, p'.upTo q')) _ _ _ _ p q h
  · exact fun p e he => Or.inl he
  · intro p q q' hq hq' e he
    rcases hq' e he with he | hnew
    · exact hq e he
    · exact Or.inr hnew
  · intro a _ p q hconsume e he
    left
    obtain ⟨⟨c, q'⟩, hnext, hq⟩ := Option.bind_eq_some_iff.mp hconsume
    have hgroups : q'.groups = p.groups := by
      unfold Spot.next at hnext
      split at hnext
      · cases hnext
      · injection hnext with hnext
        injection hnext with _ hq'
        rw [← hq']
    dsimp only at hq
    split at hq
    · injection hq with hq
      rw [← hgroups, hq]
      exact he
    · cases hq
  · intro name body p q hmem hq hgroups e he
    rcases List.mem_cons.mp he with rfl | he
    · exact Or.inr ⟨name, body, p, q, hmem, hq, rfl⟩
    · exact hgroups e he

end Taken

end Regex
end EdgarSec.Lib
