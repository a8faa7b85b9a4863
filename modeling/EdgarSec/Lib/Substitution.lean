import Mathlib

/-! A text rewritten from left to right: a reader says at each place whether a token stands there and
how long it is, and the scan goes on behind it. -/

namespace EdgarSec.Lib.Substitution
variable {α κ : Type}

abbrev Reader (α κ : Type) := List α → Option (κ × Nat)

/-- The parts of a text, behind the `skip` elements of the token before it. -/
def scanFrom (read : Reader α κ) : Nat → List α → List (α ⊕ κ)
  | _, [] => []
  | skip + 1, _ :: rest => scanFrom read skip rest
  | 0, c :: rest =>
    match read (c :: rest) with
    | some (token, n) => .inr token :: scanFrom read (n - 1) rest
    | none => .inl c :: scanFrom read 0 rest

def scan (read : Reader α κ) (text : List α) : List (α ⊕ κ) := scanFrom read 0 text

def tokens (parts : List (α ⊕ κ)) : List κ := parts.filterMap Sum.getRight?

def filled (fill : κ → List α) (parts : List (α ⊕ κ)) : List α := parts.flatMap (Sum.elim (fun c => [c]) fill)

section Parts
variable {fill : κ → List α} {parts parts' : List (α ⊕ κ)} {text : List α} {token : κ}

@[simp] theorem tokens_append : tokens (parts ++ parts') = tokens parts ++ tokens parts' := List.filterMap_append

@[simp] theorem tokens_inl : tokens (text.map Sum.inl : List (α ⊕ κ)) = [] := by
  induction text with
  | nil => rfl
  | cons c text ih => exact ih

@[simp] theorem tokens_cons_inr : tokens (Sum.inr token :: parts) = token :: tokens parts := rfl

@[simp] theorem tokens_cons_inl {c : α} : tokens (Sum.inl c :: parts) = tokens parts := rfl

@[simp] theorem filled_append : filled fill (parts ++ parts') = filled fill parts ++ filled fill parts' := List.flatMap_append

@[simp] theorem filled_inl : filled fill (text.map Sum.inl) = text := by
  induction text with
  | nil => rfl
  | cons c text ih => exact congrArg (c :: ·) ih

@[simp] theorem filled_cons_inr : filled fill (Sum.inr token :: parts) = fill token ++ filled fill parts := rfl

@[simp] theorem filled_cons_inl {c : α} : filled fill (Sum.inl c :: parts) = c :: filled fill parts := rfl

end Parts

section Scan
variable {read : Reader α κ} {a b text : List α} {token : κ} {n : Nat}

theorem scanFrom_eq_drop : scanFrom read n text = scan read (text.drop n) := by
  induction text generalizing n with
  | nil =>
    rw [List.drop_nil]
    cases n <;> rfl
  | cons c rest ih =>
    cases n with
    | zero => rfl
    | succ n => exact ih

@[simp] theorem scan_nil : scan read [] = [] := rfl

theorem scan_cons_none {c : α} (h : read (c :: text) = none) : scan read (c :: text) = .inl c :: scan read text := by
  rw [scan, scanFrom, h]
  rfl

theorem scan_token (hne : a ≠ []) (h : read (a ++ b) = some (token, a.length)) : scan read (a ++ b) = .inr token :: scan read b := by
  cases a with
  | nil => exact absurd rfl hne
  | cons c rest =>
    rw [List.cons_append] at h ⊢
    rw [scan, scanFrom, h]
    show Sum.inr token :: scanFrom read ((c :: rest).length - 1) (rest ++ b) = _
    rw [scanFrom_eq_drop, List.length_cons, Nat.add_sub_cancel, List.drop_left]

theorem scan_append (h : ∀ tail, tail ≠ [] → tail <:+ a → read (tail ++ b) = none) :
    scan read (a ++ b) = a.map Sum.inl ++ scan read b := by
  induction a with
  | nil => rfl
  | cons c rest ih =>
    have hhead : read (c :: (rest ++ b)) = none := h (c :: rest) (List.cons_ne_nil c rest) (List.suffix_refl _)
    rw [List.cons_append, scan_cons_none hhead, ih fun tail hne hsuffix => h tail hne (hsuffix.trans (List.suffix_cons c rest))]
    rfl

theorem scan_split (h : ∀ tail, tail ≠ [] → tail <:+ a → read (tail ++ b) = read tail)
    (hfits : ∀ tail token n, tail ≠ [] → tail <:+ a → read tail = some (token, n) → n ≤ tail.length) :
    scan read (a ++ b) = scan read a ++ scan read b := by
  have hskip : ∀ (l : List α) (n : Nat), l <:+ a → n ≤ l.length → scanFrom read n (l ++ b) = scanFrom read n l ++ scan read b := by
    intro l
    induction l with
    | nil =>
      intro n _ hn
      rw [List.length_nil, Nat.le_zero] at hn
      rw [hn]
      rfl
    | cons c rest ih =>
      intro n hsuffix hn
      have hrest : rest <:+ a := (List.suffix_cons c rest).trans hsuffix
      cases n with
      | succ n => exact ih n hrest (Nat.succ_le_succ_iff.mp hn)
      | zero =>
        have hread := h (c :: rest) (List.cons_ne_nil c rest) hsuffix
        rw [List.cons_append] at hread ⊢
        rw [scanFrom, scanFrom, hread]
        cases hfound : read (c :: rest) with
        | none =>
          show Sum.inl c :: scanFrom read 0 (rest ++ b) = Sum.inl c :: (scanFrom read 0 rest ++ scan read b)
          rw [ih 0 hrest (Nat.zero_le _)]
        | some found =>
          obtain ⟨token, n⟩ := found
          have hn := hfits (c :: rest) token n (List.cons_ne_nil c rest) hsuffix hfound
          show Sum.inr token :: scanFrom read (n - 1) (rest ++ b) = Sum.inr token :: (scanFrom read (n - 1) rest ++ scan read b)
          rw [ih (n - 1) hrest (by rw [List.length_cons] at hn; omega)]
  exact hskip a 0 (List.suffix_refl a) (Nat.zero_le _)

theorem filled_scan_ne_nil {fill : κ → List α} (hne : text ≠ [])
    (hfill : ∀ tail token n, tail ≠ [] → read tail = some (token, n) → fill token ≠ []) : filled fill (scan read text) ≠ [] := by
  cases text with
  | nil => exact absurd rfl hne
  | cons c rest =>
    rw [scan, scanFrom]
    cases hfound : read (c :: rest) with
    | none => exact List.cons_ne_nil c _
    | some found =>
      obtain ⟨token, n⟩ := found
      intro hnil
      rw [filled_cons_inr] at hnil
      exact hfill (c :: rest) token n hne hfound (List.append_eq_nil_iff.mp hnil).1

theorem filled_of_no_tokens {fill : κ → List α} (h : tokens (scan read text) = []) : filled fill (scan read text) = text := by
  induction text with
  | nil => rfl
  | cons c rest ih =>
    cases hfound : read (c :: rest) with
    | none =>
      rw [scan_cons_none hfound, tokens_cons_inl] at h
      rw [scan_cons_none hfound, filled_cons_inl, ih h]
    | some found =>
      obtain ⟨token, n⟩ := found
      rw [scan, scanFrom, hfound] at h
      exact absurd h (List.cons_ne_nil _ _)

theorem scan_tail {part : α ⊕ κ} {parts : List (α ⊕ κ)} (h : scan read text = part :: parts) :
    ∃ later, later <:+ text ∧ scan read later = parts ∧ ∀ c, part = .inl c → text = c :: later := by
  cases text with
  | nil => exact absurd h (List.cons_ne_nil _ _).symm
  | cons c rest =>
    rw [scan, scanFrom] at h
    cases hfound : read (c :: rest) with
    | none =>
      rw [hfound] at h
      obtain ⟨hpart, hparts⟩ := List.cons.inj h
      refine ⟨rest, List.suffix_cons c rest, hparts, fun d hd => ?_⟩
      rw [Sum.inl.inj (hpart.trans hd)]
    | some found =>
      obtain ⟨token, n⟩ := found
      rw [hfound] at h
      obtain ⟨hpart, hparts⟩ := List.cons.inj h
      rw [scanFrom_eq_drop] at hparts
      refine ⟨rest.drop (n - 1), (List.drop_suffix _ _).trans (List.suffix_cons c rest), hparts, fun d hd => ?_⟩
      exact absurd (hpart.trans hd) Sum.inr_ne_inl

theorem infix_of_scan {before after : List (α ⊕ κ)} (h : scan read text = before ++ a.map Sum.inl ++ after) : a <:+: text := by
  have hfront : ∀ (a text : List α), scan read text = a.map Sum.inl ++ after → a <+: text := by
    intro a
    induction a with
    | nil => exact fun text _ => List.nil_prefix
    | cons c a ih =>
      intro text h
      obtain ⟨later, -, hparts, htext⟩ := scan_tail h
      rw [htext c rfl]
      exact List.prefix_cons_inj c |>.mpr (ih later hparts)
  induction before generalizing text with
  | nil => exact (hfront a text h).isInfix
  | cons part before ih =>
    have hcons : scan read text = part :: (before ++ a.map Sum.inl ++ after) := h
    obtain ⟨later, hlater, hparts, -⟩ := scan_tail hcons
    exact (ih hparts).trans hlater.isInfix

end Scan

/-! ## Numbered tokens -/

section Numbered
variable {ι : Type}

def numbered (token : Nat → List α) : Nat → List (α ⊕ κ) → List α
  | _, [] => []
  | i, .inl c :: parts => c :: numbered token i parts
  | i, .inr _ :: parts => token i ++ numbered token (i + 1) parts

def relabel (label : Nat → ι) : Nat → List (α ⊕ κ) → List (α ⊕ ι)
  | _, [] => []
  | i, .inl c :: parts => .inl c :: relabel label i parts
  | i, .inr _ :: parts => .inr (label i) :: relabel label (i + 1) parts

variable {token : Nat → List α} {label : Nat → ι} {read : Reader α ι} {parts : List (α ⊕ κ)} {i : Nat} {gap : List α}

theorem numbered_inl : numbered token i (gap.map Sum.inl ++ parts) = gap ++ numbered token i parts := by
  induction gap with
  | nil => rfl
  | cons c gap ih => exact congrArg (c :: ·) ih

theorem exists_gap (parts : List (α ⊕ κ)) : ∃ (gap : List α) (rest : List (α ⊕ κ)), parts = gap.map Sum.inl ++ rest ∧ (rest = [] ∨ ∃ k others, rest = .inr k :: others) := by
  induction parts with
  | nil => exact ⟨[], [], rfl, Or.inl rfl⟩
  | cons part parts ih =>
    cases part with
    | inl c =>
      obtain ⟨gap, rest, hparts, hrest⟩ := ih
      exact ⟨c :: gap, rest, congrArg (Sum.inl c :: ·) hparts, hrest⟩
    | inr k => exact ⟨[], .inr k :: parts, rfl, Or.inr ⟨k, parts, rfl⟩⟩

theorem scan_numbered (hne : ∀ j, token j ≠ [])
    (htoken : ∀ j rest, i ≤ j → j < i + (tokens parts).length → read (token j ++ rest) = some (label j, (token j).length))
    (hgap : ∀ before c after, parts = before ++ .inl c :: after → read (c :: numbered token (i + (tokens before).length) after) = none) :
    scan read (numbered token i parts) = relabel label i parts := by
  induction parts generalizing i with
  | nil => rfl
  | cons part parts ih =>
    cases part with
    | inl c =>
      have hnone : read (c :: numbered token i parts) = none := hgap [] c parts rfl
      rw [numbered, relabel, scan_cons_none hnone]
      congr 1
      apply ih htoken
      intro before d after hparts
      exact hgap (.inl c :: before) d after (congrArg (Sum.inl c :: ·) hparts)
    | inr k =>
      rw [tokens_cons_inr, List.length_cons] at htoken
      rw [numbered, relabel, scan_token (hne i) (htoken i _ (le_refl i) (by omega))]
      congr 1
      apply ih
      · intro j rest hj hlt
        exact htoken j rest (by omega) (by omega)
      · intro before d after hparts
        have hread := hgap (.inr k :: before) d after (congrArg (Sum.inr k :: ·) hparts)
        rw [tokens_cons_inr, List.length_cons, ← Nat.add_assoc, Nat.add_right_comm] at hread
        exact hread

theorem none_of_scan_numbered {before after : List (α ⊕ κ)} {c : α} (hne : ∀ j, token j ≠ [])
    (hlength : ∀ j text n, read text = some (label j, n) → n = (token j).length)
    (h : scan read (numbered token i (before ++ .inl c :: after)) = relabel label i (before ++ .inl c :: after)) :
    read (c :: numbered token (i + (tokens before).length) after) = none := by
  induction before generalizing i with
  | nil =>
    rw [List.nil_append, numbered, relabel, scan, scanFrom] at h
    rw [tokens, List.filterMap_nil, List.length_nil, Nat.add_zero]
    cases hfound : read (c :: numbered token i after) with
    | none => rfl
    | some found =>
      rw [hfound] at h
      exact absurd (List.cons.inj h).1 Sum.inr_ne_inl
  | cons part before ih =>
    cases part with
    | inl d =>
      rw [List.cons_append, numbered, relabel, scan, scanFrom] at h
      cases hfound : read (d :: numbered token i (before ++ .inl c :: after)) with
      | none =>
        rw [hfound] at h
        exact ih (List.cons.inj h).2
      | some found =>
        rw [hfound] at h
        exact absurd (List.cons.inj h).1 Sum.inr_ne_inl
    | inr k =>
      rw [List.cons_append, numbered, relabel] at h
      obtain ⟨d, others, hd⟩ := List.exists_cons_of_ne_nil (hne i)
      have hfound : read (token i ++ numbered token (i + 1) (before ++ .inl c :: after)) = some (label i, (token i).length) := by
        rw [hd, List.cons_append, scan, scanFrom] at h
        rw [hd, List.cons_append]
        cases hfound : read (d :: (others ++ numbered token (i + 1) (before ++ .inl c :: after))) with
        | none =>
          rw [hfound] at h
          exact absurd (List.cons.inj h).1 Sum.inl_ne_inr
        | some found =>
          obtain ⟨found, n⟩ := found
          rw [hfound] at h
          have hlabel := Sum.inr.inj (List.cons.inj h).1
          rw [hlabel] at hfound ⊢
          rw [hlength i _ n hfound, hd]
      rw [scan_token (hne i) hfound] at h
      have hnone := ih (List.cons.inj h).2
      rw [tokens_cons_inr, List.length_cons, ← Nat.add_assoc, Nat.add_right_comm]
      exact hnone

theorem tokens_relabel : tokens (relabel label i parts) = (List.range' i (tokens parts).length).map label := by
  induction parts generalizing i with
  | nil => rfl
  | cons part parts ih =>
    cases part with
    | inl c => exact ih
    | inr k =>
      rw [relabel, tokens_cons_inr, ih, tokens_cons_inr, List.length_cons, List.range'_succ, List.map_cons]

theorem filled_relabel {fill : ι → List α} {fill' : κ → List α}
    (h : ∀ j k, (tokens parts)[j]? = some k → fill (label (i + j)) = fill' k) : filled fill (relabel label i parts) = filled fill' parts := by
  induction parts generalizing i with
  | nil => rfl
  | cons part parts ih =>
    cases part with
    | inl c =>
      rw [relabel, filled_cons_inl, filled_cons_inl, ih h]
    | inr k =>
      rw [relabel, filled_cons_inr, filled_cons_inr]
      congr 1
      · exact h 0 k rfl
      · apply ih
        intro j k' hk'
        have hshift := h (j + 1) k' hk'
        rwa [← Nat.add_assoc, Nat.add_right_comm] at hshift

end Numbered

/-! ## Replacing a text -/

section Replace
variable {old new a b : List α}

theorem not_prefix_of_ends (hfree : ¬ old <:+: a) (hend : b = [] ∨ ∃ c, a.getLast? = some c ∧ c ∉ old) {tail : List α}
    (hne : tail ≠ []) (hsuffix : tail <:+ a) : ¬ old <+: tail ++ b := by
  intro hlead
  rcases hend with rfl | ⟨c, hc, hold⟩
  · rw [List.append_nil] at hlead
    exact hfree (hlead.isInfix.trans hsuffix.isInfix)
  · by_cases hlong : old.length ≤ tail.length
    · have hinside : old <+: tail := List.prefix_of_prefix_length_le hlead (List.prefix_append _ _) hlong
      exact hfree (hinside.isInfix.trans hsuffix.isInfix)
    · have hwithin : tail <+: old := List.prefix_of_prefix_length_le (List.prefix_append _ _) hlead (not_le.mp hlong).le
      have hlast : tail.getLast? = some c := by
        obtain ⟨front, rfl⟩ := hsuffix
        rwa [List.getLast?_append_of_ne_nil _ hne] at hc
      exact hold (hwithin.subset (List.mem_of_getLast? hlast))

variable [DecidableEq α]

def literal (old : List α) : Reader α Unit := fun text => if old <+: text then some ((), old.length) else none

/-- `str.replace` of a text that is not empty. -/
def replaceAll (old new text : List α) : List α := filled (fun _ => new) (scan (literal old) text)

theorem replaceAll_token (hne : old ≠ []) : replaceAll old new (old ++ b) = new ++ replaceAll old new b := by
  have hread : literal old (old ++ b) = some ((), old.length) := if_pos (List.prefix_append old b)
  rw [replaceAll, scan_token hne hread, filled_cons_inr]
  rfl

theorem replaceAll_append (h : ∀ tail, tail ≠ [] → tail <:+ a → ¬ old <+: tail ++ b) :
    replaceAll old new (a ++ b) = a ++ replaceAll old new b := by
  rw [replaceAll, scan_append fun tail hne hsuffix => if_neg (h tail hne hsuffix), filled_append, filled_inl]
  rfl

theorem replaceAll_flatMap {ε : Type} {entries : List ε} {f g : ε → List α} (hne : old ≠ [])
    (hpieces : ∀ e ∈ entries, (f e = g e ∧ ¬ old <:+: f e) ∨ ∃ x, f e = old ++ x ∧ g e = new ++ x ∧ ¬ old <:+: x)
    (hends : ∀ before e later after, entries = before ++ e :: later :: after → ∃ c, (f e).getLast? = some c ∧ c ∉ old) :
    replaceAll old new (entries.flatMap f) = entries.flatMap g := by
  induction entries with
  | nil => rfl
  | cons e rest ih =>
    have hrest : replaceAll old new (rest.flatMap f) = rest.flatMap g := by
      apply ih fun e' he' => hpieces e' (List.mem_cons_of_mem _ he')
      intro before e' later after heq
      exact hends (e :: before) e' later after (congrArg (e :: ·) heq)
    have hend : rest.flatMap f = [] ∨ ∃ c, (f e).getLast? = some c ∧ c ∉ old := by
      cases rest with
      | nil => exact Or.inl rfl
      | cons later after => exact Or.inr (hends [] e later after rfl)
    rw [List.flatMap_cons, List.flatMap_cons]
    rcases hpieces e List.mem_cons_self with ⟨hsame, hfree⟩ | ⟨x, hf, hg, hfree⟩
    · rw [replaceAll_append fun tail hne hsuffix => not_prefix_of_ends hfree hend hne hsuffix, hrest, hsame]
    · rw [hf, hg, List.append_assoc, replaceAll_token hne, List.append_assoc, replaceAll_append, hrest]
      intro tail hne hsuffix
      apply not_prefix_of_ends hfree _ hne hsuffix
      rcases hend with hnil | ⟨c, hc, hold⟩
      · exact Or.inl hnil
      · refine Or.inr ⟨c, ?_, hold⟩
        have hx : x ≠ [] := by
          rintro rfl
          exact hne (List.suffix_nil.mp hsuffix)
        rwa [hf, List.getLast?_append_of_ne_nil _ hx] at hc

end Replace

end EdgarSec.Lib.Substitution
