import EdgarSec.Document.SignatureMask

/-! What comes back of a text whose signature lines were masked, and when the masked text has as many
lines as the text. -/

namespace EdgarSec.Document
open Foundation Lib Substitution

/-! ## Tokens -/

section Tokens
variable {number index number' index' : Nat} {c : Char} {a b rest : Chars}

theorem sigToken_ne_nil : sigToken number index ≠ [] := List.cons_ne_nil _ _

theorem isLineBreak_printed (h : 32 ≤ c.toNat ∧ c.toNat < 127) : isLineBreak c = false := by
  by_contra hbreak
  have hmem : c ∈ ['\n', '\r', '\x0b', '\x0c', '\x1c', '\x1d', '\x1e', '\u0085', '\u2028', '\u2029'] :=
    of_decide_eq_true (Bool.not_eq_false _ ▸ hbreak)
  simp only [List.mem_cons, List.not_mem_nil, or_false] at hmem
  rcases hmem with rfl | rfl | rfl | rfl | rfl | rfl | rfl | rfl | rfl | rfl <;> exact absurd h (by decide)

theorem isLineBreak_of_mem_sigToken (h : c ∈ sigToken number index) : isLineBreak c = false := by
  have hlead : sigLead.all (fun d => decide (32 ≤ d.toNat ∧ d.toNat < 127)) = true := by decide +kernel
  have hbar : 32 ≤ '_'.toNat ∧ '_'.toNat < 127 := by decide
  have hdigit : ∀ n, c ∈ Nat.toDigits 10 n → 32 ≤ c.toNat ∧ c.toNat < 127 := by
    intro n hc
    have hdecimal := Nat.isDigit_of_mem_toDigits (by decide) (by decide) hc
    simp only [Char.isDigit, Bool.and_eq_true, decide_eq_true_eq] at hdecimal
    have hlow : 48 ≤ c.toNat := hdecimal.1
    have hhigh : c.toNat ≤ 57 := hdecimal.2
    omega
  apply isLineBreak_printed
  rw [sigToken] at h
  rcases List.mem_append.mp h with h | h
  · exact of_decide_eq_true (List.all_eq_true.mp hlead c h)
  · rcases List.mem_append.mp h with h | h
    · exact hdigit number h
    · rcases List.mem_cons.mp h with hc | h
      · rw [hc]
        exact hbar
      · rcases List.mem_append.mp h with h | h
        · exact hdigit index h
        · have hc : c = '_' := by simpa using h
          rw [hc]
          exact hbar

theorem sigToken_letter {n : Nat} (h : (sigToken number index)[n]? = some 'E') : n = 3 := by
  rw [sigToken] at h
  by_cases hn : n < sigLead.length
  · rw [List.getElem?_append_left hn] at h
    have hplaces : ∀ n < 10, sigLead[n]? = some 'E' → n = 3 := by decide
    exact hplaces n hn h
  · rw [List.getElem?_append_right (not_lt.mp hn)] at h
    have hdigit : ∀ m, 'E' ∉ Nat.toDigits 10 m := fun m hmem =>
      absurd (Nat.isDigit_of_mem_toDigits (by decide) (by decide) hmem) (by decide)
    rcases List.mem_append.mp (List.mem_of_getElem? h) with hmem | hmem
    · exact absurd hmem (hdigit number)
    · rcases List.mem_cons.mp hmem with hmem | hmem
      · exact absurd hmem (by decide)
      · rcases List.mem_append.mp hmem with hmem | hmem
        · exact absurd hmem (hdigit index)
        · exact absurd hmem (by decide)

theorem digits_apart {n m : Nat} (h : Nat.toDigits 10 n ++ '_' :: a = Nat.toDigits 10 m ++ '_' :: b) : n = m ∧ a = b := by
  have hdigits : ∀ (n : Nat) (later : Chars), (Nat.toDigits 10 n ++ '_' :: later).takeWhile Char.isDigit = Nat.toDigits 10 n := by
    intro n later
    rw [List.takeWhile_append_of_pos fun c hc => Nat.isDigit_of_mem_toDigits (by decide) (by decide) hc]
    have hstop : ('_' :: later).takeWhile Char.isDigit = [] := rfl
    rw [hstop, List.append_nil]
  have hsame := congrArg (List.takeWhile Char.isDigit) h
  rw [hdigits, hdigits] at hsame
  rw [hsame] at h
  refine ⟨?_, (List.cons.inj (List.append_cancel_left h)).2⟩
  rw [← Nat.ofDigitChars_ten_toDigits (n := n), hsame, Nat.ofDigitChars_ten_toDigits]

theorem sigToken_apart (h : sigToken number index <+: sigToken number' index' ++ rest) : number = number' ∧ index = index' := by
  obtain ⟨others, hothers⟩ := h
  rw [sigToken, sigToken, List.append_assoc, List.append_assoc, List.append_assoc, List.append_assoc] at hothers
  have hbehind := List.append_cancel_left hothers
  rw [List.cons_append, List.cons_append] at hbehind
  obtain ⟨hnumber, hlater⟩ := digits_apart hbehind
  rw [List.append_assoc, List.append_assoc] at hlater
  exact ⟨hnumber, (digits_apart hlater).1⟩

theorem sigToken_within (h : sigToken number index <:+: sigToken number' index') : number = number' ∧ index = index' := by
  obtain ⟨front, behind, hwhole⟩ := h
  have hletter : (sigToken number' index')[front.length + 3]? = some 'E' := by
    rw [← hwhole, List.append_assoc, List.getElem?_append_right (Nat.le_add_right _ _), Nat.add_sub_cancel_left]
    rfl
  have hzero := sigToken_letter hletter
  have hfront : front = [] := List.length_eq_zero_iff.mp (by omega)
  rw [hfront, List.nil_append] at hwhole
  apply sigToken_apart
  rw [List.append_nil, ← hwhole]
  exact List.prefix_append _ _

theorem infix_of_infix_concat (hne : a ≠ []) (hc : c ∉ a) (h : a <:+: b ++ [c]) : a <:+: b := by
  rcases List.infix_concat_iff.mp h with hsuffix | hinside
  · obtain ⟨front, hfront⟩ := hsuffix
    have hlast : a.getLast? = some c := by
      have heq := congrArg List.getLast? hfront
      rwa [List.getLast?_append_of_ne_nil _ hne, List.getLast?_concat] at heq
    exact absurd (List.mem_of_getLast? hlast) hc
  · exact hinside

theorem not_infix_ending {line : Chars} (h : ¬ sigToken number index <:+: a) : ¬ sigToken number index <:+: a ++ endingOf line := by
  unfold endingOf
  split_ifs
  · intro hinside
    apply h
    apply infix_of_infix_concat sigToken_ne_nil _ hinside
    intro hmem
    exact Bool.noConfusion (isLineBreak_of_mem_sigToken hmem)
  · rw [List.append_nil]
    exact h

end Tokens

/-! ## Regions -/

section Regions
variable {rules : SignatureRules} {source : List Chars} {regions : List SignatureRegion} {n number index : Nat} {line : Chars}

def RegionsLaid (source : List Chars) : Nat → List SignatureRegion → Prop
  | _, [] => True
  | n, region :: rest => n ≤ region.startLine ∧ region.startLine < region.endLine ∧ region.endLine ≤ source.length ∧
      region.lines = slice source region.startLine region.endLine ∧ RegionsLaid source region.endLine rest

theorem RegionsLaid.mono {m : Nat} (hle : m ≤ n) (h : RegionsLaid source n regions) : RegionsLaid source m regions := by
  cases regions with
  | nil => exact trivial
  | cons region rest => exact ⟨hle.trans h.1, h.2⟩

theorem extendRegion_bounds {rest : List Chars} {lastSignal signerCount next lastSignal' signerCount' : Nat} {previous : Chars}
    (hlast : lastSignal < index) (h : extendRegion rules rest index lastSignal signerCount previous = (next, lastSignal', signerCount')) :
    index ≤ next ∧ lastSignal' < next ∧ next ≤ index + rest.length := by
  induction rest generalizing index lastSignal signerCount previous with
  | nil =>
    rw [extendRegion] at h
    obtain ⟨hnext, hrest⟩ := Prod.mk.inj h
    rw [← hnext, ← (Prod.mk.inj hrest).1]
    exact ⟨le_refl _, hlast, Nat.le_add_right _ _⟩
  | cons line rest ih =>
    rw [extendRegion] at h
    rw [List.length_cons]
    split_ifs at h
    · have hbounds := ih (by omega) h
      omega
    · have hbounds := ih (by omega) h
      omega
    · obtain ⟨hnext, hrest⟩ := Prod.mk.inj h
      rw [← hnext, ← (Prod.mk.inj hrest).1]
      omega

theorem laid_regionsFrom {fuel : Nat} : RegionsLaid source index (regionsFrom rules source fuel index) := by
  induction fuel generalizing index with
  | zero => exact trivial
  | succ fuel ih =>
    rw [regionsFrom]
    cases hline : source[index]? with
    | none => exact trivial
    | some line =>
      have hlt : index < source.length := (List.getElem?_eq_some_iff.mp hline).1
      simp only
      split
      · exact ih.mono (Nat.le_succ index)
      · rcases hextend : extendRegion rules (source.drop (index + 1)) (index + 1) index 0 [] with ⟨next, lastSignal, signerCount⟩
        obtain ⟨hindex, hlast, hnext⟩ := extendRegion_bounds (Nat.lt_succ_self index) hextend
        rw [List.length_drop] at hnext
        simp only
        split
        · next hregion =>
          have hlater : RegionsLaid source (lastSignal + 1) (regionsFrom rules source fuel (max next (lastSignal + 1))) := ih.mono (le_max_right _ _)
          exact ⟨le_refl index, Nat.lt_succ_of_lt hregion.1, by show lastSignal + 1 ≤ source.length; omega, rfl, hlater⟩
        · exact ih.mono (by omega)

def ownerOf : List SignatureRegion → Nat → Nat → Option (Nat × Nat)
  | [], _, _ => none
  | region :: rest, number, index =>
    if region.startLine ≤ index ∧ index < region.endLine then some (number, index - region.startLine) else ownerOf rest (number + 1) index

theorem foldl_behind (hlaid : RegionsLaid source n regions) (hbefore : index < n) (masked : Chars) :
    (regions.zipIdx number).foldl (maskStep index) masked = masked := by
  induction regions generalizing n number with
  | nil => rfl
  | cons region rest ih =>
    obtain ⟨hn, hlt, -, -, hrest⟩ := hlaid
    have hout : ¬ (region.startLine ≤ index ∧ index < region.endLine) := by omega
    rw [List.zipIdx_cons, List.foldl_cons, maskStep, if_neg hout]
    exact ih hrest (by omega)

theorem foldl_maskLine (hlaid : RegionsLaid source n regions) :
    (regions.zipIdx number).foldl (maskStep index) line =
    match ownerOf regions number index with
    | none => line
    | some (number, offset) => sigToken number offset ++ endingOf line := by
  induction regions generalizing n number with
  | nil => rfl
  | cons region rest ih =>
    obtain ⟨hn, hlt, -, -, hrest⟩ := hlaid
    rw [List.zipIdx_cons, List.foldl_cons, maskStep, ownerOf]
    by_cases hin : region.startLine ≤ index ∧ index < region.endLine
    · rw [if_pos hin, if_pos hin]
      exact foldl_behind hrest hin.2 _
    · rw [if_neg hin, if_neg hin]
      exact ih hrest

theorem ownerOf_some {number' offset : Nat} (h : ownerOf regions number index = some (number', offset)) :
    ∃ k region, regions[k]? = some region ∧ number' = number + k ∧ index = region.startLine + offset ∧ index < region.endLine := by
  induction regions generalizing number with
  | nil => exact absurd h (Option.some_ne_none _).symm
  | cons region rest ih =>
    rw [ownerOf] at h
    split_ifs at h with hin
    · obtain ⟨hnumber, hoffset⟩ := Prod.mk.inj (Option.some.inj h)
      exact ⟨0, region, rfl, hnumber.symm, by omega, hin.2⟩
    · obtain ⟨k, region', hk, hnumber, hindex⟩ := ih h
      exact ⟨k + 1, region', hk, by omega, hindex⟩

theorem ownerOf_isSome : (ownerOf regions number index).isSome ↔ ∃ region ∈ regions, region.startLine ≤ index ∧ index < region.endLine := by
  induction regions generalizing number with
  | nil => simp [ownerOf]
  | cons region rest ih =>
    rw [ownerOf]
    split_ifs with hin
    · exact ⟨fun _ => ⟨region, List.mem_cons_self, hin⟩, fun _ => rfl⟩
    · rw [ih]
      constructor
      · rintro ⟨region', hmem, hin'⟩
        exact ⟨region', List.mem_cons_of_mem _ hmem, hin'⟩
      · rintro ⟨region', hmem, hin'⟩
        rcases List.mem_cons.mp hmem with rfl | hmem
        · exact absurd hin' hin
        · exact ⟨region', hmem, hin'⟩

end Regions

/-! ## Lines with their tokens -/

abbrev Entry := Chars × Option Chars

def maskedPiece (e : Entry) : Chars :=
  match e.2 with
  | none => e.1
  | some token => token ++ endingOf e.1

def restoredPiece (e : Entry) : Chars :=
  match e.2 with
  | none => e.1
  | some _ => stripEnd e.1 ++ endingOf e.1

def Closed : List Entry → Prop
  | [] => True
  | e :: rest => (rest = [] ∨ (e.2.isSome → e.1.getLast? = some '\n')) ∧ Closed rest

def HasTokens (entries : List Entry) : Prop := ∀ e ∈ entries, ∀ token, e.2 = some token → ∃ number index, token = sigToken number index

section Entries
variable {entries : List Entry} {e : Entry} {line token : Chars}

theorem endingOf_of_feed (h : line.getLast? = some '\n') : endingOf line = ['\n'] := if_pos h

theorem Closed.of_later {before after : List Entry} {later : Entry} (h : Closed (before ++ e :: later :: after)) (hsome : e.2.isSome) :
    e.1.getLast? = some '\n' := by
  induction before with
  | nil =>
    obtain ⟨hnil | hfeed, -⟩ := h
    · exact absurd hnil (List.cons_ne_nil _ _)
    · exact hfeed hsome
  | cons d before ih => exact ih h.2

theorem unended_sigToken {number index : Nat} : Unended (sigToken number index) :=
  ⟨sigToken_ne_nil, fun _ hc => isLineBreak_of_mem_sigToken hc⟩

theorem maskedPiece_none (h : e.2 = none) : maskedPiece e = e.1 := by rw [maskedPiece, h]

theorem maskedPiece_some (h : e.2 = some token) : maskedPiece e = token ++ endingOf e.1 := by rw [maskedPiece, h]

theorem maskedPiece_front (hline : e.1 ≠ []) (htoken : ∀ token, e.2 = some token → ∃ number index, token = sigToken number index) :
    maskedPiece e ≠ [] ∧ ((maskedPiece e).head? = some '\n' → e.1.head? = some '\n') := by
  cases hsome : e.2 with
  | none =>
    rw [maskedPiece_none hsome]
    exact ⟨hline, id⟩
  | some token =>
    obtain ⟨number, index, rfl⟩ := htoken token hsome
    rw [maskedPiece_some hsome]
    refine ⟨List.append_ne_nil_of_left_ne_nil sigToken_ne_nil _, fun hhead => ?_⟩
    have hbar : (sigToken number index ++ endingOf e.1).head? = some '_' := rfl
    rw [hbar] at hhead
    exact absurd (Option.some.inj hhead) (by decide)

theorem length_splitlinesKeep_masked (hlined : Lined (entries.map Prod.fst)) (htokens : HasTokens entries) :
    (splitlinesKeep (entries.flatMap maskedPiece)).length ≤ entries.length ∧
      ((splitlinesKeep (entries.flatMap maskedPiece)).length = entries.length ↔ Closed entries) := by
  induction entries with
  | nil => exact ⟨le_refl 0, fun _ => trivial, fun _ => rfl⟩
  | cons e rest ih =>
    obtain ⟨hline, hreturn, hlater⟩ := hlined
    obtain ⟨hle, hiff⟩ := ih hlater fun e' he' => htokens e' (List.mem_cons_of_mem _ he')
    have hfront : rest = [] ∨ (rest.flatMap maskedPiece ≠ [] ∧
        (e.1.getLast? = some '\r' → (rest.flatMap maskedPiece).head? ≠ some '\n')) := by
      cases rest with
      | nil => exact Or.inl rfl
      | cons later after =>
        obtain ⟨hne, hfeed⟩ := maskedPiece_front (Lined.head_ne_nil hlater) (htokens later (List.mem_cons_of_mem _ List.mem_cons_self))
        right
        rw [List.flatMap_cons]
        refine ⟨List.append_ne_nil_of_left_ne_nil hne _, fun hlast hhead => ?_⟩
        rw [List.head?_append_of_ne_nil _ hne] at hhead
        exact hreturn hlast later.1 rfl (hfeed hhead)
    have hterminated : Terminated (maskedPiece e) → ((maskedPiece e).getLast? = some '\r' → e.1.getLast? = some '\r') →
        (rest = [] ∨ (e.2.isSome → e.1.getLast? = some '\n')) →
        (splitlinesKeep ((e :: rest).flatMap maskedPiece)).length ≤ (e :: rest).length ∧
          ((splitlinesKeep ((e :: rest).flatMap maskedPiece)).length = (e :: rest).length ↔ Closed (e :: rest)) := by
      intro hterm hlast hfeed
      have hsplit : splitlinesKeep (maskedPiece e ++ rest.flatMap maskedPiece) = maskedPiece e :: splitlinesKeep (rest.flatMap maskedPiece) := by
        apply splitlinesKeep_terminated hterm
        intro hr
        rcases hfront with rfl | ⟨-, hhead⟩
        · exact (Option.some_ne_none _).symm
        · exact hhead (hlast hr)
      rw [List.flatMap_cons, hsplit, List.length_cons, List.length_cons]
      refine ⟨Nat.succ_le_succ hle, fun h => ⟨hfeed, Iff.mp hiff (Nat.succ.inj h)⟩, fun h => congrArg Nat.succ (Iff.mpr hiff h.2)⟩
    have hunended : Unended (maskedPiece e) → (rest ≠ [] → ¬ (e.2.isSome → e.1.getLast? = some '\n')) →
        (splitlinesKeep ((e :: rest).flatMap maskedPiece)).length ≤ (e :: rest).length ∧
          ((splitlinesKeep ((e :: rest).flatMap maskedPiece)).length = (e :: rest).length ↔ Closed (e :: rest)) := by
      intro hopen hfeed
      rw [List.flatMap_cons, splitlinesKeep_unended hopen, List.length_cons]
      rcases hfront with rfl | ⟨hne, -⟩
      · exact ⟨le_refl 1, fun _ => ⟨Or.inl rfl, trivial⟩, fun _ => rfl⟩
      · have hrest : rest ≠ [] := fun hnil => hne (by rw [hnil]; rfl)
        cases hlines : splitlinesKeep (rest.flatMap maskedPiece) with
        | nil =>
          have hflat := splitlinesKeep_flatten (rest.flatMap maskedPiece)
          rw [hlines] at hflat
          exact absurd hflat.symm hne
        | cons next lines =>
          rw [hlines, List.length_cons] at hle
          rw [List.length_cons]
          refine ⟨by omega, fun h => by omega, fun h => ?_⟩
          exact absurd (h.1.resolve_left hrest) (hfeed hrest)
    cases hsome : e.2 with
    | none =>
      have hpiece := maskedPiece_none hsome
      rcases hline with hterm | ⟨hopen, hnil⟩
      · exact hterminated (hpiece ▸ hterm) (fun h => hpiece ▸ h) (Or.inr fun h => by rw [hsome] at h; exact absurd h Bool.false_ne_true)
      · exact hunended (hpiece ▸ hopen) fun hrest => absurd (List.map_eq_nil_iff.mp hnil) hrest
    | some token =>
      have hpiece := maskedPiece_some hsome
      obtain ⟨number, index, rfl⟩ := htokens e List.mem_cons_self token hsome
      by_cases hfeed : e.1.getLast? = some '\n'
      · rw [endingOf_of_feed hfeed] at hpiece
        apply hterminated
        · exact ⟨_, unended_sigToken.2, Or.inr ⟨'\n', rfl, hpiece⟩⟩
        · rw [hpiece, List.getLast?_concat]
          intro h
          exact absurd (Option.some.inj h) (by decide)
        · exact Or.inr fun _ => hfeed
      · have hnone : endingOf e.1 = [] := if_neg hfeed
        rw [hnone, List.append_nil] at hpiece
        apply hunended
        · rw [hpiece]
          exact unended_sigToken
        · intro _ h
          exact hfeed (h (by rw [hsome]; rfl))

/-! ## Putting the lines back -/

/-- The pieces when the tokens `done` have been replaced. -/
def pieceAfter (done : List Chars) (e : Entry) : Chars :=
  match e.2 with
  | none => e.1
  | some token => if token ∈ done then stripEnd e.1 ++ endingOf e.1 else token ++ endingOf e.1

theorem pieceAfter_none {done : List Chars} (h : e.2 = none) : pieceAfter done e = e.1 := by rw [pieceAfter, h]

theorem pieceAfter_some {done : List Chars} (h : e.2 = some token) :
    pieceAfter done e = if token ∈ done then stripEnd e.1 ++ endingOf e.1 else token ++ endingOf e.1 := by rw [pieceAfter, h]

theorem stripEnd_infix : stripEnd line <:+: line := (List.rdropWhile_prefix _ line).isInfix

theorem replaceAll_pieces {number index : Nat} {new : Chars} {done : List Chars} (hclosed : Closed entries)
    (hlined : Lined (entries.map Prod.fst)) (htokens : HasTokens entries) (hfree : ∀ e ∈ entries, ¬ sigToken number index <:+: e.1)
    (hnew : ∀ e ∈ entries, e.2 = some (sigToken number index) → new = stripEnd e.1) :
    replaceAll (sigToken number index) new (entries.flatMap (pieceAfter done)) =
      entries.flatMap (pieceAfter (sigToken number index :: done)) := by
  apply replaceAll_flatMap sigToken_ne_nil
  · intro e he
    have hstripped : ¬ sigToken number index <:+: stripEnd e.1 ++ endingOf e.1 :=
      not_infix_ending fun hinside => hfree e he (hinside.trans stripEnd_infix)
    cases hsome : e.2 with
    | none =>
      rw [pieceAfter_none hsome, pieceAfter_none hsome]
      exact Or.inl ⟨rfl, hfree e he⟩
    | some token =>
      rw [pieceAfter_some hsome, pieceAfter_some hsome]
      by_cases hdone : token ∈ done
      · rw [if_pos hdone, if_pos (List.mem_cons_of_mem _ hdone)]
        exact Or.inl ⟨rfl, hstripped⟩
      · by_cases hthis : token = sigToken number index
        · rw [if_neg hdone, if_pos (hthis ▸ List.mem_cons_self), hthis, hnew e he (hthis ▸ hsome)]
          refine Or.inr ⟨_, rfl, rfl, ?_⟩
          have hempty : ¬ sigToken number index <:+: [] := fun h => sigToken_ne_nil (List.infix_nil.mp h)
          exact not_infix_ending (a := []) hempty
        · rw [if_neg hdone, if_neg fun hmem => (List.mem_cons.mp hmem).elim hthis hdone]
          refine Or.inl ⟨rfl, not_infix_ending fun hinside => hthis ?_⟩
          obtain ⟨number', index', rfl⟩ := htokens e he token hsome
          obtain ⟨rfl, rfl⟩ := sigToken_within hinside
          rfl
  · intro before e later after heq
    have hbreak : ∀ c, isLineBreak c = true → c ∉ sigToken number index := by
      intro c hc hmem
      rw [isLineBreak_of_mem_sigToken hmem] at hc
      exact Bool.noConfusion hc
    cases hsome : e.2 with
    | none =>
      rw [heq, List.map_append, List.map_cons, List.map_cons] at hlined
      obtain ⟨c, hc, hend⟩ := (Lined.of_later hlined).getLast
      rw [pieceAfter_none hsome]
      exact ⟨c, hc, hbreak c hend⟩
    | some token =>
      rw [heq] at hclosed
      have hfeed := endingOf_of_feed (hclosed.of_later (by rw [hsome]; rfl))
      refine ⟨'\n', ?_, hbreak '\n' rfl⟩
      rw [pieceAfter_some hsome, hfeed]
      split_ifs <;> exact List.getLast?_concat

theorem foldl_replaceAll {pairs : List (Chars × Chars)} {done : List Chars} (hclosed : Closed entries)
    (hlined : Lined (entries.map Prod.fst)) (htokens : HasTokens entries)
    (hpairs : ∀ p ∈ pairs, (∃ number index, p.1 = sigToken number index) ∧ (∀ e ∈ entries, ¬ p.1 <:+: e.1) ∧
      ∀ e ∈ entries, e.2 = some p.1 → p.2 = stripEnd e.1) :
    pairs.foldl (fun text p => replaceAll p.1 p.2 text) (entries.flatMap (pieceAfter done)) =
      entries.flatMap (pieceAfter ((pairs.map Prod.fst).reverse ++ done)) := by
  induction pairs generalizing done with
  | nil => rfl
  | cons p pairs ih =>
    obtain ⟨⟨number, index, hp⟩, hfree, hnew⟩ := hpairs p List.mem_cons_self
    rw [hp] at hfree hnew
    rw [List.foldl_cons, hp, replaceAll_pieces hclosed hlined htokens hfree hnew, ← hp,
      ih fun q hq => hpairs q (List.mem_cons_of_mem _ hq)]
    rw [List.map_cons, List.reverse_cons, List.append_assoc, List.singleton_append]

end Entries

/-! ## The text -/

section Text
variable {lines : List Chars} {regions : List SignatureRegion} {line : Chars}

def entriesOf (lines : List Chars) (regions : List SignatureRegion) : List Entry :=
  lines.zipIdx.map fun p => (p.1, (ownerOf regions 0 p.2).map fun owner => sigToken owner.1 owner.2)

def replacements (regions : List SignatureRegion) : List (Chars × Chars) :=
  regions.zipIdx.flatMap fun p => p.1.lines.zipIdx.map fun q => (sigToken p.2 q.2, q.1)

theorem restoreSignatureRegions_eq (text : Chars) :
    restoreSignatureRegions text regions = (replacements regions).foldl (fun text p => replaceAll p.1 p.2 text) text := by
  rw [restoreSignatureRegions, replacements, List.foldl_flatMap]
  congr 1
  funext text p
  rw [List.foldl_map]

theorem mem_entriesOf {e : Entry} (h : e ∈ entriesOf lines regions) :
    ∃ index, lines[index]? = some e.1 ∧ e.2 = (ownerOf regions 0 index).map fun owner => sigToken owner.1 owner.2 := by
  obtain ⟨⟨line, index⟩, hmem, rfl⟩ := List.mem_map.mp h
  exact ⟨index, List.mem_zipIdx_iff_getElem?.mp hmem, rfl⟩

theorem map_fst_entriesOf (lines : List Chars) (regions : List SignatureRegion) : (entriesOf lines regions).map Prod.fst = lines := by
  rw [entriesOf, List.map_map]
  exact List.zipIdx_map_fst _ _

theorem masked_eq {source : List Chars} (hlaid : RegionsLaid source 0 regions) :
    (lines.mapIdx (maskLine regions)).flatten = (entriesOf lines regions).flatMap maskedPiece := by
  rw [List.mapIdx_eq_zipIdx_map, entriesOf, List.flatMap_map, List.flatMap_def]
  congr 1
  apply List.map_congr_left
  rintro ⟨line, index⟩ -
  show maskLine regions index line = _
  rw [maskLine, foldl_maskLine hlaid, maskedPiece]
  cases ownerOf regions 0 index <;> rfl

theorem hasTokens_entriesOf (lines : List Chars) (regions : List SignatureRegion) : HasTokens (entriesOf lines regions) := by
  intro e he token htoken
  obtain ⟨index, -, howner⟩ := mem_entriesOf he
  rw [howner] at htoken
  obtain ⟨owner, -, rfl⟩ := Option.map_eq_some_iff.mp htoken
  exact ⟨owner.1, owner.2, rfl⟩

theorem RegionsLaid.lines_eq {source : List Chars} {n number : Nat} {region : SignatureRegion} (h : RegionsLaid source n regions)
    (hregion : regions[number]? = some region) : region.lines = slice source region.startLine region.endLine ∧ region.endLine ≤ source.length := by
  induction regions generalizing n number with
  | nil => exact absurd hregion (Option.some_ne_none _).symm
  | cons first rest ih =>
    obtain ⟨-, -, hbound, hlines, hrest⟩ := h
    cases number with
    | zero =>
      rw [← Option.some.inj hregion]
      exact ⟨hlines, hbound⟩
    | succ number => exact ih hrest hregion

theorem getElem?_slice {α : Type} {xs : List α} {a b k : Nat} (h : a + k < b) : (slice xs a b)[k]? = xs[a + k]? := by
  rw [slice, List.getElem?_drop, List.getElem?_take_of_lt h]

theorem owned_line {n number offset index : Nat} (hlaid : RegionsLaid (lines.map stripEnd) n regions)
    (howner : ownerOf regions 0 index = some (number, offset)) (hline : lines[index]? = some line) :
    ∃ region, regions[number]? = some region ∧ region.lines[offset]? = some (stripEnd line) := by
  obtain ⟨k, region, hk, hnumber, hindex, hlt⟩ := ownerOf_some howner
  rw [Nat.zero_add] at hnumber
  rw [← hnumber] at hk
  refine ⟨region, hk, ?_⟩
  rw [(hlaid.lines_eq hk).1, getElem?_slice (hindex ▸ hlt), ← hindex, List.getElem?_map, hline]
  rfl

theorem mem_replacements {p : Chars × Chars} : p ∈ replacements regions ↔
    ∃ number region index, regions[number]? = some region ∧ region.lines[index]? = some p.2 ∧ p.1 = sigToken number index := by
  rw [replacements, List.mem_flatMap]
  constructor
  · rintro ⟨⟨region, number⟩, hregion, hp⟩
    obtain ⟨⟨line, index⟩, hline, rfl⟩ := List.mem_map.mp hp
    exact ⟨number, region, index, List.mem_zipIdx_iff_getElem?.mp hregion, List.mem_zipIdx_iff_getElem?.mp hline, rfl⟩
  · rintro ⟨number, region, index, hregion, hline, hp⟩
    refine ⟨(region, number), List.mem_zipIdx_iff_getElem?.mpr hregion, List.mem_map.mpr ⟨(p.2, index), ?_, ?_⟩⟩
    · exact List.mem_zipIdx_iff_getElem?.mpr hline
    · rw [← hp]

theorem restore_masked {text : Chars} (hlines : lines = splitlinesKeep text) (hlaid : RegionsLaid (lines.map stripEnd) 0 regions)
    (hfree : ∀ number region, regions[number]? = some region → ∀ index < region.endLine - region.startLine, ¬ sigToken number index <:+: text)
    (hclosed : Closed (entriesOf lines regions)) :
    restoreSignatureRegions ((entriesOf lines regions).flatMap maskedPiece) regions = (entriesOf lines regions).flatMap restoredPiece := by
  have hlined : Lined ((entriesOf lines regions).map Prod.fst) := by
    rw [map_fst_entriesOf, hlines]
    exact lined_splitlinesKeep text
  have hmasked : maskedPiece = pieceAfter [] := by
    funext e
    cases hsome : e.2 with
    | none => rw [maskedPiece_none hsome, pieceAfter_none hsome]
    | some token => rw [maskedPiece_some hsome, pieceAfter_some hsome, if_neg List.not_mem_nil]
  rw [restoreSignatureRegions_eq, hmasked, foldl_replaceAll hclosed hlined (hasTokens_entriesOf lines regions)]
  · rw [List.append_nil, List.flatMap_def, List.flatMap_def]
    congr 1
    apply List.map_congr_left
    intro e he
    obtain ⟨index, hline, howner⟩ := mem_entriesOf he
    cases hsome : e.2 with
    | none => rw [pieceAfter_none hsome, restoredPiece, hsome]
    | some token =>
      rw [hsome] at howner
      obtain ⟨⟨number, offset⟩, howned, rfl⟩ := Option.map_eq_some_iff.mp howner.symm
      obtain ⟨region, hregion, hput⟩ := owned_line hlaid howned hline
      have hmem : (sigToken number offset, stripEnd e.1) ∈ replacements regions :=
        Iff.mpr mem_replacements ⟨number, region, offset, hregion, hput, rfl⟩
      rw [pieceAfter_some hsome, if_pos (List.mem_reverse.mpr (List.mem_map_of_mem hmem)), restoredPiece, hsome]
  · intro p hp
    obtain ⟨number, region, index, hregion, hput, hp⟩ := Iff.mp mem_replacements hp
    refine ⟨⟨number, index, hp⟩, ?_, ?_⟩
    · intro e he hinside
      obtain ⟨place, hline, -⟩ := mem_entriesOf he
      have hlength : index < region.endLine - region.startLine := by
        have hlt := (List.getElem?_eq_some_iff.mp hput).1
        rw [(hlaid.lines_eq hregion).1, slice, List.length_drop, List.length_take] at hlt
        omega
      have hwithin : e.1 <:+: text := by
        rw [← splitlinesKeep_flatten text, ← hlines]
        exact List.infix_of_mem_flatten (List.mem_of_getElem? hline)
      exact hfree number region hregion index hlength (hp ▸ hinside.trans hwithin)
    · intro e he hsome
      obtain ⟨place, hline, howner⟩ := mem_entriesOf he
      rw [hsome] at howner
      obtain ⟨⟨number', offset⟩, howned, htoken⟩ := Option.map_eq_some_iff.mp howner.symm
      rw [hp] at htoken
      obtain ⟨hnumber, hoffset⟩ := sigToken_within (htoken ▸ List.infix_refl (sigToken number' offset) : sigToken number' offset <:+: sigToken number index)
      obtain ⟨region', hregion', hput'⟩ := owned_line hlaid howned hline
      rw [hnumber, hregion] at hregion'
      rw [← Option.some.inj hregion', hoffset, hput] at hput'
      exact Option.some.inj hput'

def EndsPlainly (count index : Nat) (line : Chars) : Prop :=
  (line.getLast? = some '\n' ∧ line.dropLast.getLast? ≠ some '\r') ∨
    (index + 1 = count ∧ line.getLast? ≠ some '\n' ∧ line.getLast? ≠ some '\r')

theorem stripEnd_of_last (h : ∀ c, line.getLast? = some c → c ≠ '\r' ∧ c ≠ '\n') : stripEnd line = line := by
  rw [stripEnd, List.rdropWhile_eq_self_iff]
  intro hne hlast
  obtain ⟨hr, hn⟩ := h _ (List.getLast?_eq_getLast_of_ne_nil hne)
  rcases Bool.or_eq_true_iff.mp hlast with heq | heq
  · exact hr (of_decide_eq_true heq)
  · exact hn (of_decide_eq_true heq)

theorem stripEnd_concat {c : Char} (h : c = '\r' ∨ c = '\n') : stripEnd (line ++ [c]) = stripEnd line := by
  rcases h with rfl | rfl
  · exact List.rdropWhile_concat_pos _ _ _ rfl
  · exact List.rdropWhile_concat_pos _ _ _ rfl

theorem stripped_eq_iff (h : Terminated line ∨ Unended line) : stripEnd line ++ endingOf line = line ↔
    (line.getLast? = some '\n' ∧ line.dropLast.getLast? ≠ some '\r') ∨ (line.getLast? ≠ some '\n' ∧ line.getLast? ≠ some '\r') := by
  have hkept : line.getLast? ≠ some '\n' → line.getLast? ≠ some '\r' → stripEnd line ++ endingOf line = line := by
    intro hn hr
    rw [endingOf, if_neg hn, List.append_nil]
    apply stripEnd_of_last
    intro c hc
    exact ⟨fun heq => hr (heq ▸ hc), fun heq => hn (heq ▸ hc)⟩
  have hbody : ∀ body : Chars, (∀ c ∈ body, isLineBreak c = false) → stripEnd body = body := by
    intro body hbody
    apply stripEnd_of_last
    intro c hc
    have hnone := hbody c (List.mem_of_getLast? hc)
    exact ⟨ne_return hnone, fun heq => by rw [heq] at hnone; exact Bool.noConfusion hnone⟩
  rcases h with ⟨body, hnone, rfl | ⟨c, hc, rfl⟩⟩ | hopen
  · -- a return and a feed
    have hpair : body ++ ['\r', '\n'] = (body ++ ['\r']) ++ ['\n'] := by
      rw [List.append_assoc]
      rfl
    have hstrip : stripEnd (body ++ ['\r', '\n']) = body := by
      rw [hpair, stripEnd_concat (Or.inr rfl), stripEnd_concat (Or.inl rfl), hbody body hnone]
    have hlast : (body ++ ['\r', '\n']).getLast? = some '\n' := by
      rw [List.getLast?_append_of_ne_nil _ (List.cons_ne_nil _ _)]
      rfl
    have hbefore : (body ++ ['\r', '\n']).dropLast.getLast? = some '\r' := by
      rw [hpair, List.dropLast_concat, List.getLast?_concat]
    rw [hstrip, endingOf_of_feed hlast]
    constructor
    · intro h
      exact absurd (List.append_cancel_left h) (by decide)
    · rintro (⟨-, hr⟩ | ⟨hn, -⟩)
      · exact absurd hbefore hr
      · exact absurd hlast hn
  · have hlast : (body ++ [c]).getLast? = some c := List.getLast?_concat
    by_cases hfeed : c = '\n'
    · subst hfeed
      have hstrip : stripEnd (body ++ ['\n']) = body := (stripEnd_concat (Or.inr rfl)).trans (hbody body hnone)
      rw [hstrip, endingOf_of_feed hlast, List.dropLast_concat]
      refine ⟨fun _ => Or.inl ⟨hlast, fun hr => ?_⟩, fun _ => rfl⟩
      exact ne_return (hnone '\r' (List.mem_of_getLast? hr)) rfl
    · have hn : (body ++ [c]).getLast? ≠ some '\n' := fun h => hfeed (Option.some.inj (hlast.symm.trans h))
      refine ⟨fun h => Or.inr ⟨hn, fun hr => ?_⟩, fun h => ?_⟩
      · have hreturn : c = '\r' := Option.some.inj (hlast.symm.trans hr)
        subst hreturn
        have hstrip : stripEnd (body ++ ['\r']) = body := (stripEnd_concat (Or.inl rfl)).trans (hbody body hnone)
        rw [hstrip, endingOf, if_neg hn] at h
        exact absurd (List.append_cancel_left h) (by decide)
      · rcases h with ⟨hyes, -⟩ | ⟨-, hr⟩
        · exact absurd hyes hn
        · exact hkept hn hr
  · have hnone : ∀ c, line.getLast? = some c → isLineBreak c = false := fun c hc => hopen.2 c (List.mem_of_getLast? hc)
    have hn : line.getLast? ≠ some '\n' := fun h => Bool.noConfusion (hnone '\n' h)
    have hr : line.getLast? ≠ some '\r' := fun h => Bool.noConfusion (hnone '\r' h)
    exact ⟨fun _ => Or.inr ⟨hn, hr⟩, fun _ => hkept hn hr⟩

theorem closed_iff {entries : List Entry} : Closed entries ↔
    ∀ index e, entries[index]? = some e → e.2.isSome → e.1.getLast? = some '\n' ∨ index + 1 = entries.length := by
  induction entries with
  | nil => exact ⟨fun _ _ _ h => absurd h (Option.some_ne_none _).symm, fun _ => trivial⟩
  | cons e rest ih =>
    rw [Closed, ih]
    constructor
    · rintro ⟨hhead, hrest⟩ index d hd hsome
      cases index with
      | zero =>
        rw [← Option.some.inj hd] at hsome ⊢
        rcases hhead with rfl | hfeed
        · exact Or.inr rfl
        · exact Or.inl (hfeed hsome)
      | succ index =>
        rcases hrest index d hd hsome with hfeed | hlast
        · exact Or.inl hfeed
        · exact Or.inr (congrArg Nat.succ hlast)
    · intro h
      refine ⟨?_, fun index d hd hsome => ?_⟩
      · by_cases hnil : rest = []
        · exact Or.inl hnil
        · right
          intro hsome
          rcases h 0 e rfl hsome with hfeed | hlast
          · exact hfeed
          · exact absurd (List.length_eq_zero_iff.mp (Nat.succ.inj hlast).symm) hnil
      · rcases h (index + 1) d hd hsome with hfeed | hlast
        · exact Or.inl hfeed
        · exact Or.inr (Nat.succ.inj hlast)

theorem eq_of_flatMap_eq {ε : Type} {entries : List ε} {f g : ε → Chars} (hle : ∀ e ∈ entries, (f e).length ≤ (g e).length)
    (h : entries.flatMap f = entries.flatMap g) : ∀ e ∈ entries, f e = g e := by
  have hshort : ∀ l : List ε, (∀ e ∈ l, (f e).length ≤ (g e).length) → (l.flatMap f).length ≤ (l.flatMap g).length := by
    intro l
    induction l with
    | nil => exact fun _ => le_refl 0
    | cons e l ih =>
      intro hle
      rw [List.flatMap_cons, List.flatMap_cons, List.length_append, List.length_append]
      exact Nat.add_le_add (hle e List.mem_cons_self) (ih fun d hd => hle d (List.mem_cons_of_mem _ hd))
  induction entries with
  | nil => exact fun _ he => absurd he List.not_mem_nil
  | cons e rest ih =>
    rw [List.flatMap_cons, List.flatMap_cons] at h
    have htotal := congrArg List.length h
    rw [List.length_append, List.length_append] at htotal
    have hhead := hle e List.mem_cons_self
    have hrest := hshort rest fun d hd => hle d (List.mem_cons_of_mem _ hd)
    obtain ⟨hsame, hlater⟩ := List.append_inj h (by omega)
    intro d hd
    rcases List.mem_cons.mp hd with rfl | hd
    · exact hsame
    · exact ih (fun d hd => hle d (List.mem_cons_of_mem _ hd)) hlater d hd

theorem length_restoredPiece_le (e : Entry) : (restoredPiece e).length ≤ e.1.length := by
  unfold restoredPiece
  cases e.2 with
  | none => exact le_refl _
  | some token =>
    have hstrip : (stripEnd e.1).length ≤ e.1.length := (List.rdropWhile_prefix _ e.1).length_le
    show (stripEnd e.1 ++ endingOf e.1).length ≤ e.1.length
    by_cases hfeed : e.1.getLast? = some '\n'
    · obtain ⟨front, hfront⟩ := List.getLast?_eq_some_iff.mp hfeed
      have hbelow : (stripEnd front).length ≤ front.length := (List.rdropWhile_prefix _ front).length_le
      rw [endingOf_of_feed hfeed, hfront, stripEnd_concat (Or.inr rfl), List.length_append, List.length_append]
      omega
    · rw [endingOf, if_neg hfeed, List.append_nil]
      exact hstrip

theorem getElem?_entriesOf (regions : List SignatureRegion) {index : Nat} (hline : lines[index]? = some line) : (entriesOf lines regions)[index]? =
    some (line, (ownerOf regions 0 index).map fun owner => sigToken owner.1 owner.2) := by
  rw [entriesOf, List.getElem?_map, List.getElem?_zipIdx, hline, Nat.zero_add]
  rfl

/-- Of the lines of the regions. -/
def AllPlain (lines : List Chars) (regions : List SignatureRegion) : Prop :=
  ∀ region ∈ regions, ∀ index, region.startLine ≤ index → index < region.endLine →
    ∀ line, lines[index]? = some line → EndsPlainly lines.length index line

theorem masked_survives_iff {text : Chars} (hlines : lines = splitlinesKeep text) (hlaid : RegionsLaid (lines.map stripEnd) 0 regions)
    (hfree : ∀ number region, regions[number]? = some region → ∀ index < region.endLine - region.startLine, ¬ sigToken number index <:+: text) :
    (restoreSignatureRegions ((entriesOf lines regions).flatMap maskedPiece) regions = text ∧
      (splitlinesKeep ((entriesOf lines regions).flatMap maskedPiece)).length = lines.length) ↔ AllPlain lines regions := by
  have hlined : Lined lines := hlines ▸ lined_splitlinesKeep text
  have hlength : (entriesOf lines regions).length = lines.length := by
    rw [← List.length_map (f := Prod.fst), map_fst_entriesOf]
  have hcount := (length_splitlinesKeep_masked ((map_fst_entriesOf lines regions).symm ▸ hlined) (hasTokens_entriesOf lines regions)).2
  have htext : text = (entriesOf lines regions).flatMap Prod.fst := by
    rw [List.flatMap_def, map_fst_entriesOf, hlines, splitlinesKeep_flatten]
  rw [hlength] at hcount
  constructor
  · rintro ⟨hrestored, hmasked⟩ region hregion index hstart hstop line hline
    have hclosed := Iff.mp hcount hmasked
    rw [restore_masked hlines hlaid hfree hclosed, htext] at hrestored
    obtain ⟨owner, howner⟩ := Option.isSome_iff_exists.mp (Iff.mpr ownerOf_isSome ⟨region, hregion, hstart, hstop⟩ : (ownerOf regions 0 index).isSome)
    have hentry := getElem?_entriesOf regions hline
    rw [howner] at hentry
    have hput := eq_of_flatMap_eq (fun e _ => length_restoredPiece_le e) hrestored _ (List.mem_of_getElem? hentry)
    rcases Iff.mp (stripped_eq_iff (hlined.shape (List.mem_of_getElem? hline))) hput with hfeed | hnone
    · exact Or.inl hfeed
    · rcases Iff.mp closed_iff hclosed index _ hentry rfl with hfeed | hlast
      · exact absurd hfeed hnone.1
      · exact Or.inr ⟨hlength ▸ hlast, hnone⟩
  · intro h
    have hplain : ∀ index e, (entriesOf lines regions)[index]? = some e → e.2.isSome → EndsPlainly lines.length index e.1 := by
      intro index e he hsome
      have hline : lines[index]? = some e.1 := by
        have hfst := congrArg (Option.map Prod.fst) he
        rwa [← List.getElem?_map, map_fst_entriesOf] at hfst
      rw [getElem?_entriesOf regions hline] at he
      rw [← Option.some.inj he, Option.isSome_map] at hsome
      obtain ⟨region, hregion, hstart, hstop⟩ := Iff.mp ownerOf_isSome hsome
      exact h region hregion index hstart hstop e.1 hline
    have hclosed : Closed (entriesOf lines regions) := by
      apply Iff.mpr closed_iff
      intro index e he hsome
      rcases hplain index e he hsome with hfeed | hlast
      · exact Or.inl hfeed.1
      · exact Or.inr (hlength.symm ▸ hlast.1)
    refine ⟨?_, Iff.mpr hcount hclosed⟩
    rw [restore_masked hlines hlaid hfree hclosed, htext, List.flatMap_def, List.flatMap_def]
    congr 1
    apply List.map_congr_left
    intro e he
    cases hsome : e.2 with
    | none => rw [restoredPiece, hsome]
    | some token =>
      obtain ⟨index, hindex⟩ := List.mem_iff_getElem?.mp he
      have hline : e.1 ∈ lines := by
        rw [← map_fst_entriesOf lines regions]
        exact List.mem_map_of_mem he
      rw [restoredPiece, hsome]
      apply Iff.mpr (stripped_eq_iff (hlined.shape hline))
      rcases hplain index e hindex (by rw [hsome]; rfl) with hfeed | hlast
      · exact Or.inl hfeed
      · exact Or.inr hlast.2

end Text

section Claim
variable (u : Unicode) (rules : SignatureRules) (text : Chars)

/-- The text comes back, and its masked form has as many lines. -/
def Survives : Prop :=
  restoreSignatureRegions (maskSignatureRegions u rules text).1 (maskSignatureRegions u rules text).2 = text ∧
    (splitlines (maskSignatureRegions u rules text).1).length = (splitlines text).length

/-- No token of the regions is in the text already. -/
def TokenFree : Prop :=
  ∀ number region, (maskSignatureRegions u rules text).2[number]? = some region →
    ∀ index < region.endLine - region.startLine, ¬ sigToken number index <:+: text

theorem maskSignatureRegions_cases : maskSignatureRegions u rules text = (text, []) ∨
    ∃ regions, RegionsLaid ((splitlinesKeep text).map stripEnd) 0 regions ∧
      maskSignatureRegions u rules text = (((splitlinesKeep text).mapIdx (maskLine regions)).flatten, regions) := by
  unfold maskSignatureRegions
  simp only
  split_ifs
  · exact Or.inl rfl
  · exact Or.inl rfl
  · exact Or.inr ⟨_, laid_regionsFrom, rfl⟩

end Claim

def markedLines : SignatureRules where
  signatureRow line _ := decide ("/s/".toList <+: line)
  signatureHeader _ := false
  conformedLine line := decide ("/s/".toList <+: line)
  layoutGap _ := false

def twoSigners : Chars := "/s/ Jane Roe\n/s/ John Roe\n".toList

end EdgarSec.Document
