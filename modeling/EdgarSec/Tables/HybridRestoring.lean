import EdgarSec.Tables.HybridPre

/-! Which texts come back from their tokens: the search for tokens finds those that were placed, unless
the text in front of a block already ends like a token. -/

namespace EdgarSec.Tables
open Foundation Lib Substitution

section Tokens
variable {text rest tail : Chars} {fuel i j : Nat}

theorem freshFrom_shape (token : Chars) : ∃ k, freshFrom text fuel token = token ++ List.replicate k '_' := by
  induction fuel generalizing token with
  | zero => exact ⟨0, (List.append_nil token).symm⟩
  | succ fuel ih =>
    rw [freshFrom]
    split_ifs
    · obtain ⟨k, hk⟩ := ih (token ++ ['_'])
      refine ⟨k + 1, ?_⟩
      rw [hk, List.replicate_succ, List.append_assoc, List.singleton_append]
    · exact ⟨0, (List.append_nil token).symm⟩

theorem freshFrom_fresh {token : Chars} (h : text.length < token.length + fuel) : ¬ freshFrom text fuel token <:+: text := by
  induction fuel generalizing token with
  | zero =>
    intro hinside
    have hle := hinside.length_le
    rw [freshFrom] at hle
    omega
  | succ fuel ih =>
    rw [freshFrom]
    split_ifs with hinside
    · apply ih
      rw [List.length_append, List.length_singleton]
      omega
    · exact hinside

theorem hybridToken_shape (text : Chars) (i : Nat) :
    ∃ k, hybridToken text i = hybridLead ++ (Nat.toDigits 10 i ++ List.replicate (k + 2) '_') := by
  have hshape : ∃ k, hybridToken text i = (hybridLead ++ Nat.toDigits 10 i ++ "__".toList) ++ List.replicate k '_' := by
    unfold hybridToken
    simp only
    split_ifs
    · exact freshFrom_shape _
    · exact ⟨0, (List.append_nil _).symm⟩
  obtain ⟨k, hk⟩ := hshape
  refine ⟨k, ?_⟩
  rw [hk, List.append_assoc, List.append_assoc, Nat.add_comm k 2, List.replicate_add]
  rfl

theorem hybridToken_fresh : ¬ hybridToken text i <:+: text := by
  by_cases hlead : hybridLead <:+: text
  · unfold hybridToken
    simp only [if_pos hlead]
    apply freshFrom_fresh
    omega
  · obtain ⟨k, hk⟩ := hybridToken_shape text i
    intro hinside
    rw [hk] at hinside
    exact hlead ((List.prefix_append hybridLead _).isInfix.trans hinside)

theorem hybridToken_apart (h : hybridToken text j <+: hybridToken text i ++ rest) : j = i := by
  obtain ⟨k, hk⟩ := hybridToken_shape text i
  obtain ⟨l, hl⟩ := hybridToken_shape text j
  obtain ⟨others, hothers⟩ := h
  rw [hk, hl, List.append_assoc hybridLead, List.append_assoc hybridLead] at hothers
  have hbehind := List.append_cancel_left hothers
  have hdigits : ∀ (n m : Nat) (later : Chars),
      (Nat.toDigits 10 n ++ List.replicate (m + 2) '_' ++ later).takeWhile Char.isDigit = Nat.toDigits 10 n := by
    intro n m later
    rw [List.append_assoc, List.takeWhile_append_of_pos fun c hc => Nat.isDigit_of_mem_toDigits (by decide) (by decide) hc]
    have hstop : (List.replicate (m + 2) '_' ++ later).takeWhile Char.isDigit = [] := rfl
    rw [hstop, List.append_nil]
  have hsame := congrArg (List.takeWhile Char.isDigit) hbehind
  rw [hdigits, hdigits] at hsame
  rw [← Nat.ofDigitChars_ten_toDigits (n := j), hsame, Nat.ofDigitChars_ten_toDigits]

theorem hybridToken_letter {n : Nat} (h : (hybridToken text i)[n]? = some 'S') : n = 2 := by
  obtain ⟨k, hk⟩ := hybridToken_shape text i
  rw [hk] at h
  by_cases hn : n < hybridLead.length
  · rw [List.getElem?_append_left hn] at h
    have hplaces : ∀ n < 17, hybridLead[n]? = some 'S' → n = 2 := by decide
    exact hplaces n hn h
  · rw [List.getElem?_append_right (not_lt.mp hn)] at h
    rcases List.mem_append.mp (List.mem_of_getElem? h) with hdigit | hunderscore
    · exact absurd (Nat.isDigit_of_mem_toDigits (by decide) (by decide) hdigit) (by decide)
    · exact absurd (List.eq_of_mem_replicate hunderscore) (by decide)

theorem hybridToken_front (text : Chars) (i : Nat) : ∃ others, hybridToken text i = '_' :: '_' :: 'S' :: others := by
  obtain ⟨k, hk⟩ := hybridToken_shape text i
  exact ⟨_, hk⟩

theorem overlap_of_lead (hne : tail ≠ []) (hfresh : ¬ hybridToken text j <:+: tail) (h : hybridToken text j <+: tail ++ (hybridToken text i ++ rest)) :
    ∃ m, 0 < m ∧ m ≤ 2 ∧ (hybridToken text j).take ((hybridToken text j).length - m) = tail := by
  have hshort : tail.length < (hybridToken text j).length := by
    by_contra hlong
    exact hfresh (List.prefix_of_prefix_length_le h (List.prefix_append _ _) (not_lt.mp hlong)).isInfix
  have htake : (hybridToken text j).take tail.length = tail := by
    obtain ⟨others, hothers⟩ := h
    have hcut := congrArg (List.take tail.length) hothers
    rwa [List.take_left, List.take_append_of_le_length hshort.le] at hcut
  refine ⟨(hybridToken text j).length - tail.length, by omega, ?_, ?_⟩
  · by_contra hlong
    -- the third place behind the tail is then the letter of the other token
    obtain ⟨others, hothers⟩ := h
    obtain ⟨later, hlater⟩ := hybridToken_front text i
    have hleft : (hybridToken text j ++ others)[tail.length + 2]? = (hybridToken text j)[tail.length + 2]? :=
      List.getElem?_append_left (by omega)
    have hright : (tail ++ (hybridToken text i ++ rest))[tail.length + 2]? = (hybridToken text i ++ rest)[tail.length + 2 - tail.length]? :=
      List.getElem?_append_right (Nat.le_add_right _ _)
    have hletter : (hybridToken text j)[tail.length + 2]? = some 'S' := by
      rw [← hleft, hothers, hright, Nat.add_sub_cancel_left, hlater]
      rfl
    have hzero := hybridToken_letter hletter
    exact hne (List.length_eq_zero_iff.mp (by omega))
  · rw [Nat.sub_sub_self hshort.le]
    exact htake

end Tokens

section Restoring
variable (isWord : Char → Bool) (convert : Chars → Chars) (text : Chars)

/-- The text in front of a block ends with a token that lacks its last one or two underscores. -/
def EndsLikeToken : Prop :=
  ∃ before gap body after, scan (readPre isWord) text = before ++ gap.map Sum.inl ++ .inr body :: after ∧
    ∃ j < (tokens (scan (readPre isWord) text)).length, ∃ m, 0 < m ∧ m ≤ 2 ∧
      (hybridToken text j).take ((hybridToken text j).length - m) = gap

def withPayloads : Chars := filled (payloadOf isWord convert) (scan (readPre isWord) text)

def entryAt (index : Nat) : Chars × Chars :=
  (hybridToken text index, payloadOf isWord convert ((tokens (scan (readPre isWord) text)).getD index []))

def guardedOf : List (Chars × Chars) := (List.range (tokens (scan (readPre isWord) text)).length).map (entryAt isWord convert text)

/-- The search for the tokens of the masked text finds each of them in its place and no other. -/
def FindsPlaced : Prop :=
  scan (readToken (guardedOf isWord convert text)) (numbered (hybridToken text) 0 (scan (readPre isWord) text)) =
    relabel (entryAt isWord convert text) 0 (scan (readPre isWord) text)

variable {isWord convert text} {rest later : Chars} {i j : Nat}

theorem guarded_eq : ((tokens (scan (readPre isWord) text)).zipIdx.map fun (body, index) => (hybridToken text index, payloadOf isWord convert body)) =
    guardedOf isWord convert text := by
  apply List.ext_getElem
  · rw [guardedOf, List.length_map, List.length_map, List.length_zipIdx, List.length_range]
  · intro n hn _
    have hlt : n < (tokens (scan (readPre isWord) text)).length := by
      rwa [List.length_map, List.length_zipIdx] at hn
    simp only [guardedOf, List.getElem_map, List.getElem_zipIdx, List.getElem_range, entryAt, Nat.zero_add,
      List.getD_eq_getElem _ _ hlt]

theorem mem_guardedOf {entry : Chars × Chars} : entry ∈ guardedOf isWord convert text ↔
    ∃ j < (tokens (scan (readPre isWord) text)).length, entryAt isWord convert text j = entry := by
  simp only [guardedOf, List.mem_map, List.mem_range]

theorem of_readToken {entry : Chars × Chars} {n : Nat} (h : readToken (guardedOf isWord convert text) later = some (entry, n)) :
    ∃ j < (tokens (scan (readPre isWord) text)).length, entry = entryAt isWord convert text j ∧ hybridToken text j <+: later ∧
      n = entry.1.length := by
  obtain ⟨⟨token, payload⟩, hmem, hentry⟩ := List.exists_of_findSome?_eq_some h
  simp only at hentry
  split_ifs at hentry with hlead
  obtain ⟨hsame, hlength⟩ := Prod.mk.inj (Option.some.inj hentry)
  obtain ⟨j, hj, hat⟩ := Iff.mp mem_guardedOf hmem
  refine ⟨j, hj, hsame.symm.trans hat.symm, ?_, ?_⟩
  · rw [← (Prod.mk.inj hat).1] at hlead
    exact hlead
  · rw [← hlength, ← hsame]

theorem readToken_isSome (hj : j < (tokens (scan (readPre isWord) text)).length) (h : hybridToken text j <+: later) :
    readToken (guardedOf isWord convert text) later ≠ none := by
  intro hnone
  have hentry := List.findSome?_eq_none_iff.mp hnone (entryAt isWord convert text j) (Iff.mpr mem_guardedOf ⟨j, hj, rfl⟩)
  have hlead : (entryAt isWord convert text j).1 <+: later := h
  simp only [if_pos hlead] at hentry
  exact Option.some_ne_none _ hentry

theorem readToken_token (hi : i < (tokens (scan (readPre isWord) text)).length) :
    readToken (guardedOf isWord convert text) (hybridToken text i ++ rest) = some (entryAt isWord convert text i, (hybridToken text i).length) := by
  cases hfound : readToken (guardedOf isWord convert text) (hybridToken text i ++ rest) with
  | none => exact absurd hfound (readToken_isSome hi (List.prefix_append _ _))
  | some found =>
    obtain ⟨entry, n⟩ := found
    obtain ⟨j, -, hentry, hlead, hn⟩ := of_readToken hfound
    have hsame : j = i := hybridToken_apart hlead
    rw [hn, hentry, hsame]
    rfl

theorem hybridToken_ne_nil (i : Nat) : hybridToken text i ≠ [] := by
  obtain ⟨others, hothers⟩ := hybridToken_front text i
  rw [hothers]
  exact List.cons_ne_nil _ _

theorem findsPlaced_of_not (h : ¬ EndsLikeToken isWord text) : FindsPlaced isWord convert text := by
  apply scan_numbered hybridToken_ne_nil
  · intro i rest _ hi
    rw [Nat.zero_add] at hi
    exact readToken_token hi
  · intro before c after hparts
    by_contra hsome
    obtain ⟨⟨entry, n⟩, hfound⟩ := Option.ne_none_iff_exists'.mp hsome
    obtain ⟨j, hj, -, hlead, -⟩ := of_readToken hfound
    -- the elements from this place to the next block, or to the end
    obtain ⟨gap, rest, rfl, hrest⟩ := exists_gap after
    have hwhole : scan (readPre isWord) text = before ++ (c :: gap).map Sum.inl ++ rest := by
      rw [hparts, List.map_cons, List.append_assoc, List.cons_append]
    have hinside : (c :: gap) <:+: text := infix_of_scan hwhole
    have hfresh : ¬ hybridToken text j <:+: c :: gap := fun hin => hybridToken_fresh (hin.trans hinside)
    rw [numbered_inl, ← List.cons_append] at hlead
    rcases hrest with rfl | ⟨body, others, rfl⟩
    · rw [numbered, List.append_nil] at hlead
      exact hfresh hlead.isInfix
    · rw [numbered] at hlead
      obtain ⟨m, hpos, hm, hends⟩ := overlap_of_lead (List.cons_ne_nil c gap) hfresh hlead
      exact h ⟨before, c :: gap, body, others, hwhole, j, hj, m, hpos, hm, hends⟩

theorem not_findsPlaced_of (h : EndsLikeToken isWord text) : ¬ FindsPlaced isWord convert text := by
  intro hplaced
  obtain ⟨before, gap, body, after, hparts, j, hj, m, hpos, hm, hends⟩ := h
  obtain ⟨k, hk⟩ := hybridToken_shape text j
  have hlong : 17 ≤ gap.length := by
    rw [← hends, List.length_take, hk, List.length_append, List.length_append, List.length_replicate]
    have hlead : hybridLead.length = 17 := rfl
    omega
  cases hgap : gap with
  | nil =>
    rw [hgap] at hlong
    exact absurd hlong (by decide)
  | cons c gap' =>
    have hwhole : scan (readPre isWord) text = before ++ .inl c :: (gap'.map Sum.inl ++ .inr body :: after) := by
      rw [hparts, hgap, List.map_cons, List.append_assoc, List.cons_append]
    unfold FindsPlaced at hplaced
    rw [hwhole] at hplaced
    have hnone := none_of_scan_numbered hybridToken_ne_nil (fun i later n hfound => (of_readToken hfound).choose_spec.2.2.2) hplaced
    rw [numbered_inl, numbered, ← List.cons_append, ← hgap] at hnone
    apply readToken_isSome hj _ hnone
    -- the missing underscores are those that the token of the block begins with
    have hshape : hybridToken text j = (hybridLead ++ (Nat.toDigits 10 j ++ List.replicate (k + 2 - m) '_')) ++ List.replicate m '_' := by
      rw [hk, List.append_assoc, List.append_assoc, ← List.replicate_add, Nat.sub_add_cancel (by omega)]
    have hcut : (hybridToken text j).length - m = (hybridLead ++ (Nat.toDigits 10 j ++ List.replicate (k + 2 - m) '_')).length := by
      have hlength := congrArg List.length hshape
      simp only [List.length_append, List.length_replicate] at hlength ⊢
      omega
    have htoken : hybridToken text j = gap ++ List.replicate m '_' := by
      rw [← hends, hcut]
      nth_rewrite 2 [hshape]
      rw [List.take_left, ← hshape]
    obtain ⟨others, hothers⟩ := hybridToken_front text (0 + (tokens before).length)
    rw [htoken, hothers]
    apply (List.prefix_append_right_inj gap).mpr
    obtain rfl | rfl : m = 1 ∨ m = 2 := by omega
    · exact ⟨_, rfl⟩
    · exact ⟨_, rfl⟩

/-- Texts come back with their payloads unless the text in front of a block ends like a token; there
the search does not find what was placed. -/
theorem restore_normalize (isWord : Char → Bool) (convert : Chars → Chars) (text : Chars) :
    (¬ EndsLikeToken isWord text → restoreHybridPreText (normalizeHybridPreText isWord convert text).text
      (normalizeHybridPreText isWord convert text).guarded = .ok (withPayloads isWord convert text)) ∧
    (EndsLikeToken isWord text → ¬ FindsPlaced isWord convert text) := by
  refine ⟨fun h => ?_, not_findsPlaced_of⟩
  have hplaced : FindsPlaced isWord convert text := findsPlaced_of_not h
  unfold FindsPlaced at hplaced
  unfold normalizeHybridPreText
  by_cases hnone : tokens (scan (readPre isWord) text) = []
  · simp only [if_pos hnone]
    rw [withPayloads, filled_of_no_tokens hnone]
    rfl
  · simp only [if_neg hnone]
    rw [guarded_eq]
    have hfilled : filled Prod.snd (relabel (entryAt isWord convert text) 0 (scan (readPre isWord) text)) = withPayloads isWord convert text := by
      apply filled_relabel
      intro j body hbody
      rw [Nat.zero_add]
      show payloadOf isWord convert ((tokens (scan (readPre isWord) text)).getD j []) = payloadOf isWord convert body
      rw [List.getD_eq_getElem?_getD, hbody]
      rfl
    have hfound : tokens (relabel (entryAt isWord convert text) 0 (scan (readPre isWord) text)) = guardedOf isWord convert text := by
      rw [tokens_relabel, guardedOf, List.range_eq_range']
    have hall : (guardedOf isWord convert text).find? (fun entry => (guardedOf isWord convert text).all fun found => found.1 ≠ entry.1) = none := by
      apply List.find?_eq_none.mpr
      intro entry hentry hmissing
      exact of_decide_eq_true (List.all_eq_true.mp hmissing entry hentry) rfl
    have hfirst : hybridToken text 0 <:+: numbered (hybridToken text) 0 (scan (readPre isWord) text) := by
      obtain ⟨gap, rest, hparts, hrest⟩ := exists_gap (scan (readPre isWord) text)
      rcases hrest with rfl | ⟨body, others, rfl⟩
      · rw [List.append_nil] at hparts
        exact absurd (hparts ▸ tokens_inl) hnone
      · rw [hparts, numbered_inl, numbered]
        exact ⟨gap, _, List.append_assoc _ _ _⟩
    unfold restoreHybridPreText
    simp only [hplaced, hfilled, hfound]
    split
    · next hempty =>
      have hlength := congrArg List.length hempty
      rw [guardedOf, List.length_map, List.length_range] at hlength
      exact absurd (List.length_eq_zero_iff.mp hlength) hnone
    · next token payload hone =>
      have hhead : entryAt isWord convert text 0 = (token, payload) := by
        have hlength := congrArg List.length hone
        rw [guardedOf, List.length_map, List.length_range, List.length_singleton] at hlength
        rw [guardedOf, hlength] at hone
        exact (List.cons.inj hone).1
      rw [if_pos ((Prod.mk.inj hhead).1 ▸ hfirst)]
    · rw [hall]

end Restoring

def behindToken : Chars := "__SEC_HYBRID_PRE_0<pre>a</pre>".toList

def isAsciiWord (c : Char) : Bool := c.isAlphanum || c = '_'

/-- The token is found two underscores early, and the payload stands in the wrong place. -/
theorem behindToken_not_restored :
    restoreHybridPreText (normalizeHybridPreText isAsciiWord id behindToken).text (normalizeHybridPreText isAsciiWord id behindToken).guarded ≠
      .ok (withPayloads isAsciiWord id behindToken) := by
  decide +kernel

end EdgarSec.Tables
