import EdgarSec.Tables.Protection

/-! What the rewriting of one span does to a text with several tables. -/

namespace EdgarSec.Tables
open Foundation Lib Substitution

/-! ## Where spans lie -/

section Finding
variable {test : Chars → Bool} {text lead : Chars} {n i : Nat} {span : TableSpan} {spans : List TableSpan}

theorem findAt_some (h : findAt test text n = some i) : n ≤ i ∧ i ≤ text.length ∧ test (text.drop i) = true := by
  have htest := List.find?_some h
  have hmem := List.mem_of_find?_eq_some h
  obtain ⟨hle, hlt⟩ := List.mem_range'_1.mp hmem
  exact ⟨hle, by omega, htest⟩

theorem getElem?_of_startsWithFolded (h : startsWithFolded lead text) (hi : i < lead.length) :
    text[i]?.map Char.toLower = lead[i]? := by
  have heq : (text.take lead.length).map Char.toLower = lead := of_decide_eq_true h
  have hget := congrArg (fun l : List Char => l[i]?) heq
  simp only [List.getElem?_map] at hget
  rwa [List.getElem?_take_of_lt hi] at hget

theorem head_ne_of_startsWithFolded (h : startsWithFolded lead text) (hi : i < lead.length) {c : Char} (hc : lead[i]? ≠ some c.toLower) :
    (text.drop i).head? ≠ some c := by
  intro hhead
  have hget := getElem?_of_startsWithFolded h hi
  rw [List.head?_drop] at hhead
  rw [hhead] at hget
  exact hc hget.symm

def Laid (text : Chars) : Nat → List TableSpan → Prop
  | _, [] => True
  | n, span :: spans => n ≤ span.start ∧ span.start < span.stop ∧ span.stop ≤ text.length ∧
      span.text = slice text span.start span.stop ∧ Laid text span.stop spans

theorem laid_spanBetween {start stop : Nat} (hn : n ≤ start) (hlt : start < stop) (hbound : stop ≤ text.length)
    (hrest : Laid text stop spans) : Laid text n (spanBetween text start stop :: spans) := ⟨hn, hlt, hbound, rfl, hrest⟩

theorem closed_span_wide {index close gt : Nat} (hopen : startsWithFolded tableOpen (text.drop index))
    (hclose : findAt (startsWithFolded tableClose) text index = some close)
    (hgt : findAt (fun rest => rest.head? = some '>') text close = some gt) : index + 14 ≤ gt + 1 := by
  obtain ⟨hle, -, hcloses⟩ := findAt_some hclose
  obtain ⟨hge, -, hbracket⟩ := findAt_some hgt
  have hsix : index + 6 ≤ close := by
    by_contra hnear
    have hj : close - index < tableOpen.length := by
      show close - index < 6
      omega
    have hplace : (text.drop index).drop (close - index) = text.drop close := by
      rw [List.drop_drop, Nat.add_sub_of_le hle]
    -- the closing tag begins with an angle bracket, the opening one has one in front only
    have hangle : (text.drop close)[0]?.map Char.toLower = some '<' := getElem?_of_startsWithFolded hcloses (by decide)
    have hslash : (text.drop close)[1]?.map Char.toLower = some '/' := getElem?_of_startsWithFolded hcloses (by decide)
    have hname : (text.drop close)[0]?.map Char.toLower = tableOpen[close - index]? := by
      rw [← hplace, List.getElem?_drop, Nat.add_zero]
      exact getElem?_of_startsWithFolded hopen hj
    rw [hangle] at hname
    have hzero : close - index = 0 := by
      have hcases : ∀ j < 6, some '<' = tableOpen[j]? → j = 0 := by decide
      exact hcases _ hj hname
    have hfirst : (text.drop close)[1]?.map Char.toLower = tableOpen[1]? := by
      rw [← hplace, hzero, List.drop_zero]
      exact getElem?_of_startsWithFolded hopen (by decide)
    rw [hslash] at hfirst
    exact absurd hfirst (by decide)
  have hseven : close + 7 ≤ gt := by
    by_contra hnear
    have hj : gt - close < tableClose.length := by
      show gt - close < 7
      omega
    have hplace : (text.drop close).drop (gt - close) = text.drop gt := by
      rw [List.drop_drop, Nat.add_sub_of_le hge]
    have hnone : ∀ j < 7, tableClose[j]? ≠ some '>' := by decide
    have hhead := head_ne_of_startsWithFolded (c := '>') hcloses hj (hnone _ hj)
    rw [hplace] at hhead
    exact hhead (of_decide_eq_true hbracket)
  omega

theorem laid_tableSpansFrom {fuel : Nat} (hn : n ≤ text.length) : Laid text n (tableSpansFrom text fuel n) := by
  induction fuel generalizing n with
  | zero => exact trivial
  | succ fuel ih =>
    rw [tableSpansFrom]
    cases hopen : findAt (startsWithFolded tableOpen) text n with
    | none => exact trivial
    | some index =>
      obtain ⟨hle, hbound, hopens⟩ := findAt_some hopen
      have hroom : index + 6 ≤ text.length := by
        by_contra hshort
        have hlast := getElem?_of_startsWithFolded (i := 5) hopens (by decide)
        rw [List.getElem?_drop, List.getElem?_eq_none (by omega)] at hlast
        exact absurd hlast (by decide)
      cases hclose : findAt (startsWithFolded tableClose) text index with
      | none =>
        simp only [hclose]
        exact laid_spanBetween hle (by omega) (le_refl _) trivial
      | some close =>
        cases hgt : findAt (fun rest => rest.head? = some '>') text close with
        | none =>
          simp only [hclose, hgt]
          exact laid_spanBetween hle (by omega) (le_refl _) (ih (le_refl _))
        | some gt =>
          have hwide := closed_span_wide hopens hclose hgt
          have hgtlt : gt + 1 ≤ text.length := by
            have hbracket := (findAt_some hgt).2.2
            by_contra hout
            rw [List.drop_eq_nil_of_le (by omega)] at hbracket
            exact absurd hbracket (by decide)
          simp only [hclose, hgt]
          exact laid_spanBetween hle (Nat.lt_of_lt_of_le (Nat.lt_add_of_pos_right (by decide)) hwide) hgtlt (ih hgtlt)

theorem laid_findTableSpans : Laid text 0 (findTableSpans text) := by
  unfold findTableSpans
  split_ifs
  · exact trivial
  · exact laid_tableSpansFrom (Nat.zero_le _)

theorem wide_of_two {fuel : Nat} {first second : TableSpan} (h : tableSpansFrom text fuel n = first :: second :: spans) :
    first.start + 14 ≤ first.stop := by
  cases fuel with
  | zero => exact absurd h (List.cons_ne_nil _ _).symm
  | succ fuel =>
    rw [tableSpansFrom] at h
    cases hopen : findAt (startsWithFolded tableOpen) text n with
    | none =>
      rw [hopen] at h
      exact absurd h (List.cons_ne_nil _ _).symm
    | some index =>
      rw [hopen] at h
      have hopens := (findAt_some hopen).2.2
      cases hclose : findAt (startsWithFolded tableClose) text index with
      | none =>
        simp only [hclose] at h
        exact absurd (List.cons.inj h).2 (List.cons_ne_nil _ _).symm
      | some close =>
        simp only [hclose] at h
        obtain ⟨hfirst, hrest⟩ := List.cons.inj h
        cases hgt : findAt (fun rest => rest.head? = some '>') text close with
        | some gt =>
          rw [hgt] at hfirst
          rw [← hfirst]
          exact closed_span_wide hopens hclose hgt
        | none =>
          -- a tag that is never ended leaves no text for another span
          rw [hgt] at hrest
          cases fuel with
          | zero => exact absurd hrest (List.cons_ne_nil _ _).symm
          | succ fuel =>
            rw [tableSpansFrom] at hrest
            cases hagain : findAt (startsWithFolded tableOpen) text text.length with
            | none =>
              simp only [hagain] at hrest
              exact absurd hrest (List.cons_ne_nil _ _).symm
            | some again =>
              obtain ⟨hge, hbound, htag⟩ := findAt_some hagain
              have hfirst := getElem?_of_startsWithFolded (i := 0) htag (by decide)
              rw [List.getElem?_drop, List.getElem?_eq_none (by omega)] at hfirst
              exact absurd hfirst (by decide)

end Finding

/-! ## Sentinels in a text -/

section Sentinels
variable {u : Unicode} {a b text : Chars} {n position : Nat}

theorem decimalOf_digit {c : Char} (h : c.isDigit = true) : u.decimalOf c = some (c.toNat - 48) := by
  have hascii : isAscii c = true := by
    have hle : c.toNat ≤ 57 := by
      have hdigit := h
      simp only [Char.isDigit, Bool.and_eq_true, decide_eq_true_eq] at hdigit
      exact hdigit.2
    exact decide_eq_true (by omega)
  rw [Unicode.decimalOf, if_pos hascii, if_pos h]

theorem isDecimal_digit {c : Char} (h : c.isDigit = true) : u.isDecimal c = true := by
  rw [Unicode.isDecimal, decimalOf_digit h]
  rfl

theorem digitsValue_toDigits : digitsValue u (Nat.toDigits 10 position) = position := by
  have hvalue : ∀ (digits : Chars) (n : Nat), (∀ c ∈ digits, c.isDigit = true) →
      digits.foldl (fun n c => 10 * n + (u.decimalOf c).getD 0) n = Nat.ofDigitChars 10 digits n := by
    intro digits
    induction digits with
    | nil => exact fun n _ => rfl
    | cons c digits ih =>
      intro n hdigits
      have hc := hdigits c List.mem_cons_self
      rw [List.foldl_cons, decimalOf_digit hc, ih _ fun d hd => hdigits d (List.mem_cons_of_mem _ hd)]
      rfl
  rw [digitsValue, hvalue _ 0 fun c hc => Nat.isDigit_of_mem_toDigits (by decide) (by decide) hc]
  exact Nat.ofDigitChars_ten_toDigits

theorem readSentinel_token : readSentinel u (sentinelToken position ++ b) = some ((position, sentinelToken position), (sentinelToken position).length) := by
  have hshape : sentinelToken position ++ b = sentinelLead ++ (Nat.toDigits 10 position ++ (sentinelTail ++ b)) := by
    rw [sentinelToken, List.append_assoc, List.append_assoc]
  have hdigits : ((sentinelToken position ++ b).drop sentinelLead.length).takeWhile u.isDecimal = Nat.toDigits 10 position := by
    rw [hshape, List.drop_left, List.takeWhile_append_of_pos]
    · have hstop : (sentinelTail ++ b).takeWhile u.isDecimal = [] := rfl
      rw [hstop, List.append_nil]
    · intro c hc
      exact isDecimal_digit (Nat.isDigit_of_mem_toDigits (by decide) (by decide) hc)
  have htail : (sentinelToken position ++ b).drop (sentinelLead.length + (Nat.toDigits 10 position).length) = sentinelTail ++ b := by
    rw [hshape, ← List.append_assoc, ← List.length_append, List.drop_left]
  have hlength : sentinelLead.length + (Nat.toDigits 10 position).length + sentinelTail.length = (sentinelToken position).length := by
    rw [sentinelToken, List.length_append, List.length_append]
  have hlead : sentinelLead <+: sentinelToken position ++ b := by
    rw [hshape]
    exact List.prefix_append _ _
  unfold readSentinel
  simp only [if_pos hlead, hdigits, htail, hlength]
  rw [if_pos ⟨Nat.toDigits_ne_nil, List.prefix_append _ _⟩, digitsValue_toDigits, List.take_left]

theorem lead_of_readSentinel {found : Nat × Chars} (h : readSentinel u text = some (found, n)) :
    sentinelLead <+: text ∧ ∃ c, text[sentinelLead.length]? = some c ∧ u.isDecimal c = true := by
  unfold readSentinel at h
  split_ifs at h with hlead
  simp only at h
  split_ifs at h with hdigits
  refine ⟨hlead, ?_⟩
  cases hrest : text.drop sentinelLead.length with
  | nil =>
    rw [hrest] at hdigits
    exact absurd rfl hdigits.1
  | cons c rest =>
    have hget : text[sentinelLead.length]? = some c := by
      rw [← List.head?_drop, hrest]
      rfl
    refine ⟨c, hget, ?_⟩
    by_contra hnot
    rw [hrest, List.takeWhile_cons_of_neg hnot] at hdigits
    exact absurd rfl hdigits.1

def Bounds (b : Chars) : Prop :=
  (∀ c, b[0]? = some c → c ∉ sentinelLead) ∨ (b[0]? = some '_' ∧ ∀ c, b[1]? = some c → c = '_')

theorem readSentinel_none (ha : ¬ sentinelLead <:+: a) (hb : Bounds b) {tail : Chars} (hne : tail ≠ []) (htail : tail <:+ a) :
    readSentinel u (tail ++ b) = none := by
  by_contra hsome
  obtain ⟨⟨found, n⟩, hfound⟩ := Option.ne_none_iff_exists'.mp hsome
  obtain ⟨hlead, c, hc, hdecimal⟩ := lead_of_readSentinel hfound
  by_cases hlong : sentinelLead.length ≤ tail.length
  · have hinside : sentinelLead <+: tail := List.prefix_of_prefix_length_le hlead (List.prefix_append _ _) hlong
    exact ha (hinside.isInfix.trans htail.isInfix)
  · -- the lead goes on behind the text
    have hlong : tail.length ≤ 9 := by
      have hten : sentinelLead.length = 10 := rfl
      omega
    have hpos : 0 < tail.length := List.length_pos_iff.mpr hne
    obtain ⟨others, hothers⟩ := hlead
    have hbehind : ∀ j, tail.length + j < 10 → sentinelLead[tail.length + j]? = b[j]? := by
      intro j hj
      have hleft : (sentinelLead ++ others)[tail.length + j]? = sentinelLead[tail.length + j]? := List.getElem?_append_left hj
      have hright : (tail ++ b)[tail.length + j]? = b[tail.length + j - tail.length]? :=
        List.getElem?_append_right (Nat.le_add_right _ _)
      rw [← hleft, hothers, hright, Nat.add_sub_cancel_left]
    have hdigit : b[10 - tail.length]? = some c := by
      have hright : (tail ++ b)[10]? = b[10 - tail.length]? := List.getElem?_append_right (by omega)
      rw [← hright]
      exact hc
    have hinside : ∀ k < 10, ∃ x, sentinelLead[k]? = some x := fun k hk =>
      ⟨_, List.getElem?_eq_getElem (show k < sentinelLead.length from hk)⟩
    rcases hb with hother | ⟨hunderscore, hsecond⟩
    · obtain ⟨x, hx⟩ := hinside tail.length (by omega)
      have hhead : b[0]? = some x := by rw [← hbehind 0 (by omega)]; exact hx
      exact hother x hhead (List.mem_of_getElem? hx)
    · by_cases hnine : tail.length = 9
      · -- only the last character of the lead fits, and no digit is behind it
        rw [hnine] at hdigit
        rw [hsecond c hdigit] at hdecimal
        exact absurd hdecimal Bool.false_ne_true
      · obtain ⟨x, hx⟩ := hinside (tail.length + 1) (by omega)
        have hx' : b[1]? = some x := by rw [← hbehind 1 (by omega)]; exact hx
        have hnever : ∀ k < 9, 0 < k → ¬ (sentinelLead[k]? = some '_' ∧ sentinelLead[k + 1]? = some '_') := by decide
        apply hnever tail.length (by omega) hpos
        refine ⟨(hbehind 0 (by omega)).trans hunderscore, ?_⟩
        rw [hx, hsecond x hx']

theorem bounds_token : Bounds (sentinelToken position ++ b) := Or.inr ⟨rfl, fun _ hc => (Option.some.inj hc).symm⟩

theorem bounds_nil : Bounds [] := Or.inl fun _ hc => absurd hc (Option.some_ne_none _).symm

theorem scan_text (ha : ¬ sentinelLead <:+: a) (hb : Bounds b) :
    scan (readSentinel u) (a ++ b) = a.map Sum.inl ++ scan (readSentinel u) b :=
  scan_append fun _ hne htail => readSentinel_none ha hb hne htail

theorem scan_sentinelToken : scan (readSentinel u) (sentinelToken position ++ b) =
    .inr (position, sentinelToken position) :: scan (readSentinel u) b :=
  scan_token (List.cons_ne_nil _ _) readSentinel_token

theorem prefix_append_foreign {lead tail rest : Chars} {c : Char} (hc : c ∉ lead) : lead <+: tail ++ c :: rest ↔ lead <+: tail := by
  constructor
  · intro h
    by_cases hlong : lead.length ≤ tail.length
    · exact List.prefix_of_prefix_length_le h (List.prefix_append _ _) hlong
    · obtain ⟨others, hothers⟩ := h
      have hget : lead[tail.length]? = some c := by
        have hleft : (lead ++ others)[tail.length]? = lead[tail.length]? := List.getElem?_append_left (not_le.mp hlong)
        have hright : (tail ++ c :: rest)[tail.length]? = (c :: rest)[tail.length - tail.length]? := List.getElem?_append_right (le_refl _)
        rw [← hleft, hothers, hright, Nat.sub_self]
        rfl
      exact absurd (List.mem_of_getElem? hget) hc
  · exact fun h => h.trans (List.prefix_append _ _)

theorem readSentinel_foreign {tail rest : Chars} {c : Char} (hc : c ∉ sentinelLead) (hdecimal : u.isDecimal c = false) :
    readSentinel u (tail ++ c :: rest) = readSentinel u tail ∧
      ∀ found n, readSentinel u tail = some (found, n) → n ≤ tail.length := by
  by_cases hlead : sentinelLead <+: tail
  · obtain ⟨body, rfl⟩ := hlead
    have hdigits : ((sentinelLead ++ body ++ c :: rest).drop sentinelLead.length).takeWhile u.isDecimal = body.takeWhile u.isDecimal := by
      rw [List.append_assoc, List.drop_left, List.takeWhile_append]
      split_ifs with hall
      · rw [List.takeWhile_cons_of_neg (by rw [hdecimal]; exact Bool.false_ne_true), List.append_nil]
        exact (List.takeWhile_prefix u.isDecimal).eq_of_length hall |>.symm
      · rfl
    have hbelow : (body.takeWhile u.isDecimal).length ≤ body.length := (List.takeWhile_prefix u.isDecimal).length_le
    have hdrop : (sentinelLead ++ body ++ c :: rest).drop (sentinelLead.length + (body.takeWhile u.isDecimal).length) =
        body.drop (body.takeWhile u.isDecimal).length ++ c :: rest := by
      rw [List.append_assoc, ← List.drop_drop, List.drop_left, List.drop_append_of_le_length hbelow]
    have hdrop' : (sentinelLead ++ body).drop (sentinelLead.length + (body.takeWhile u.isDecimal).length) =
        body.drop (body.takeWhile u.isDecimal).length := by
      rw [← List.drop_drop, List.drop_left]
    have htail : sentinelTail <+: body.drop (body.takeWhile u.isDecimal).length ++ c :: rest ↔
        sentinelTail <+: body.drop (body.takeWhile u.isDecimal).length := by
      apply prefix_append_foreign
      intro hmem
      have hunderscore : c = '_' := by simpa [sentinelTail] using hmem
      rw [hunderscore] at hc
      exact hc (by decide)
    have hfits : sentinelTail <+: body.drop (body.takeWhile u.isDecimal).length →
        sentinelLead.length + (body.takeWhile u.isDecimal).length + sentinelTail.length ≤ (sentinelLead ++ body).length := by
      intro h
      have hle := h.length_le
      rw [List.length_drop] at hle
      rw [List.length_append]
      have htwo : 0 < sentinelTail.length := by decide
      omega
    constructor
    · unfold readSentinel
      simp only [if_pos (show sentinelLead <+: sentinelLead ++ body ++ c :: rest by rw [List.append_assoc]; exact List.prefix_append _ _),
        if_pos (List.prefix_append sentinelLead body), hdigits, hdrop, hdrop', htail, List.drop_left]
      by_cases hread : body.takeWhile u.isDecimal ≠ [] ∧ sentinelTail <+: body.drop (body.takeWhile u.isDecimal).length
      · rw [if_pos hread, if_pos hread, List.take_append_of_le_length (hfits hread.2)]
      · rw [if_neg hread, if_neg hread]
    · intro found n h
      unfold readSentinel at h
      simp only [if_pos (List.prefix_append sentinelLead body), hdrop', List.drop_left] at h
      split_ifs at h with hread
      have hn := (Prod.mk.inj (Option.some.inj h)).2
      rw [← hn]
      exact hfits hread.2
  · have hlead' : ¬ sentinelLead <+: tail ++ c :: rest := fun h => hlead (Iff.mp (prefix_append_foreign hc) h)
    unfold readSentinel
    rw [if_neg hlead', if_neg hlead]
    exact ⟨rfl, fun _ _ h => absurd h (Option.some_ne_none _).symm⟩

theorem scan_foreign {c : Char} {rest : Chars} (hc : c ∉ sentinelLead) (hdecimal : u.isDecimal c = false) :
    scan (readSentinel u) (a ++ c :: rest) = scan (readSentinel u) a ++ .inl c :: scan (readSentinel u) rest := by
  have hhead : readSentinel u (c :: rest) = none := by
    have hnone := (@readSentinel_foreign u [] rest c hc hdecimal).1
    exact hnone
  rw [← scan_cons_none hhead]
  apply scan_split
  · exact fun _ _ _ => (readSentinel_foreign hc hdecimal).1
  · exact fun tail token n _ _ h => (@readSentinel_foreign u tail rest c hc hdecimal).2 token n h

end Sentinels

/-! ## The masked text -/

section Masked
variable {u : Unicode} {text : Chars} {n position : Nat} {spans : List TableSpan} {span : TableSpan}

theorem Laid.text_ne_nil (h : Laid text n spans) (hspan : span ∈ spans) : span.text ≠ [] := by
  induction spans generalizing n with
  | nil => exact absurd hspan List.not_mem_nil
  | cons first rest ih =>
    obtain ⟨-, hlt, hbound, htext, hrest⟩ := h
    rcases List.mem_cons.mp hspan with rfl | hspan
    · rw [htext]
      intro hnil
      have hlength := congrArg List.length hnil
      rw [slice, List.length_drop, List.length_take, List.length_nil] at hlength
      omega
    · exact ih hrest hspan

theorem slice_clean (h : ¬ sentinelLead <:+: text) {i j : Nat} : ¬ sentinelLead <:+: slice text i j := fun hinside =>
  h (hinside.trans ((List.drop_suffix _ _).isInfix.trans (List.take_prefix _ _).isInfix))

theorem filled_weave {fill : Nat × Chars → Chars} (hclean : ¬ sentinelLead <:+: text) (hlaid : Laid text n spans)
    (hfill : ∀ i span, spans[i]? = some span → fill (position + i, sentinelToken (position + i)) = span.text) :
    filled fill (scan (readSentinel u) (weave text position n spans)) = text.drop n := by
  induction spans generalizing position n with
  | nil =>
    have htext := scan_text (u := u) (a := text.drop n) (fun h => hclean (h.trans (List.drop_suffix _ _).isInfix)) bounds_nil
    rw [List.append_nil] at htext
    rw [weave, htext, scan_nil, List.append_nil, filled_inl]
  | cons first rest ih =>
    obtain ⟨hn, hlt, -, htext, hrest⟩ := hlaid
    have hfirst : fill (position, sentinelToken position) = first.text := hfill 0 first rfl
    have hlater : filled fill (scan (readSentinel u) (weave text (position + 1) first.stop rest)) = text.drop first.stop := by
      apply ih hrest
      intro i span hspan
      have hshift := hfill (i + 1) span hspan
      rwa [← Nat.add_assoc, Nat.add_right_comm] at hshift
    rw [weave, List.append_assoc, scan_text (slice_clean hclean) bounds_token, scan_sentinelToken, filled_append, filled_inl,
      filled_cons_inr, hfirst, hlater, htext, slice_append_drop hlt.le, slice_append_drop hn]

theorem tokens_weave (hclean : ¬ sentinelLead <:+: text) :
    (tokens (scan (readSentinel u) (weave text position n spans))).map Prod.fst = List.range' position spans.length := by
  induction spans generalizing position n with
  | nil =>
    have htext := scan_text (u := u) (a := text.drop n) (fun h => hclean (h.trans (List.drop_suffix _ _).isInfix)) bounds_nil
    rw [List.append_nil] at htext
    rw [weave, htext, scan_nil, List.append_nil, tokens_inl]
    rfl
  | cons first rest ih =>
    rw [weave, List.append_assoc, scan_text (slice_clean hclean) bounds_token, scan_sentinelToken, tokens_append, tokens_inl,
      List.nil_append, tokens_cons_inr, List.map_cons, ih]
    rfl

theorem restore_mask : restoreTaggedTables u (maskTaggedTables text).1 (maskTaggedTables text).2 = .ok text := by
  unfold maskTaggedTables restoreTaggedTables
  by_cases hnil : findTableSpans text = []
  · simp only [hnil, if_true]
  · have hclean : ¬ sentinelLead <:+: text := by
      intro hinside
      apply hnil
      rw [findTableSpans, if_pos hinside]
    have hseen : ((tokens (scan (readSentinel u) (weave text 0 0 (findTableSpans text)))).map Prod.fst).dedup.length =
        (findTableSpans text).length := by
      rw [tokens_weave hclean, List.dedup_eq_self.mpr List.nodup_range', List.length_range']
    have hnone : (List.range (findTableSpans text).length).find? (fun position =>
        ((tokens (scan (readSentinel u) (weave text 0 0 (findTableSpans text)))).map Prod.fst).dedup.length ≠ (findTableSpans text).length ∧
          position ∉ ((tokens (scan (readSentinel u) (weave text 0 0 (findTableSpans text)))).map Prod.fst).dedup) = none := by
      apply List.find?_eq_none.mpr
      intro position _ hposition
      exact (of_decide_eq_true hposition).1 hseen
    have hfilled : filled (spanTextAt (findTableSpans text)) (scan (readSentinel u) (weave text 0 0 (findTableSpans text))) = text.drop 0 := by
      apply filled_weave hclean laid_findTableSpans
      intro i span hspan
      rw [spanTextAt, Nat.zero_add, hspan]
    simp only [if_neg hnil, hnone, hfilled]
    rfl

theorem filled_of_restore {spans : List TableSpan} {result : Chars} (hne : spans ≠ [])
    (h : restoreTaggedTables u text spans = .ok result) : filled (spanTextAt spans) (scan (readSentinel u) text) = result := by
  unfold restoreTaggedTables at h
  rw [if_neg hne] at h
  simp only at h
  split at h
  · cases h
  · exact Except.ok.inj h

theorem spanTextAt_ne_nil {tail : Chars} {found : Nat × Chars} {n : Nat} (hspans : ∀ span ∈ spans, span.text ≠ [])
    (h : readSentinel u tail = some (found, n)) : spanTextAt spans found ≠ [] := by
  unfold spanTextAt
  cases hspan : spans[found.1]? with
  | some span => exact hspans span (List.mem_of_getElem? hspan)
  | none =>
    have hlead := (lead_of_readSentinel h).1
    unfold readSentinel at h
    rw [if_pos hlead] at h
    simp only at h
    split_ifs at h
    have hfound := (Prod.mk.inj (Option.some.inj h)).1
    rw [← hfound]
    obtain ⟨others, hothers⟩ := hlead
    rw [← hothers]
    exact List.cons_ne_nil _ _

theorem maskedSentinelStarts_eq (position : Nat) (cursor : Int) : maskedSentinelStarts position cursor spans = spans.map TableSpan.start := by
  induction spans generalizing position cursor with
  | nil => rfl
  | cons first rest ih =>
    have hstart : cursor + ((first.start : Int) - cursor) = first.start := by omega
    rw [maskedSentinelStarts, ih, hstart, List.map_cons, Int.toNat_natCast]

end Masked

/-! ## One span among several -/

def NoSentinel (u : Unicode) (text : Chars) : Prop := ∀ tail, tail <:+ text → readSentinel u tail = none

/-- Rewriting a span changes nothing else, and rewriting nothing outside gives back the text. -/
def LeavesOthersAlone (u : Unicode) (text : Chars) : Prop :=
  (∀ (i : Nat) (span : TableSpan), (findTableSpans text)[i]? = some span → ∀ func : Chars → Chars, (∀ t, NoSentinel u (func t)) →
    transformSpan u text i func = .ok (text.take span.start ++ func span.text ++ text.drop span.stop)) ∧
  transformOutside u text id = .ok text

section Several
variable {u : Unicode} {text : Chars} {first second : TableSpan} {rest : List TableSpan}

theorem noSentinel_singleton (c : Char) : NoSentinel u [c] := by
  intro tail htail
  by_contra hsome
  obtain ⟨⟨found, n⟩, hfound⟩ := Option.ne_none_iff_exists'.mp hsome
  have hlength := (lead_of_readSentinel hfound).1.length_le.trans htail.length_le
  exact (show ¬ 10 ≤ 1 by decide) hlength

theorem transformSpan_single {i : Nat} {span : TableSpan} (hspans : findTableSpans text = [first]) (hi : (findTableSpans text)[i]? = some span)
    (func : Chars → Chars) : transformSpan u text i func = .ok (text.take span.start ++ func span.text ++ text.drop span.stop) := by
  have hzero : i = 0 := by
    have hlt := (List.getElem?_eq_some_iff.mp hi).1
    rw [hspans, List.length_singleton] at hlt
    omega
  have hspan : first = span := by
    rw [hspans, hzero] at hi
    exact Option.some.inj hi
  obtain ⟨-, hlt, hbound, -, -⟩ : Laid text 0 [first] := hspans ▸ laid_findTableSpans
  have hlength : (slice text 0 first.start).length = first.start := by
    rw [slice, List.drop_zero, List.length_take]
    omega
  have hbefore : slice (weave text 0 0 [first]) 0 first.start = text.take first.start := by
    rw [weave, List.append_assoc, slice, List.drop_zero, List.take_append_of_le_length (le_of_eq hlength.symm),
      List.take_of_length_le (le_of_eq hlength), slice, List.drop_zero]
  have hbehind : (weave text 0 0 [first]).drop (first.start + (sentinelToken 0).length) = text.drop first.stop := by
    rw [weave, weave, ← hlength, ← List.length_append, hlength, List.drop_left]
  have hin : ¬ ((i : Int) < 0 ∨ (([first] : List TableSpan).length : Int) ≤ i) := by
    rw [hzero]
    show ¬ ((0 : Int) < 0 ∨ (1 : Int) ≤ 0)
    decide
  unfold transformSpan maskTaggedTables
  simp only [hspans, if_neg (List.cons_ne_nil first []), if_neg hin, maskedSentinelStarts_eq]
  rw [hzero, ← hspan]
  show restoreTaggedTables u (slice (weave text 0 0 [first]) 0 first.start ++ func first.text ++
    (weave text 0 0 [first]).drop (first.start + (sentinelToken 0).length)) [] = _
  rw [hbefore, hbehind]
  rfl

def overrun (text : Chars) (first second : TableSpan) (rest : List TableSpan) : Chars :=
  (sentinelToken 1 ++ weave text 2 second.stop rest).take (first.stop - first.start - (sentinelToken 0).length)

theorem rewritePieces_second (hlaid : Laid text 0 (first :: second :: rest)) (hwide : first.start + 14 ≤ first.stop) (func : Chars → Chars) :
    ∃ behind, rewritePieces (weave text 0 0 (first :: second :: rest)) 1 func 0 0
        ((first :: second :: rest).zip ((first :: second :: rest).map TableSpan.start)) =
      slice text 0 first.start ++ (sentinelToken 0 ++ (slice text first.stop second.start ++
        overrun text first second rest) ++ (func second.text ++ behind)) := by
  obtain ⟨-, hlt, hbound, -, hgap, hlt', hbound', -, -⟩ := hlaid
  have hlength : (slice text 0 first.start).length = first.start := by
    rw [slice, List.drop_zero, List.length_take]
    omega
  have hlength' : (slice text first.stop second.start).length = second.start - first.stop := by
    rw [slice, List.length_drop, List.length_take]
    omega
  have hthirteen : (sentinelToken 0).length = 13 := rfl
  have hmasked : weave text 0 0 (first :: second :: rest) = (slice text 0 first.start ++ sentinelToken 0) ++
      (slice text first.stop second.start ++ (sentinelToken 1 ++ weave text 2 second.stop rest)) := by
    rw [weave, weave, List.append_assoc (slice text first.stop second.start)]
  have hbefore : slice (weave text 0 0 (first :: second :: rest)) 0 first.start = slice text 0 first.start := by
    rw [hmasked, List.append_assoc, slice, List.drop_zero, List.take_append_of_le_length (le_of_eq hlength.symm),
      List.take_of_length_le (le_of_eq hlength)]
  have hmiddle : slice (weave text 0 0 (first :: second :: rest)) (first.start + (sentinelToken 0).length) second.start =
      slice text first.stop second.start ++ overrun text first second rest := by
    have hfront : first.start + (sentinelToken 0).length = (slice text 0 first.start ++ sentinelToken 0).length := by
      rw [List.length_append, hlength]
    rw [slice, List.drop_take, hmasked, hfront, List.drop_left, List.take_append, ← hfront, List.take_of_length_le (by omega), overrun]
    congr 2
    omega
  refine ⟨rewritePieces (weave text 0 0 (first :: second :: rest)) 1 func 2 (second.start + (sentinelToken 1).length)
    (rest.zip (rest.map TableSpan.start)), ?_⟩
  rw [List.map_cons, List.map_cons, List.zip_cons_cons, List.zip_cons_cons, rewritePieces, rewritePieces, hbefore, hmiddle,
    if_neg Nat.zero_ne_one, if_pos rfl]
  simp only [List.append_assoc]

theorem not_leavesOthersAlone (hspans : findTableSpans text = first :: second :: rest) : ¬ LeavesOthersAlone u text := by
  intro h
  have hlaid : Laid text 0 (first :: second :: rest) := hspans ▸ laid_findTableSpans
  have hclean : ¬ sentinelLead <:+: text := by
    intro hinside
    rw [findTableSpans, if_pos hinside] at hspans
    exact List.cons_ne_nil _ _ hspans.symm
  have hwide : first.start + 14 ≤ first.stop := by
    rw [findTableSpans, if_neg hclean] at hspans
    exact wide_of_two hspans
  have hfilled : ∀ span ∈ first :: rest, span.text ≠ [] := by
    intro span hspan
    rcases List.mem_cons.mp hspan with rfl | hspan
    · exact hlaid.text_ne_nil List.mem_cons_self
    · exact hlaid.text_ne_nil (List.mem_cons_of_mem _ (List.mem_cons_of_mem _ hspan))
  have hover : overrun text first second rest ≠ [] := by
    have hpos : 0 < first.stop - first.start - (sentinelToken 0).length := by
      show 0 < first.stop - first.start - 13
      omega
    obtain ⟨k, hk⟩ := Nat.exists_eq_succ_of_ne_zero hpos.ne'
    rw [overrun, hk]
    exact List.cons_ne_nil _ _
  have hbounds : Bounds (overrun text first second rest) := by
    right
    constructor
    · obtain ⟨d, others, hd⟩ := List.exists_cons_of_ne_nil hover
      have htoken : overrun text first second rest <+: sentinelToken 1 ++ weave text 2 second.stop rest := List.take_prefix _ _
      rw [hd] at htoken ⊢
      obtain ⟨behind, hbehind⟩ := htoken
      exact congrArg some (List.cons.inj hbehind).1
    · intro c hc
      rw [overrun, List.getElem?_take] at hc
      split_ifs at hc
      exact (Option.some.inj hc).symm
  have hleft : filled (spanTextAt (first :: rest)) (scan (readSentinel u) (overrun text first second rest)) ≠ [] :=
    filled_scan_ne_nil hover fun tail token n _ hread => spanTextAt_ne_nil hfilled hread
  obtain ⟨d, others, hd⟩ := List.exists_cons_of_ne_nil hleft
  -- whatever character the span becomes stands where the overrun begins
  have hevery : ∀ c : Char, c ∉ sentinelLead → u.isDecimal c = false → d = c := by
    intro c hc hdecimal
    have hresult := h.1 1 second (by rw [hspans]; rfl) (fun _ => [c]) fun _ => noSentinel_singleton c
    obtain ⟨behind, hbehind⟩ := rewritePieces_second hlaid hwide fun _ => [c]
    have hin : ¬ (((1 : Nat) : Int) < 0 ∨ ((first :: second :: rest).length : Int) ≤ ((1 : Nat) : Int)) := by
      rw [List.length_cons, List.length_cons]
      omega
    unfold transformSpan maskTaggedTables at hresult
    simp only [hspans, if_neg (List.cons_ne_nil first _), if_neg hin, maskedSentinelStarts_eq] at hresult
    rw [show ((1 : Nat) : Int).toNat = 1 from rfl, hbehind] at hresult
    have hremaining : (first :: second :: rest).eraseIdx 1 = first :: rest := rfl
    rw [hremaining] at hresult
    have hfill := filled_of_restore (List.cons_ne_nil _ _) hresult
    have hscan : scan (readSentinel u) (slice text 0 first.start ++ (sentinelToken 0 ++ (slice text first.stop second.start ++
        overrun text first second rest) ++ ([c] ++ behind))) =
        (slice text 0 first.start).map Sum.inl ++ (.inr (0, sentinelToken 0) :: ((slice text first.stop second.start).map Sum.inl ++
          scan (readSentinel u) (overrun text first second rest))) ++ .inl c :: scan (readSentinel u) behind := by
      have hgroup : slice text 0 first.start ++ (sentinelToken 0 ++ (slice text first.stop second.start ++
          overrun text first second rest) ++ ([c] ++ behind)) = (slice text 0 first.start ++ (sentinelToken 0 ++
            (slice text first.stop second.start ++ overrun text first second rest))) ++ c :: behind := by
        simp only [List.append_assoc, List.singleton_append]
      rw [hgroup, scan_foreign hc hdecimal, scan_text (slice_clean hclean) bounds_token, scan_sentinelToken,
        scan_text (slice_clean hclean) hbounds]
    have htake : text.take second.start = slice text 0 first.start ++ (first.text ++ slice text first.stop second.start) := by
      obtain ⟨-, hlt, -, htext, hgap, -⟩ := hlaid
      refine @List.append_cancel_right _ _ (text.drop second.start) _ ?_
      rw [List.take_append_drop, List.append_assoc, List.append_assoc, slice_append_drop hgap, htext, slice_append_drop hlt.le,
        slice_append_drop (Nat.zero_le _), List.drop_zero]
    rw [hscan, htake, filled_append, filled_append, filled_inl, filled_cons_inr, filled_append, filled_inl, filled_cons_inl, hd] at hfill
    have hfirst : spanTextAt (first :: rest) (0, sentinelToken 0) = first.text := rfl
    rw [hfirst] at hfill
    simp only [List.append_assoc] at hfill
    have hcancel := List.append_cancel_left (List.append_cancel_left (List.append_cancel_left hfill))
    exact (List.cons.inj hcancel).1
  have hspace := hevery ' ' (by decide) rfl
  have hline := hevery '\n' (by decide) rfl
  rw [hspace] at hline
  exact absurd hline (by decide)

/-- Rewriting a span leaves the others alone exactly in texts with at most one table. -/
theorem leavesOthersAlone_iff (u : Unicode) (text : Chars) : LeavesOthersAlone u text ↔ (findTableSpans text).length ≤ 1 := by
  constructor
  · intro h
    match hspans : findTableSpans text with
    | [] => exact Nat.zero_le 1
    | [_] => exact le_refl 1
    | first :: second :: rest => exact absurd h (not_leavesOthersAlone hspans)
  · intro h
    refine ⟨?_, ?_⟩
    · intro i span hi func _
      match hspans : findTableSpans text with
      | [] =>
        rw [hspans] at hi
        exact absurd hi (Option.some_ne_none span).symm
      | [_] => exact transformSpan_single hspans hi func
      | first :: second :: rest =>
        rw [hspans] at h
        exact absurd h (by rw [List.length_cons, List.length_cons]; omega)
    · exact restore_mask

end Several

def twoTables : Chars := "<table>a</table> b <table>c</table> d".toList

/-- The rewriting of the second table leaves the beginning of its sentinel in front of it and takes
a character behind it. -/
theorem second_table_rewritten :
    (transformSpan asciiLetters twoTables 1 fun _ => ['x']).toOption.map String.ofList = some "<table>a</table> b __Sx" ∧
    ¬ LeavesOthersAlone asciiLetters twoTables := by
  have hresult : (transformSpan asciiLetters twoTables 1 fun _ => ['x']).toOption.map String.ofList = some "<table>a</table> b __Sx" := by
    decide +kernel
  refine ⟨hresult, fun h => ?_⟩
  have hspans : (findTableSpans twoTables)[1]?.map (fun span => (span.start, span.stop)) = some (19, 35) := by decide +kernel
  obtain ⟨second, hsecond, hplace⟩ := Option.map_eq_some_iff.mp hspans
  have hexpected := h.1 1 second hsecond (fun _ => ['x']) fun _ => noSentinel_singleton 'x'
  rw [(Prod.mk.inj hplace).1, (Prod.mk.inj hplace).2] at hexpected
  have hresult' := hresult
  rw [show (1 : Int) = ((1 : Nat) : Int) from rfl, hexpected] at hresult'
  exact absurd hresult' (by decide +kernel)

end EdgarSec.Tables
