import EdgarSec.Patterns.Alternations

/-! The text that an alternation matches, and when it is the longest listed word. -/

namespace EdgarSec.Patterns
open Lib Foundation Lexical

/-! ## The property -/

section Property
variable (u : CharTables) (ignoreCase : Bool)

def compactPattern (words : List Chars) : Option Pattern :=
  compile { ignoreCase := ignoreCase } (buildAlternation { autoEscape := true, compact := true } words)

def plainPattern (words : List Chars) : Option Pattern :=
  compile { ignoreCase := ignoreCase } (buildAlternation { autoEscape := true } words)

def matchedText (pattern : Pattern) (p : Spot Char) : Option Chars := (pattern.matchAt u p).map p.upTo

def keys (text : Chars) : Chars := text.map (u.keyOf ignoreCase)

def Here (rest word : Chars) : Prop := keys u ignoreCase word <+: keys u ignoreCase rest

instance (rest word : Chars) : Decidable (Here u ignoreCase rest word) := by
  unfold Here
  infer_instance

def longestHere (words : List Chars) (rest : Chars) : Option Chars :=
  ((words.filter fun word => Here u ignoreCase rest word).map List.length).max?.map rest.take

/-- Both alternations match at the same places, and both match the longest listed word. -/
def SameMatches (words : List Chars) : Prop :=
  ∃ compact plain, compactPattern ignoreCase words = some compact ∧ plainPattern ignoreCase words = some plain ∧
    ∀ p : Spot Char, matchedText u compact p = longestHere u ignoreCase words p.rest ∧
      matchedText u plain p = longestHere u ignoreCase words p.rest

/-- Where one listed word begins another, up to case, some spelling of the longer one that is
listed comes before the shorter one in the tree. -/
def LongerBefore (words : List Chars) : Prop :=
  ∀ longer ∈ words, ∀ shorter ∈ words, Here u ignoreCase longer shorter → shorter.length < longer.length →
    ∃ spelling ∈ words, keys u ignoreCase spelling = keys u ignoreCase longer ∧ TrieBefore spelling shorter

end Property

/-! ## The first word that fits -/

section First
variable {u : CharTables} {ignoreCase : Bool} {words : List Chars} {rest word v w : Chars}

theorem fits_literals {flags : Flags} : Regex.Fits (CharTest.test u flags) (literals word) rest ↔
    Here u flags.ignoreCase rest word := by
  unfold Here keys
  induction word generalizing rest with
  | nil =>
    constructor
    · intro _
      exact List.nil_prefix
    · intro _
      exact Regex.fits_nil
  | cons a word ih =>
    cases rest with
    | nil =>
      constructor
      · intro h
        exact absurd h Regex.not_fits_cons_nil
      · intro h
        exact absurd (List.prefix_nil.mp h) (List.cons_ne_nil _ _)
    | cons c rest =>
      show Regex.Fits _ (CharTest.literal a :: literals word) _ ↔ _
      rw [Regex.fits_cons, ih, List.map_cons, List.map_cons, List.cons_prefix_cons, CharTest.test, decide_eq_true_iff]

theorem findSome?_ite {α β : Type} (l : List α) (P : α → Prop) [DecidablePred P] (f : α → β) :
    (l.findSome? fun x => if P x then some (f x) else none) = (l.find? fun x => P x).map f := by
  induction l with
  | nil => rfl
  | cons x l ih =>
    rw [List.findSome?_cons, List.find?_cons]
    by_cases hx : P x
    · rw [if_pos hx, decide_eq_true hx]
      rfl
    · rw [if_neg hx, decide_eq_false hx]
      exact ih

theorem here_length (h : Here u ignoreCase rest word) : word.length ≤ rest.length := by
  have hlen := h.length_le
  unfold keys at hlen
  rwa [List.length_map, List.length_map] at hlen

theorem matchedText_of_spells {pattern : Chars} {order : List Chars} {flags : Flags}
    (h : Spells u flags pattern (order.map literals)) :
    ∃ compiled, compile flags pattern = some compiled ∧ ∀ p : Spot Char, matchedText u compiled p =
      (order.find? fun word => Here u flags.ignoreCase p.rest word).map fun word => p.rest.take word.length := by
  obtain ⟨items, hreads, hstands⟩ := h
  refine ⟨_, Reader.compile_reads flags hreads, ?_⟩
  intro p
  have hmatch : (⟨flags, sequence items⟩ : Pattern).matchAt u p =
      (order.find? fun word => Here u flags.ignoreCase p.rest word).map fun word => Regex.Spot.drop word.length p := by
    rw [← findSome?_ite]
    show Regex.matchAt (CharTest.test u flags) (Assertion.holds u flags) (sequence items) p = _
    rw [hstands p, List.findSome?_map]
    congr 1
    funext word
    rw [Function.comp_apply, Regex.spell_eq]
    by_cases hfits : Here u flags.ignoreCase p.rest word
    · rw [if_pos hfits, if_pos (fits_literals.mpr hfits), literals, List.length_map]
    · rw [if_neg hfits, if_neg fun hf => hfits (fits_literals.mp hf)]
  unfold matchedText
  rw [hmatch, Option.map_map]
  cases hfind : order.find? fun word => Here u flags.ignoreCase p.rest word with
  | none => rfl
  | some word =>
    have hhere : Here u flags.ignoreCase p.rest word := by
      have hprop := List.find?_some hfind
      exact of_decide_eq_true hprop
    have hlen := here_length hhere
    rw [Option.map_some, Option.map_some, Function.comp_apply, Spot.upTo, Regex.Spot.drop]
    dsimp only
    rw [List.length_drop, Nat.sub_sub_self hlen]

/-! ## The longest word -/

theorem longestHere_eq (hmem : word ∈ words) (hhere : Here u ignoreCase rest word)
    (hlongest : ∀ v ∈ words, Here u ignoreCase rest v → v.length ≤ word.length) :
    longestHere u ignoreCase words rest = some (rest.take word.length) := by
  unfold longestHere
  have hmax : ((words.filter fun word => Here u ignoreCase rest word).map List.length).max? = some word.length := by
    rw [List.max?_eq_some_iff]
    constructor
    · exact List.mem_map.mpr ⟨word, List.mem_filter.mpr ⟨hmem, decide_eq_true hhere⟩, rfl⟩
    · intro n hn
      obtain ⟨v, hv, rfl⟩ := List.mem_map.mp hn
      obtain ⟨hv, hfits⟩ := List.mem_filter.mp hv
      exact hlongest v hv (of_decide_eq_true hfits)
  rw [hmax, Option.map_some]

theorem longestHere_none (h : ∀ v ∈ words, ¬ Here u ignoreCase rest v) : longestHere u ignoreCase words rest = none := by
  unfold longestHere
  have hnil : words.filter (fun word => Here u ignoreCase rest word) = [] := by
    rw [List.filter_eq_nil_iff]
    intro v hv hfits
    exact h v hv (of_decide_eq_true hfits)
  rw [hnil]
  rfl

theorem first_before {R : Chars → Chars → Prop} {order : List Chars} (hpairwise : order.Pairwise R)
    (hfind : order.find? (fun word => Here u ignoreCase rest word) = some w) (hv : v ∈ order)
    (hhere : Here u ignoreCase rest v) : v = w ∨ R w v := by
  obtain ⟨-, before, behind, hsplit, hbefore⟩ := List.find?_eq_some_iff_append.mp hfind
  rw [hsplit] at hv hpairwise
  rcases List.mem_append.mp hv with hearly | hlate
  · have hnot := hbefore v hearly
    rw [decide_eq_true hhere] at hnot
    exact Bool.noConfusion hnot
  · rcases List.mem_cons.mp hlate with heq | hbehind
    · exact Or.inl heq
    · have hrest := (List.pairwise_append.mp hpairwise).2.1
      exact Or.inr ((List.pairwise_cons.mp hrest).1 v hbehind)

theorem find_here (hfind : words.find? (fun word => Here u ignoreCase rest word) = some w) :
    w ∈ words ∧ Here u ignoreCase rest w := by
  have hprop := List.find?_some hfind
  exact ⟨List.mem_of_find?_eq_some hfind, of_decide_eq_true hprop⟩

/-! ## More words first, more characters first -/

theorem isPySpace_toLower {c : Char} (h : isAscii c = true) : isPySpace c.toLower = isPySpace c := by
  have hall : ∀ n : Fin 128, isPySpace (Char.ofNat n).toLower = isPySpace (Char.ofNat n) := by decide +kernel
  have hlt : c.toNat < 128 := by
    unfold isAscii at h
    exact of_decide_eq_true h
  have hchar := hall ⟨c.toNat, hlt⟩
  rwa [Char.ofNat_toNat] at hchar

theorem isPySpace_keyOf (c : Char) : isPySpace (u.keyOf ignoreCase c) = isPySpace c := by
  unfold CharTables.keyOf
  split
  · split
    · rename_i hascii
      exact isPySpace_toLower hascii
    · exact u.caseKey_space c
  · rfl

theorem one_le_runsFrom {p : Char → Bool} {i : Nat} {pending text : Chars} (h : pending ≠ []) :
    1 ≤ (runsFrom p i pending text).length := by
  induction text generalizing i pending with
  | nil =>
    rw [runsFrom_nil, if_neg h]
    exact le_refl 1
  | cons c rest ih =>
    rw [runsFrom_cons]
    split
    · exact ih (List.append_ne_nil_of_right_ne_nil _ (List.cons_ne_nil _ _))
    · exact Nat.le_add_left 1 _

theorem runsFrom_length_le {p : Char → Bool} {i j : Nat} {pending pending' text text' : Chars}
    (h : text.map p <+: text'.map p) (hpending : pending = [] ↔ pending' = []) :
    (runsFrom p i pending text).length ≤ (runsFrom p j pending' text').length := by
  induction text generalizing i j pending pending' text' with
  | nil =>
    rw [runsFrom_nil]
    split
    · exact Nat.zero_le _
    · rename_i hne
      exact one_le_runsFrom fun hnil => hne (hpending.mpr hnil)
  | cons c rest ih =>
    cases text' with
    | nil => exact absurd (List.prefix_nil.mp h) (List.cons_ne_nil _ _)
    | cons d rest' =>
      rw [List.map_cons, List.map_cons, List.cons_prefix_cons] at h
      obtain ⟨hc, hrest⟩ := h
      rw [runsFrom_cons, runsFrom_cons, ← hc]
      have happend : pending ++ [c] = [] ↔ pending' ++ [d] = [] := by simp
      split
      · exact ih hrest happend
      · by_cases hnil : pending = []
        · rw [if_pos hnil, if_pos (hpending.mp hnil)]
          exact ih hrest Iff.rfl
        · rw [if_neg hnil, if_neg fun hnil' => hnil (hpending.mpr hnil'), List.length_cons, List.length_cons]
          exact Nat.succ_le_succ (ih hrest Iff.rfl)

theorem pySplit_length_le (h : keys u ignoreCase v <+: keys u ignoreCase w) :
    (pySplit v).length ≤ (pySplit w).length := by
  have hblanks : ∀ text : Chars, (keys u ignoreCase text).map (fun c => !isPySpace c) = text.map fun c => !isPySpace c := by
    intro text
    unfold keys
    rw [List.map_map]
    apply List.map_congr_left
    intro c _
    rw [Function.comp_apply, isPySpace_keyOf]
  have hfront := h.map fun c => !isPySpace c
  rw [hblanks, hblanks] at hfront
  unfold pySplit runs
  rw [List.length_map, List.length_map]
  exact runsFrom_length_le hfront Iff.rfl

theorem keys_front (hv : Here u ignoreCase rest v) (hw : Here u ignoreCase rest w) (h : v.length ≤ w.length) :
    keys u ignoreCase v <+: keys u ignoreCase w := by
  apply List.prefix_of_prefix_length_le hv hw
  unfold keys
  rwa [List.length_map, List.length_map]

theorem plain_longest {order : List Chars} (hpairwise : order.Pairwise longerFirst)
    (hfind : order.find? (fun word => Here u ignoreCase rest word) = some w) (hv : v ∈ order)
    (hhere : Here u ignoreCase rest v) : v.length ≤ w.length := by
  by_contra hlonger
  have hshorter : w.length ≤ v.length := by omega
  have hsplit := pySplit_length_le (keys_front (find_here hfind).2 hhere hshorter)
  rcases first_before hpairwise hfind hv hhere with rfl | horder
  · exact hlonger (le_refl _)
  · unfold longerFirst at horder
    omega

/-! ## The exact condition -/

theorem first_eq_longest {order : List Chars} (hmem : ∀ x, x ∈ order ↔ x ∈ words)
    (hlongest : ∀ w, order.find? (fun word => Here u ignoreCase rest word) = some w →
      ∀ v ∈ order, Here u ignoreCase rest v → v.length ≤ w.length) :
    (order.find? fun word => Here u ignoreCase rest word).map (fun word => rest.take word.length) =
      longestHere u ignoreCase words rest := by
  cases hfind : order.find? fun word => Here u ignoreCase rest word with
  | none =>
    rw [longestHere_none]
    · rfl
    · intro v hv hhere
      have hnone := List.find?_eq_none.mp hfind v ((hmem v).mpr hv)
      exact hnone (decide_eq_true hhere)
  | some w =>
    obtain ⟨hw, hhere⟩ := find_here hfind
    rw [longestHere_eq ((hmem w).mp hw) hhere fun v hv hv' => hlongest w hfind v ((hmem v).mpr hv) hv']
    rfl

theorem exists_orders (u : CharTables) (ignoreCase : Bool) {words : List Chars} (hne : words ≠ [])
    (hwords : ∀ w ∈ words, w ≠ []) :
    ∃ (order order' : List Chars) (compact plain : Pattern),
      ((∀ x, x ∈ order ↔ x ∈ words) ∧ order.Pairwise TrieBefore ∧
        compactPattern ignoreCase words = some compact ∧ ∀ p : Spot Char, matchedText u compact p =
          (order.find? fun word => Here u ignoreCase p.rest word).map fun word => p.rest.take word.length) ∧
      ((∀ x, x ∈ order' ↔ x ∈ words) ∧ order'.Pairwise longerFirst ∧
        plainPattern ignoreCase words = some plain ∧ ∀ p : Spot Char, matchedText u plain p =
          (order'.find? fun word => Here u ignoreCase p.rest word).map fun word => p.rest.take word.length) := by
  obtain ⟨order, hmem, hpairwise, hcompact⟩ := @spells_compactPattern u { ignoreCase := ignoreCase } words hne hwords
  obtain ⟨order', hmem', hpairwise', hplain⟩ := @spells_plainPattern u { ignoreCase := ignoreCase } words hne
  obtain ⟨compact, hcompactEq, hcompactText⟩ := matchedText_of_spells hcompact
  obtain ⟨plain, hplainEq, hplainText⟩ := matchedText_of_spells hplain
  exact ⟨order, order', compact, plain, ⟨hmem, hpairwise, hcompactEq, hcompactText⟩, hmem', hpairwise', hplainEq,
    hplainText⟩

theorem longerBefore_of_sameMatches (hne : words ≠ []) (hwords : ∀ w ∈ words, w ≠ [])
    (h : SameMatches u ignoreCase words) : LongerBefore u ignoreCase words := by
  obtain ⟨order, -, compact, -, ⟨hmem, hpairwise, hcompactEq, hcompactText⟩, -⟩ := exists_orders u ignoreCase hne hwords
  intro longer hlonger shorter hshorter hhere hlt
  obtain ⟨compact', plain', hcompact', -, hsame⟩ := h
  have hsome : some compact' = some compact := hcompact'.symm.trans hcompactEq
  rw [Option.some.inj hsome] at hsame
  -- the text is the longer word itself
  have htext := (hsame ⟨[], longer, []⟩).1
  have hself : Here u ignoreCase longer longer := List.prefix_rfl
  rw [longestHere_eq hlonger hself fun v _ hv => here_length hv, hcompactText] at htext
  obtain ⟨w, hfind, hw⟩ := Option.map_eq_some_iff.mp htext
  obtain ⟨hwmem, hwhere⟩ := find_here hfind
  have hlength : w.length = longer.length := by
    have hlen := congrArg List.length hw
    dsimp only at hlen
    rw [List.length_take, List.length_take] at hlen
    have hle := here_length hwhere
    dsimp only at hle
    omega
  refine ⟨w, (hmem w).mp hwmem, ?_, ?_⟩
  · apply List.IsPrefix.eq_of_length hwhere
    unfold keys
    rw [List.length_map, List.length_map, hlength]
  · rcases first_before hpairwise hfind ((hmem shorter).mpr hshorter) hhere with heq | hbefore
    · rw [heq] at hlt
      omega
    · exact hbefore

theorem sameMatches_of_longerBefore (hne : words ≠ []) (hwords : ∀ w ∈ words, w ≠ [])
    (h : LongerBefore u ignoreCase words) : SameMatches u ignoreCase words := by
  obtain ⟨order, order', compact, plain, ⟨hmem, hpairwise, hcompactEq, hcompactText⟩, hmem', hpairwise', hplainEq,
    hplainText⟩ := exists_orders u ignoreCase hne hwords
  refine ⟨compact, plain, hcompactEq, hplainEq, ?_⟩
  intro p
  rw [hcompactText, hplainText]
  constructor
  · apply first_eq_longest hmem
    intro w hfind v hv hhere
    obtain ⟨hw, hwhere⟩ := find_here hfind
    by_contra hlonger
    have hlt : w.length < v.length := by omega
    -- a listed spelling of the longer word would have been tried before
    obtain ⟨spelling, hspelling, hkeys, hbefore⟩ := h v ((hmem v).mp hv) w ((hmem w).mp hw)
      (keys_front hwhere hhere hlt.le) hlt
    have hfits : Here u ignoreCase p.rest spelling := by
      unfold Here
      rw [hkeys]
      exact hhere
    rcases first_before hpairwise hfind ((hmem spelling).mpr hspelling) hfits with rfl | hlater
    · have hlen := congrArg List.length hkeys
      unfold keys at hlen
      rw [List.length_map, List.length_map] at hlen
      omega
    · exact trieBefore_asymm hbefore hlater
  · exact first_eq_longest hmem' fun w hfind v hv hhere => plain_longest hpairwise' hfind hv hhere

theorem trieBefore_of_prefix {longer shorter : Chars} (h : shorter <+: longer) (hlt : shorter.length < longer.length) :
    TrieBefore longer shorter := by
  induction longer generalizing shorter with
  | nil => exact absurd hlt (Nat.not_lt_zero _)
  | cons c longer ih =>
    cases shorter with
    | nil => trivial
    | cons d shorter =>
      rw [List.cons_prefix_cons] at h
      exact Or.inr ⟨h.1.symm, ih h.2 (by simpa using hlt)⟩

theorem sameMatches_of_case (u : CharTables) {words : List Chars} (hne : words ≠ []) (hwords : ∀ w ∈ words, w ≠ []) :
    SameMatches u false words := by
  apply sameMatches_of_longerBefore hne hwords
  intro longer hlonger shorter _ hhere hlt
  have hkeys : ∀ text : Chars, keys u false text = text := fun text => List.map_id' text
  unfold Here at hhere
  rw [hkeys, hkeys] at hhere
  exact ⟨longer, hlonger, rfl, trieBefore_of_prefix hhere hlt⟩

theorem sameMatches_of_case_swaps :
    SameMatches asciiTables false ["swap".toList, "swap agreement".toList] :=
  sameMatches_of_case asciiTables (by decide) (by decide)

theorem sameMatches_iff (u : CharTables) (ignoreCase : Bool) {words : List Chars} (hne : words ≠ [])
    (hwords : ∀ w ∈ words, w ≠ []) : SameMatches u ignoreCase words ↔ LongerBefore u ignoreCase words := by
  constructor
  · exact longerBefore_of_sameMatches hne hwords
  · exact sameMatches_of_longerBefore hne hwords

theorem sameMatches_iff_swaps :
    SameMatches asciiTables true ["swap".toList, "swap agreement".toList] ↔
      LongerBefore asciiTables true ["swap".toList, "swap agreement".toList] :=
  sameMatches_iff asciiTables true (by decide) (by decide)

/-- The tree tries the branch of the capital first and stops there. -/
theorem capital_cuts_longer_word : ¬ ∀ (u : CharTables) (ignoreCase : Bool) (words : List Chars), words ≠ [] →
    (∀ w ∈ words, w ≠ []) → SameMatches u ignoreCase words := by
  intro h
  obtain ⟨compact, plain, hcompact, -, hsame⟩ := h asciiTables true ["Ab".toList, "abc".toList] (by decide) (by decide)
  have htext := (hsame ⟨[], "abc".toList, []⟩).1
  have hmatched : (compactPattern true ["Ab".toList, "abc".toList]).bind
      (fun compiled => matchedText asciiTables compiled ⟨[], "abc".toList, []⟩) = some "ab".toList := by decide +kernel
  have hlongest : longestHere asciiTables true ["Ab".toList, "abc".toList] "abc".toList = some "abc".toList := by
    decide +kernel
  rw [hcompact, Option.bind_some, htext, hlongest] at hmatched
  exact absurd (Option.some.inj hmatched) (by decide)

end First
end EdgarSec.Patterns
