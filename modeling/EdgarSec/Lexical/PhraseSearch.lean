import EdgarSec.Lexical.Automaton

/-! What `scan_tokens` finds with a compiled machine, against the phrases the packs configure. -/

namespace EdgarSec.Lexical
open Lib Foundation
variable {u : LetterCase}

/-! ## Entries -/

structure Entry where
  registered : List Chars
  phrase : Phrase

section Entries
variable (u : LetterCase)

def EvidenceTier.entries (family : String) (tier : EvidenceTier) : List Entry :=
  tier.terms.map fun term =>
    ⟨foldedTokens u term, term, tierPayload family tier.toTierPolicy (stripChars term) (tokenize u term).length⟩

def CompiledTier.entries (family : String) (tier : CompiledTier) : List Entry :=
  tier.unigrams.map (fun unigram => ⟨[u.lowered unigram], unigram, tierPayload family tier.toTierPolicy unigram 1⟩) ++
    tier.ngramIndex.items.flatMap fun e => e.2.map fun ngram =>
      ⟨ngram.map u.lowered, joined ngram, tierPayload family tier.toTierPolicy (joined ngram) ngram.length⟩

def Spec.entries (spec : Spec) : List Entry :=
  (match spec.pack with
    | .lexical pack => pack.tiers.flatMap (EvidenceTier.entries u spec.name)
    | .compiled pack => pack.tiers.flatMap (CompiledTier.entries u spec.name)) ++
  spec.pack.exclusions.map fun excl =>
    ⟨exclusionTokens u excl, excl, exclusionPayload spec.name (exclusionTokens u excl)⟩

end Entries

def Entry.chain (e : Entry) : Option (List Chars × MatchPayload) :=
  if e.registered = [] then none else some (e.registered, e.phrase.payload)

theorem chains_evidence (family : String) (tier : EvidenceTier) :
    tierChains family tier.toTierPolicy (tier.phrases u) = (tier.entries u family).filterMap Entry.chain := by
  unfold tierChains EvidenceTier.phrases EvidenceTier.entries
  rw [List.filterMap_filterMap, List.filterMap_map]
  apply List.filterMap_congr
  intro term _
  have hlength : (foldedTokens u term).length = (tokenize u term).length := List.length_map _
  by_cases hnil : foldedTokens u term = []
  · simp [hnil, Entry.chain]
  · simp [hnil, Entry.chain, hlength]

theorem chains_compiled (family : String) (tier : CompiledTier) :
    tierChains family tier.toTierPolicy (tier.phrases u) = (tier.entries u family).filterMap Entry.chain := by
  unfold tierChains CompiledTier.phrases CompiledTier.entries
  rw [List.filterMap_append, List.filterMap_append]
  apply congrArg₂
  · rw [List.filterMap_map, List.filterMap_map]
    apply List.filterMap_congr
    intro unigram _
    simp [Entry.chain]
  · rw [List.filterMap_flatMap, List.filterMap_flatMap]
    apply List.flatMap_congr
    intro e _
    rw [List.filterMap_map, List.filterMap_map]
    apply List.filterMap_congr
    intro ngram _
    simp [Entry.chain]

theorem chains_eq (spec : Spec) : spec.chains u = (spec.entries u).filterMap Entry.chain := by
  unfold Spec.chains Spec.entries
  rw [List.filterMap_append]
  apply congrArg₂
  · cases spec.pack with
    | lexical pack =>
      simp only [List.filterMap_flatMap]
      exact List.flatMap_congr fun tier _ => chains_evidence spec.name tier
    | compiled pack =>
      simp only [List.filterMap_flatMap]
      exact List.flatMap_congr fun tier _ => chains_compiled spec.name tier
  · unfold exclusionChains
    rw [List.filterMap_map]
    rfl

theorem configured_eq (spec : Spec) : spec.configured u = (spec.entries u).map Entry.phrase := by
  unfold Spec.configured Spec.entries
  rw [List.map_append, List.map_map]
  apply congrArg₂
  · cases spec.pack with
    | lexical pack =>
      simp only [List.map_flatMap]
      apply List.flatMap_congr
      intro tier _
      unfold EvidenceTier.configured EvidenceTier.entries
      rw [List.map_map]
      rfl
    | compiled pack =>
      simp only [List.map_flatMap]
      apply List.flatMap_congr
      intro tier _
      unfold CompiledTier.configured CompiledTier.entries
      rw [List.map_append, List.map_map, List.map_flatMap]
      apply congrArg₂
      · rfl
      · apply List.flatMap_congr
        intro e _
        rw [List.map_map]
        rfl
  · rfl

/-! ## Where an entry comes from -/

section Origin
variable (u : LetterCase)

structure Entry.OfTier (e : Entry) : Prop where
  registered_eq : e.registered = foldedTokens u e.phrase.text
  tokenLength_eq : e.phrase.payload.tokenLength = (tokenize u e.phrase.text).length
  not_exclusion : e.phrase.payload.isExclusion = false

def Entry.OfExclusion (e : Entry) : Prop :=
  e.registered = exclusionTokens u e.phrase.text ∧ ∃ family, e.phrase.payload = exclusionPayload family e.registered

structure Entry.Plain (e : Entry) : Prop where
  registered_eq : e.registered = foldedTokens u e.phrase.text
  term_eq : e.phrase.payload.caseMode = .exact → tokenize u e.phrase.text ≠ [] →
    e.phrase.payload.term = joined ((tokenize u e.phrase.text).map Token.surface)

end Origin

theorem map_surface_joined {words : List Chars} (h : ∀ word ∈ words, IsWord word) :
    (tokenize u (joined words)).map Token.surface = words := by
  rw [map_surface_tokenize, runs_translate_joined h]

theorem foldedTokens_joined {words : List Chars} (h : ∀ word ∈ words, IsWord word) :
    foldedTokens u (joined words) = words.map u.lowered := by
  rw [foldedTokens, map_folded_tokenize, runs_translate_joined h]

theorem length_tokenize_joined {words : List Chars} (h : ∀ word ∈ words, IsWord word) :
    (tokenize u (joined words)).length = words.length := by
  rw [length_tokenize, runs_translate_joined h]

theorem compiled_plain {family : String} {tier : CompiledTier} {e : Entry} (he : e ∈ tier.entries u family) :
    e.OfTier u ∧ e.Plain u := by
  have hwords : ∀ words : List Chars, (∀ word ∈ words, IsWord word) →
      (⟨words.map u.lowered, joined words, tierPayload family tier.toTierPolicy (joined words) words.length⟩ : Entry)
        = e → e.OfTier u ∧ e.Plain u := by
    intro words h heq
    rw [← heq]
    have hregistered := (foldedTokens_joined (u := u) h).symm
    exact ⟨⟨hregistered, (length_tokenize_joined h).symm, rfl⟩,
      ⟨hregistered, fun _ _ => congrArg joined (map_surface_joined h).symm⟩⟩
  unfold CompiledTier.entries at he
  rcases List.mem_append.mp he with he | he
  · obtain ⟨unigram, hmem, heq⟩ := List.mem_map.mp he
    apply hwords [unigram]
    · intro word hword
      rw [List.mem_singleton.mp hword]
      exact tier.unigrams_words unigram hmem
    · rw [joined_singleton]
      exact heq
  · obtain ⟨row, hrow, he⟩ := List.mem_flatMap.mp he
    obtain ⟨ngram, hmem, heq⟩ := List.mem_map.mp he
    exact hwords ngram (tier.ngrams_words row hrow ngram hmem).2 heq

theorem evidence_ofTier {family : String} {tier : EvidenceTier} {e : Entry} (he : e ∈ tier.entries u family) :
    e.OfTier u := by
  obtain ⟨term, -, rfl⟩ := List.mem_map.mp he
  exact ⟨rfl, rfl, rfl⟩

theorem origin {spec : Spec} {e : Entry} (he : e ∈ spec.entries u) : e.OfTier u ∨ e.OfExclusion u := by
  rcases List.mem_append.mp he with he | he
  · left
    cases hpack : spec.pack with
    | lexical pack =>
      rw [hpack] at he
      obtain ⟨tier, -, he⟩ := List.mem_flatMap.mp he
      exact evidence_ofTier he
    | compiled pack =>
      rw [hpack] at he
      obtain ⟨tier, -, he⟩ := List.mem_flatMap.mp he
      exact (compiled_plain he).1
  · obtain ⟨excl, -, rfl⟩ := List.mem_map.mp he
    exact Or.inr ⟨rfl, spec.name, rfl⟩

theorem plain_iff (spec : Spec) : spec.Plain u ↔ ∀ e ∈ spec.entries u, e.Plain u := by
  constructor
  · intro h e he
    rcases List.mem_append.mp he with he | he
    · cases hpack : spec.pack with
      | lexical pack =>
        rw [hpack] at he
        obtain ⟨tier, htier, he⟩ := List.mem_flatMap.mp he
        obtain ⟨term, hterm, rfl⟩ := List.mem_map.mp he
        exact ⟨rfl, fun hmode hne => h.exact_terms pack hpack tier htier hmode term hterm hne⟩
      | compiled pack =>
        rw [hpack] at he
        obtain ⟨tier, -, he⟩ := List.mem_flatMap.mp he
        exact (compiled_plain he).2
    · obtain ⟨excl, hexcl, rfl⟩ := List.mem_map.mp he
      exact ⟨h.exclusions excl hexcl, fun hmode => absurd (show CaseMode.fold = CaseMode.exact from hmode) (by decide)⟩
  · intro h
    constructor
    · intro excl hexcl
      exact (h _ (List.mem_append_right _ (List.mem_map_of_mem hexcl))).registered_eq
    · intro pack hpack tier htier hmode term hterm hne
      have hmem : (⟨foldedTokens u term, term, tierPayload spec.name tier.toTierPolicy (stripChars term)
          (tokenize u term).length⟩ : Entry) ∈ spec.entries u := by
        apply List.mem_append_left
        rw [hpack]
        exact List.mem_flatMap.mpr ⟨tier, htier, List.mem_map.mpr ⟨term, hterm, rfl⟩⟩
      exact (h _ hmem).term_eq hmode hne

/-! ## The scan, position by position -/

section Positions
variable (u : LetterCase)

def Entry.Found (tokens : List Token) (pos : Nat) (e : Entry) : Prop :=
  e.registered ≠ [] ∧ e.registered <:+ (tokens.take (pos + 1)).map Token.folded ∧
    accepts u tokens pos e.phrase.payload = true

instance (tokens : List Token) (pos : Nat) (e : Entry) : Decidable (e.Found u tokens pos) := by
  unfold Entry.Found
  infer_instance

def foundAt (entries : List Entry) (tokens : List Token) (pos : Nat) : List MatchPayload :=
  (entries.filter fun e => e.Found u tokens pos).map fun e => e.phrase.payload

def endingAt (entries : List Entry) (tokens : List Token) (pos : Nat) : List MatchPayload :=
  (entries.filter fun e => e.phrase.EndsAt u tokens pos).map fun e => e.phrase.payload

end Positions

theorem scanFrom_eq (automaton : MultiPatternAutomaton) (before rest : List Token) :
    scanFrom u automaton (before ++ rest) (automaton.run (before.map Token.folded)) before.length rest =
      (List.range' before.length rest.length).flatMap fun pos =>
        ((automaton.outs (automaton.run (((before ++ rest).take (pos + 1)).map Token.folded))).filter
          (accepts u (before ++ rest) pos)).map fun payload => (pos, payload) := by
  induction rest generalizing before with
  | nil => rfl
  | cons tok rest ih =>
    have hassoc : before ++ tok :: rest = (before ++ [tok]) ++ rest := by simp
    have hlength : (before ++ [tok]).length = before.length + 1 := by simp
    have hstep : automaton.advance (automaton.run (before.map Token.folded)) tok.folded =
        automaton.run ((before ++ [tok]).map Token.folded) := by
      unfold Machine.run
      rw [List.map_append, List.foldl_append]
      rfl
    have htake : (before ++ tok :: rest).take (before.length + 1) = before ++ [tok] := by
      rw [hassoc, ← hlength, List.take_left']
      rfl
    have ih' := ih (before ++ [tok])
    rw [← hassoc, hlength] at ih'
    rw [scanFrom, List.length_cons, List.range'_succ, List.flatMap_cons, htake, hstep, ih']

theorem chain_ne_nil {entries : List Entry} {chain : List Chars × MatchPayload}
    (h : chain ∈ entries.filterMap Entry.chain) : chain.1 ≠ [] := by
  obtain ⟨e, -, he⟩ := List.mem_filterMap.mp h
  rw [Entry.chain] at he
  by_cases hnil : e.registered = []
  · rw [if_pos hnil] at he
    exact absurd he.symm (Option.some_ne_none chain)
  · rw [if_neg hnil] at he
    rw [← Option.some.inj he]
    exact hnil

theorem filter_hits (entries : List Entry) (tokens : List Token) (pos : Nat) :
    (Machine.hits (entries.filterMap Entry.chain) ((tokens.take (pos + 1)).map Token.folded)).filter
      (accepts u tokens pos) = foundAt u entries tokens pos := by
  unfold Machine.hits foundAt
  induction entries with
  | nil => rfl
  | cons e entries ih =>
    by_cases hnil : e.registered = []
    · have hchain : Entry.chain e = none := if_pos hnil
      have hnot : ¬ e.Found u tokens pos := fun h => h.1 hnil
      rw [List.filterMap_cons_none hchain, ih, List.filter_cons_of_neg (by simp [hnot])]
    · have hchain : Entry.chain e = some (e.registered, e.phrase.payload) := if_neg hnil
      rw [List.filterMap_cons_some hchain]
      by_cases hsuffix : e.registered <:+ (tokens.take (pos + 1)).map Token.folded
      · rw [List.filter_cons, if_pos (decide_eq_true hsuffix), List.map_cons]
        by_cases haccepts : accepts u tokens pos e.phrase.payload = true
        · have hfound : e.Found u tokens pos := ⟨hnil, hsuffix, haccepts⟩
          rw [List.filter_cons_of_pos haccepts, ih, List.filter_cons_of_pos (by simp [hfound]), List.map_cons]
        · have hnot : ¬ e.Found u tokens pos := fun h => haccepts h.2.2
          rw [List.filter_cons_of_neg haccepts, ih, List.filter_cons_of_neg (by simp [hnot])]
      · have hnot : ¬ e.Found u tokens pos := fun h => hsuffix h.2.1
        rw [List.filter_cons, if_neg (fun h => hsuffix (of_decide_eq_true h)), ih, List.filter_cons_of_neg (by simp [hnot])]

theorem scanTokens_perm (specs : List Spec) (tokens : List Token) :
    (scanTokens u (compileFamilyAutomaton u specs) tokens).Perm
      ((List.range tokens.length).flatMap fun pos =>
        (foundAt u (specs.flatMap (Spec.entries u)) tokens pos).map fun payload => (pos, payload)) := by
  have hchains : specs.flatMap (Spec.chains u) = (specs.flatMap (Spec.entries u)).filterMap Entry.chain := by
    rw [List.filterMap_flatMap]
    exact List.flatMap_congr fun spec _ => chains_eq spec
  have hcompile : compileFamilyAutomaton u specs =
      (Machine.ofPhrases ((specs.flatMap (Spec.entries u)).filterMap Entry.chain)).link := by
    rw [← hchains]
    rfl
  have hscan := scanFrom_eq (u := u) (compileFamilyAutomaton u specs) [] tokens
  rw [List.nil_append] at hscan
  have hrun : (compileFamilyAutomaton u specs).run (([] : List Token).map Token.folded) = 0 := rfl
  rw [hrun, List.length_nil, ← List.range_eq_range'] at hscan
  rw [scanTokens, hscan]
  apply List.Perm.flatMap_left
  intro pos _
  apply List.Perm.map
  rw [← filter_hits, hcompile]
  exact (Machine.outs_run _ (fun chain hchain => chain_ne_nil hchain) _).filter _

theorem phraseMatches_eq (specs : List Spec) (tokens : List Token) :
    phraseMatches u specs tokens = (List.range tokens.length).flatMap fun pos =>
      (endingAt u (specs.flatMap (Spec.entries u)) tokens pos).map fun payload => (pos, payload) := by
  have hconfigured : specs.flatMap (Spec.configured u) = (specs.flatMap (Spec.entries u)).map Entry.phrase := by
    rw [List.map_flatMap]
    exact List.flatMap_congr fun spec _ => configured_eq spec
  unfold phraseMatches
  apply List.flatMap_congr
  intro pos _
  rw [hconfigured, List.filter_map, List.map_map, endingAt, List.map_map]
  rfl

theorem perm_at {n : Nat} {f g : Nat → List MatchPayload}
    (h : ((List.range n).flatMap fun pos => (f pos).map fun payload => (pos, payload)).Perm
      ((List.range n).flatMap fun pos => (g pos).map fun payload => (pos, payload))) {pos : Nat} (hpos : pos < n) :
    (f pos).Perm (g pos) := by
  have hat : ∀ k : Nat → List MatchPayload,
      ((List.range n).flatMap fun i => (k i).map fun payload => (i, payload)).filterMap
        (fun e => if e.1 = pos then some e.2 else none) = k pos := by
    intro k
    rw [List.filterMap_flatMap]
    have hone : ∀ i, ((k i).map fun payload => (i, payload)).filterMap
        (fun e => if e.1 = pos then some e.2 else none) = if i = pos then k i else [] := by
      intro i
      rw [List.filterMap_map]
      by_cases hi : i = pos
      · simp [hi]
      · simp [hi]
    simp only [hone]
    obtain ⟨m, hm⟩ : ∃ m, n = pos + (m + 1) := ⟨n - (pos + 1), by omega⟩
    have hsplit : List.range n = List.range pos ++ pos :: List.range' (pos + 1) m := by
      rw [← List.range'_succ, List.range_eq_range', List.range_eq_range', hm, ← List.range'_append_1, Nat.zero_add]
    have hempty : ∀ l : List Nat, pos ∉ l → (l.flatMap fun i => if i = pos then k i else []) = [] := by
      intro l hl
      rw [List.flatMap_eq_nil_iff]
      intro i hi
      have hne : i ≠ pos := fun heq => hl (heq ▸ hi)
      exact if_neg hne
    rw [hsplit, List.flatMap_append, List.flatMap_cons, if_pos rfl]
    rw [hempty _ (by simp), hempty _ (by simp [List.mem_range'_1]), List.nil_append, List.append_nil]
  have hperm := h.filterMap (fun e => if e.1 = pos then some e.2 else none)
  rwa [hat f, hat g] at hperm

/-! ## Plain entries are found where they end -/

theorem length_window {tokens : List Token} {pos n : Nat} (hpos : pos < tokens.length) (hn : n ≤ pos + 1) :
    (window tokens pos n).length = n := by
  rw [window, List.length_drop, List.length_take]
  omega

theorem found_iff_endsAt {e : Entry} (horigin : e.OfTier u ∨ e.OfExclusion u) (hplain : e.Plain u)
    {tokens : List Token} {pos : Nat} (hpos : pos < tokens.length) :
    e.Found u tokens pos ↔ e.phrase.EndsAt u tokens pos := by
  have hne : e.registered ≠ [] ↔ tokenize u e.phrase.text ≠ [] := by
    rw [hplain.registered_eq, foldedTokens]
    exact not_congr List.map_eq_nil_iff
  unfold Entry.Found Phrase.EndsAt
  rw [hne, ← hplain.registered_eq]
  apply and_congr_right
  intro hsome
  apply and_congr_right
  intro hsuffix
  have hlength : e.registered.length = (tokenize u e.phrase.text).length := by
    rw [hplain.registered_eq]
    exact List.length_map _
  have hle : (tokenize u e.phrase.text).length ≤ pos + 1 := by
    have hle' := hsuffix.length_le
    rw [List.length_map, List.length_take] at hle'
    omega
  rcases horigin with htier | ⟨-, family, hpayload⟩
  · unfold accepts
    rw [htier.tokenLength_eq, if_neg (Nat.not_lt.mpr hle)]
    cases hmode : e.phrase.payload.caseMode with
    | fold => exact ⟨fun _ => trivial, fun _ => rfl⟩
    | lowercase => exact List.all_eq_true
    | exact =>
      show decide _ = true ↔ _ = _
      rw [decide_eq_true_eq, hplain.term_eq hmode hsome]
      constructor
      · intro hjoined
        apply joined_injective _ _ hjoined
        · rw [List.length_map, List.length_map, length_window hpos hle]
        · intro word hword
          rw [map_surface_tokenize] at hword
          exact (isWord_of_mem_runs hword).blank_not_mem
      · intro hsurfaces
        rw [hsurfaces]
  · have haccepts : accepts u tokens pos e.phrase.payload = true := by
      have hone : ¬ pos + 1 < (exclusionPayload family e.registered).tokenLength :=
        Nat.not_lt.mpr (Nat.le_add_left 1 pos)
      rw [hpayload, accepts, if_neg hone]
      rfl
    have hmode : e.phrase.payload.caseMode = .fold := by
      rw [hpayload]
      rfl
    rw [haccepts, hmode]
    exact ⟨fun _ => trivial, fun _ => rfl⟩

/-! ## Entries that are not plain -/

theorem endsAt_registered {e : Entry} (horigin : e.OfTier u ∨ e.OfExclusion u) {tokens : List Token} {pos : Nat}
    (h : e.phrase.EndsAt u tokens pos) : e.registered ≠ [] := by
  intro hnil
  apply h.1
  rcases horigin with htier | hexcl
  · rw [htier.registered_eq, foldedTokens] at hnil
    exact List.map_eq_nil_iff.mp hnil
  · rw [hexcl.1, exclusionTokens] at hnil
    exact tokenize_eq_nil_of_pySplit (List.map_eq_nil_iff.mp hnil)

theorem endsAt_self (phrase : Phrase) (hne : tokenize u phrase.text ≠ [])
    (hmode : phrase.payload.caseMode ≠ .lowercase) :
    phrase.EndsAt u (tokenize u phrase.text) ((tokenize u phrase.text).length - 1) := by
  have hpos := List.length_pos_iff.mpr hne
  have hlast : (tokenize u phrase.text).length - 1 + 1 = (tokenize u phrase.text).length := by omega
  refine ⟨hne, ?_, ?_⟩
  · rw [hlast, List.take_length]
    exact List.suffix_refl _
  · rw [window, hlast, List.take_length, Nat.sub_self, List.drop_zero]
    cases hm : phrase.payload.caseMode with
    | fold => trivial
    | exact => rfl
    | lowercase => exact absurd hm hmode

theorem blank_not_mem_exclusion {excl word : Chars} (h : word ∈ exclusionTokens u excl) : ' ' ∉ word := by
  obtain ⟨piece, hpiece, rfl⟩ := List.mem_map.mp h
  apply blank_not_mem_folded
  intro c hc
  have hnot := ((of_mem_runs hpiece).2 c hc).1
  rwa [Bool.not_eq_true'] at hnot

theorem registered_of_payload {e e' : Entry} (he : e.OfExclusion u) (horigin : e'.OfTier u ∨ e'.OfExclusion u)
    (hpayload : e'.phrase.payload = e.phrase.payload) (hne : e.registered ≠ []) (hne' : e'.registered ≠ []) :
    e'.registered = e.registered := by
  obtain ⟨hreg, family, hp⟩ := he
  rcases horigin with htier | ⟨hreg', family', hp'⟩
  · have hnot := htier.not_exclusion
    rw [hpayload, hp] at hnot
    exact absurd hnot (show ¬ true = false by decide)
  · rw [hp, hp'] at hpayload
    have hterm : joined e'.registered = joined e.registered := congrArg MatchPayload.term hpayload
    have hblank : ∀ word ∈ e.registered, ' ' ∉ word := fun word hw => blank_not_mem_exclusion (hreg ▸ hw)
    have hblank' : ∀ word ∈ e'.registered, ' ' ∉ word := fun word hw => blank_not_mem_exclusion (hreg' ▸ hw)
    rw [← splitOn_joined hne' hblank', hterm, splitOn_joined hne hblank]

section Exact
variable {entries : List Entry} (horigin : ∀ e ∈ entries, e.OfTier u ∨ e.OfExclusion u)
  (hperm : ∀ tokens pos, pos < tokens.length →
    (foundAt u entries tokens pos).Perm (endingAt u entries tokens pos))
include horigin hperm

theorem exclusion_endsAt {e : Entry} (he : e ∈ entries) (hexcl : e.OfExclusion u) (hne : e.registered ≠ []) :
    e.phrase.EndsAt u (e.registered.map fun word => ⟨[], word, 0, 0⟩) (e.registered.length - 1) := by
  have hpos := List.length_pos_iff.mpr hne
  have hlast : e.registered.length - 1 + 1 = e.registered.length := by omega
  let tokens : List Token := e.registered.map fun word => ⟨[], word, 0, 0⟩
  have hfolded : (tokens.take (e.registered.length - 1 + 1)).map Token.folded = e.registered := by
    rw [hlast, ← List.map_take, List.take_length, List.map_map]
    exact List.map_id' _
  let same : Entry → Bool := fun e' => e'.phrase.payload = e.phrase.payload ∧ e'.registered ≠ []
  have hfound : ∀ e' ∈ entries, same e' = true → e'.Found u tokens (e.registered.length - 1) := by
    intro e' he' hsame
    obtain ⟨hpayload, hne'⟩ := of_decide_eq_true hsame
    have hreg := registered_of_payload hexcl (horigin e' he') hpayload hne hne'
    refine ⟨hne', ?_, ?_⟩
    · rw [hfolded, hreg]
    · obtain ⟨-, family, hp⟩ := hexcl
      have hone : ¬ e.registered.length - 1 + 1 < (exclusionPayload family e.registered).tokenLength :=
        Nat.not_lt.mpr (Nat.le_add_left 1 _)
      rw [hpayload, hp, accepts, if_neg hone]
      rfl
  have hperm' := hperm tokens (e.registered.length - 1) (by rw [List.length_map]; omega)
  have hcount := hperm'.count_eq e.phrase.payload
  unfold foundAt endingAt at hcount
  rw [List.count_eq_countP, List.count_eq_countP, List.countP_map, List.countP_map, List.countP_filter, List.countP_filter] at hcount
  have hleft : entries.countP (fun e' => ((· == e.phrase.payload) ∘ fun e' => e'.phrase.payload) e' &&
      decide (e'.Found u tokens (e.registered.length - 1))) = entries.countP same := by
    apply List.countP_congr
    intro e' he'
    simp only [Function.comp_apply, Bool.and_eq_true, beq_iff_eq, decide_eq_true_eq, same]
    constructor
    · intro h
      exact ⟨h.1, h.2.1⟩
    · intro h
      exact ⟨h.1, hfound e' he' (decide_eq_true h)⟩
  have hright : entries.countP (fun e' => ((· == e.phrase.payload) ∘ fun e' => e'.phrase.payload) e' &&
      decide (e'.phrase.EndsAt u tokens (e.registered.length - 1))) =
      entries.countP (fun e' => decide (e'.phrase.EndsAt u tokens (e.registered.length - 1)) && same e') := by
    apply List.countP_congr
    intro e' he'
    simp only [Function.comp_apply, Bool.and_eq_true, beq_iff_eq, decide_eq_true_eq, same]
    constructor
    · intro h
      exact ⟨h.2, h.1, endsAt_registered (horigin e' he') h.2⟩
    · intro h
      exact ⟨h.2.1, h.1⟩
  rw [hleft, hright, ← List.countP_filter, List.countP_eq_length_filter] at hcount
  have hall := List.countP_eq_length.mp hcount.symm e (List.mem_filter.mpr ⟨he, decide_eq_true ⟨rfl, hne⟩⟩)
  exact of_decide_eq_true hall

theorem exclusion_registered_eq {e : Entry} (he : e ∈ entries) (hexcl : e.OfExclusion u) :
    e.registered = foldedTokens u e.phrase.text := by
  by_cases hne : e.registered = []
  · have hreg := hexcl.1
    rw [hne, exclusionTokens] at hreg
    rw [hne, foldedTokens, tokenize_eq_nil_of_pySplit (List.map_eq_nil_iff.mp hreg.symm)]
    rfl
  · obtain ⟨htokens, hsuffix, -⟩ := exclusion_endsAt horigin hperm he hexcl hne
    have hpos := List.length_pos_iff.mpr hne
    have hlast : e.registered.length - 1 + 1 = e.registered.length := by omega
    rw [hlast, ← List.map_take, List.take_length, List.map_map] at hsuffix
    have hsuffix' : foldedTokens u e.phrase.text <:+ e.registered := by
      have hid : e.registered.map (Token.folded ∘ fun word => ⟨[], word, 0, 0⟩) = e.registered := List.map_id' _
      rwa [hid] at hsuffix
    -- where the text itself ends, something with these tokens has to be found
    have hmode : e.phrase.payload.caseMode ≠ .lowercase := by
      obtain ⟨-, family, hp⟩ := hexcl
      rw [hp]
      exact fun h => CaseMode.noConfusion h
    have hends := endsAt_self (u := u) e.phrase htokens hmode
    have hlen := List.length_pos_iff.mpr htokens
    have hmem : e.phrase.payload ∈ endingAt u entries (tokenize u e.phrase.text)
        ((tokenize u e.phrase.text).length - 1) :=
      List.mem_map.mpr ⟨e, List.mem_filter.mpr ⟨he, decide_eq_true hends⟩, rfl⟩
    have hmem' := (hperm (tokenize u e.phrase.text) _ (by omega)).mem_iff.mpr hmem
    obtain ⟨e', he', hpayload⟩ := List.mem_map.mp hmem'
    obtain ⟨hein, hfound⟩ := List.mem_filter.mp he'
    obtain ⟨hne', hsuffix'', -⟩ := of_decide_eq_true hfound
    rw [registered_of_payload hexcl (horigin e' hein) hpayload hne hne'] at hsuffix''
    have hlast' : (tokenize u e.phrase.text).length - 1 + 1 = (tokenize u e.phrase.text).length := by omega
    rw [hlast', List.take_length] at hsuffix''
    exact hsuffix''.eq_of_length_le hsuffix'.length_le

omit horigin in
/-- A term to be met exactly is found at the end of its own text only if it is its tokens, joined. -/
theorem tier_term_eq {e : Entry} (he : e ∈ entries) (hmode : e.phrase.payload.caseMode = .exact)
    (htier : e.OfTier u) (htokens : tokenize u e.phrase.text ≠ []) :
    e.phrase.payload.term = joined ((tokenize u e.phrase.text).map Token.surface) := by
  have hends := endsAt_self (u := u) e.phrase htokens (by rw [hmode]; exact fun h => CaseMode.noConfusion h)
  have hlen := List.length_pos_iff.mpr htokens
  have hmem : e.phrase.payload ∈ endingAt u entries (tokenize u e.phrase.text)
      ((tokenize u e.phrase.text).length - 1) :=
    List.mem_map.mpr ⟨e, List.mem_filter.mpr ⟨he, decide_eq_true hends⟩, rfl⟩
  have hmem' := (hperm (tokenize u e.phrase.text) _ (by omega)).mem_iff.mpr hmem
  obtain ⟨e', he', hpayload⟩ := List.mem_map.mp hmem'
  obtain ⟨-, hfound⟩ := List.mem_filter.mp he'
  obtain ⟨-, -, haccepts⟩ := of_decide_eq_true hfound
  have hlast : (tokenize u e.phrase.text).length - 1 + 1 = (tokenize u e.phrase.text).length := by omega
  rw [show e'.phrase.payload = e.phrase.payload from hpayload, accepts, htier.tokenLength_eq, hmode, hlast,
    if_neg (Nat.lt_irrefl _), window, hlast, List.take_length, Nat.sub_self, List.drop_zero] at haccepts
  exact (of_decide_eq_true haccepts).symm

end Exact

/-- **A compiled machine finds the phrases of its packs, each as often as it is configured, in
every list of tokens, exactly when the exclusions and the terms to be met exactly are written
as they are tokenized.** -/
theorem scanTokens_exact_iff (u : LetterCase) (specs : List Spec) :
    (∀ tokens : List Token,
      (scanTokens u (compileFamilyAutomaton u specs) tokens).Perm (phraseMatches u specs tokens)) ↔
      ∀ spec ∈ specs, spec.Plain u := by
  have horigin : ∀ e ∈ specs.flatMap (Spec.entries u), e.OfTier u ∨ e.OfExclusion u := by
    intro e he
    obtain ⟨spec, -, he⟩ := List.mem_flatMap.mp he
    exact origin he
  constructor
  · intro h
    have hperm : ∀ tokens pos, pos < tokens.length →
        (foundAt u (specs.flatMap (Spec.entries u)) tokens pos).Perm
          (endingAt u (specs.flatMap (Spec.entries u)) tokens pos) := by
      intro tokens pos hpos
      have hboth := (scanTokens_perm specs tokens).symm.trans (h tokens)
      rw [phraseMatches_eq] at hboth
      exact perm_at hboth hpos
    intro spec hspec
    apply (plain_iff spec).mpr
    intro e he
    have hmem : e ∈ specs.flatMap (Spec.entries u) := List.mem_flatMap.mpr ⟨spec, hspec, he⟩
    rcases horigin e hmem with htier | hexcl
    · exact ⟨htier.registered_eq, fun hmode htokens => tier_term_eq hperm hmem hmode htier htokens⟩
    · refine ⟨exclusion_registered_eq horigin hperm hmem hexcl, fun hmode => ?_⟩
      obtain ⟨-, family, hp⟩ := hexcl
      rw [hp] at hmode
      exact CaseMode.noConfusion hmode
  · intro h tokens
    have hplain : ∀ e ∈ specs.flatMap (Spec.entries u), e.Plain u := by
      intro e he
      obtain ⟨spec, hspec, he⟩ := List.mem_flatMap.mp he
      exact (plain_iff spec).mp (h spec hspec) e he
    apply (scanTokens_perm specs tokens).trans
    rw [phraseMatches_eq]
    apply List.Perm.of_eq
    apply List.flatMap_congr
    intro pos hpos
    have hfilter : foundAt u (specs.flatMap (Spec.entries u)) tokens pos =
        endingAt u (specs.flatMap (Spec.entries u)) tokens pos := by
      unfold foundAt endingAt
      apply congrArg (List.map _)
      apply List.filter_congr
      intro e he
      exact decide_eq_decide.mpr (found_iff_endsAt (horigin e he) (hplain e he) (List.mem_range.mp hpos))
    rw [hfilter]

/-! ## An exclusion that is never found -/

def nonDerivative : Chars := "non-derivative".toList

def signatureSpec : Spec := ⟨"signature", .lexical ⟨"signature", [], [nonDerivative]⟩⟩

/-- The exclusion is looked for as one token; the text has two. -/
theorem hyphenated_exclusion_missed : ¬ ∀ (u : LetterCase) (specs : List Spec) (tokens : List Token),
    (scanTokens u (compileFamilyAutomaton u specs) tokens).Perm (phraseMatches u specs tokens) := by
  intro h
  have hlength := (h asciiCase [signatureSpec] (tokenize asciiCase nonDerivative)).length_eq
  revert hlength
  decide +kernel

end EdgarSec.Lexical
