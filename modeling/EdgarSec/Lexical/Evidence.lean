import EdgarSec.Lexical.Automaton

/-! Evidence packs and the scorer that evaluates them, band by band. -/

namespace EdgarSec.Lexical
open Lib Foundation

def CaseMode.text : CaseMode → String
  | .fold => "fold"
  | .exact => "exact"
  | .lowercase => "lowercase"

/-! ## Compilation -/

section Compile
variable (u : LetterCase)

def tokenToKey (token : Token) : CaseMode → Option Chars
  | .fold => some token.folded
  | .exact => some token.surface
  | .lowercase => if u.islower token.surface then some token.surface else none

def validateTermTokens (term : Chars) (tokens : List Token) (tier : TierPolicy) : Except String Unit :=
  if tier.matchKind = .unigram ∧ tokens.length ≠ 1 then
    .error ("tier " ++ pyRepr tier.name ++ " unigram term " ++ pyRepr (String.ofList term) ++
      " must tokenize to one token")
  else if tier.matchKind = .ngram ∧ tokens.length < 2 then
    .error ("tier " ++ pyRepr tier.name ++ " ngram term " ++ pyRepr (String.ofList term) ++
      " must tokenize to two or more tokens")
  else if tier.caseMode = .lowercase ∧ (tokens.any fun token => !u.islower token.surface) then
    .error ("tier " ++ pyRepr tier.name ++ " lowercase-mode term " ++ pyRepr (String.ofList term) ++
      " must be all lowercase")
  else .ok ()

def claimTokens (term : Chars) (mode : CaseMode) :
    Dict Chars CaseMode → List Token → Except String (Dict Chars CaseMode)
  | owners, [] => .ok owners
  | owners, token :: rest =>
    match owners.get? token.folded with
    | some existing =>
      if existing ≠ mode then
        .error ("term " ++ pyRepr (String.ofList term) ++ " (folded " ++ pyRepr (String.ofList token.folded) ++
          ") is configured under multiple case modes: " ++ pyRepr existing.text ++ " and " ++ pyRepr mode.text)
      else claimTokens term mode (owners.set token.folded mode) rest
    | none => claimTokens term mode (owners.set token.folded mode) rest

def checkCollision (pack : LexicalEvidencePack) : Except String Unit := do
  let _ ← (pack.tiers.flatMap fun tier => tier.terms.map fun term => (term, tier.caseMode)).foldlM
    (fun owners claim => claimTokens claim.1 claim.2 owners (tokenize u claim.1)) Dict.empty
  return ()

variable {u}

theorem folded_of_mem_tokenize {text : Chars} {token : Token} (h : token ∈ tokenize u text) :
    IsWord token.surface ∧ token.folded = u.lowered token.surface := by
  obtain ⟨run, hrun, rfl⟩ := List.mem_map.mp h
  exact ⟨isWord_of_mem_runs (List.mem_map_of_mem hrun), rfl⟩

theorem isWord_of_tokenToKey {text key : Chars} {token : Token} {mode : CaseMode} (h : token ∈ tokenize u text)
    (hkey : tokenToKey u token mode = some key) : IsWord key := by
  obtain ⟨hword, hfolded⟩ := folded_of_mem_tokenize h
  cases mode with
  | fold =>
    rw [← Option.some.inj hkey, hfolded]
    exact hword.lowered
  | exact =>
    rw [← Option.some.inj hkey]
    exact hword
  | lowercase =>
    rw [tokenToKey] at hkey
    by_cases hlower : u.islower token.surface = true
    · rw [if_pos hlower] at hkey
      rw [← Option.some.inj hkey]
      exact hword
    · rw [if_neg hlower] at hkey
      exact absurd hkey.symm (Option.some_ne_none key)

variable (u)

/-- `tokens[0].surface if tier.case_mode is CaseMode.EXACT else tokens[0].folded` for each term. -/
def unigramWords (tier : EvidenceTier) : List Chars :=
  tier.terms.flatMap fun term => ((tokenize u term).take 1).map fun token =>
    if tier.caseMode = .exact then token.surface else token.folded

def ngramPhrases (tier : EvidenceTier) : List (List Chars) :=
  (tier.terms.map fun term => (tokenize u term).filterMap fun token => tokenToKey u token tier.caseMode).filter
    (· ≠ [])

theorem isWord_of_mem_unigramWords {tier : EvidenceTier} {word : Chars} (h : word ∈ unigramWords u tier) :
    IsWord word := by
  obtain ⟨term, -, hterm⟩ := List.mem_flatMap.mp h
  obtain ⟨token, htoken, rfl⟩ := List.mem_map.mp hterm
  obtain ⟨hsurface, hfolded⟩ := folded_of_mem_tokenize (List.mem_of_mem_take htoken)
  by_cases hmode : tier.caseMode = .exact
  · rw [if_pos hmode]
    exact hsurface
  · rw [if_neg hmode, hfolded]
    exact hsurface.lowered

theorem isWord_of_mem_ngramPhrases {tier : EvidenceTier} {ngram : List Chars} (h : ngram ∈ ngramPhrases u tier) :
    ngram ≠ [] ∧ ∀ word ∈ ngram, IsWord word := by
  obtain ⟨hmem, hne⟩ := List.mem_filter.mp h
  obtain ⟨term, -, rfl⟩ := List.mem_map.mp hmem
  refine ⟨of_decide_eq_true hne, ?_⟩
  intro word hword
  obtain ⟨token, htoken, hkey⟩ := List.mem_filterMap.mp hword
  exact isWord_of_tokenToKey htoken hkey

def indexByLength (phrases : List (List Chars)) : Dict Nat (List (List Chars)) where
  items := ((phrases.map List.length).dedup.insertionSort (· ≤ ·)).map fun n =>
    (n, (phrases.filter fun phrase => phrase.length = n).dedup)
  nodup := by
    rw [List.map_map]
    have hid : Prod.fst ∘ (fun n => (n, (phrases.filter fun phrase => phrase.length = n).dedup)) = id := rfl
    rw [hid, List.map_id]
    exact (List.perm_insertionSort _ _).nodup_iff.mpr (List.nodup_dedup _)

theorem mem_of_mem_indexByLength {phrases : List (List Chars)} {e : Nat × List (List Chars)}
    (he : e ∈ (indexByLength phrases).items) {phrase : List Chars} (h : phrase ∈ e.2) : phrase ∈ phrases := by
  obtain ⟨n, -, rfl⟩ := List.mem_map.mp he
  exact (List.mem_filter.mp (List.mem_dedup.mp h)).1

def buildCompiledTier (tier : EvidenceTier) : Except String CompiledTier :=
  if tier.terms = [] then .error ("tier " ++ pyRepr tier.name ++ " has no terms")
  else do
    tier.terms.forM fun term => validateTermTokens u term (tokenize u term) tier.toTierPolicy
    return match tier.matchKind with
      | .unigram =>
        { tier.toTierPolicy with
          unigrams := (unigramWords u tier).dedup
          ngramIndex := Dict.empty
          unigrams_words := fun _ h => isWord_of_mem_unigramWords u (List.mem_dedup.mp h)
          ngrams_words := fun _ h => absurd h List.not_mem_nil }
      | .ngram =>
        { tier.toTierPolicy with
          unigrams := []
          ngramIndex := indexByLength (ngramPhrases u tier)
          unigrams_words := fun _ h => absurd h List.not_mem_nil
          ngrams_words := fun _ he _ h => isWord_of_mem_ngramPhrases u (mem_of_mem_indexByLength he h) }

/-- The order of the sort key `(-priority, -value, name)`. -/
def tierLe (a b : TierPolicy) : Prop :=
  b.priority < a.priority ∨ (a.priority = b.priority ∧ (b.value < a.value ∨ (a.value = b.value ∧ a.name ≤ b.name)))

instance : DecidableRel tierLe := fun a b => by
  unfold tierLe
  infer_instance

def sortTiers (tiers : List EvidenceTier) : List EvidenceTier :=
  tiers.insertionSort fun a b => tierLe a.toTierPolicy b.toTierPolicy

def compileTiers (packName : String) : List String → List EvidenceTier → Except String (List CompiledTier)
  | _, [] => .ok []
  | names, tier :: rest =>
    if tier.name ∈ names then
      .error ("duplicate tier name " ++ pyRepr tier.name ++ " in pack " ++ pyRepr packName)
    else do
      let compiled ← buildCompiledTier u tier
      let others ← compileTiers packName (tier.name :: names) rest
      return compiled :: others

def bandMaxValues : List CompiledTier → List Nat
  | [] => []
  | tier :: rest => go tier.priority tier.value rest
where
  go (priority : Int) (max : Nat) : List CompiledTier → List Nat
    | [] => [max]
    | tier :: rest =>
      if tier.priority = priority then go priority (Nat.max max tier.value) rest
      else max :: go tier.priority tier.value rest

theorem policy_of_build {tier : EvidenceTier} {compiled : CompiledTier} (h : buildCompiledTier u tier = .ok compiled) :
    compiled.toTierPolicy = tier.toTierPolicy := by
  unfold buildCompiledTier at h
  by_cases hnil : tier.terms = []
  · rw [if_pos hnil] at h
    cases h
  · rw [if_neg hnil] at h
    cases hforM : tier.terms.forM fun term => validateTermTokens u term (tokenize u term) tier.toTierPolicy with
    | error e =>
      rw [hforM] at h
      cases h
    | ok _ =>
      rw [hforM] at h
      have heq := Except.ok.inj h
      rw [← heq]
      cases tier.matchKind <;> rfl

theorem policies_of_compile {packName : String} {names : List String} {tiers : List EvidenceTier}
    {compiled : List CompiledTier} (h : compileTiers u packName names tiers = .ok compiled) :
    compiled.map CompiledTier.toTierPolicy = tiers.map EvidenceTier.toTierPolicy := by
  induction tiers generalizing names compiled with
  | nil =>
    rw [← Except.ok.inj h]
    rfl
  | cons tier rest ih =>
    rw [compileTiers] at h
    by_cases hdup : tier.name ∈ names
    · rw [if_pos hdup] at h
      cases h
    · rw [if_neg hdup] at h
      cases hbuild : buildCompiledTier u tier with
      | error e =>
        rw [hbuild] at h
        cases h
      | ok first =>
        cases hrest : compileTiers u packName (tier.name :: names) rest with
        | error e =>
          rw [hbuild] at h
          change (compileTiers u packName (tier.name :: names) rest >>= fun others => pure (first :: others)) = _ at h
          rw [hrest] at h
          cases h
        | ok others =>
          rw [hbuild] at h
          change (compileTiers u packName (tier.name :: names) rest >>= fun others => pure (first :: others)) = _ at h
          rw [hrest] at h
          rw [← Except.ok.inj h, List.map_cons, List.map_cons, ih hrest, policy_of_build u hbuild]

theorem sorted_sortTiers (tiers : List EvidenceTier) :
    (sortTiers tiers).Pairwise fun a b => b.priority < a.priority ∨ (a.priority = b.priority ∧ b.value ≤ a.value) := by
  have htotal : ∀ a b : EvidenceTier, tierLe a.toTierPolicy b.toTierPolicy ∨ tierLe b.toTierPolicy a.toTierPolicy := by
    intro a b
    unfold tierLe
    rcases lt_trichotomy a.priority b.priority with h | h | h
    · exact Or.inr (Or.inl h)
    · rcases lt_trichotomy a.value b.value with h' | h' | h'
      · exact Or.inr (Or.inr ⟨h.symm, Or.inl h'⟩)
      · rcases le_total a.name b.name with h'' | h''
        · exact Or.inl (Or.inr ⟨h, Or.inr ⟨h', h''⟩⟩)
        · exact Or.inr (Or.inr ⟨h.symm, Or.inr ⟨h'.symm, h''⟩⟩)
      · exact Or.inl (Or.inr ⟨h, Or.inl h'⟩)
    · exact Or.inl (Or.inl h)
  have htrans : ∀ a b c : EvidenceTier, tierLe a.toTierPolicy b.toTierPolicy → tierLe b.toTierPolicy c.toTierPolicy →
      tierLe a.toTierPolicy c.toTierPolicy := by
    intro a b c hab hbc
    unfold tierLe at hab hbc ⊢
    rcases hab with hab | ⟨hab, hab'⟩ <;> rcases hbc with hbc | ⟨hbc, hbc'⟩
    · exact Or.inl (hbc.trans hab)
    · exact Or.inl (hbc ▸ hab)
    · exact Or.inl (hab.symm ▸ hbc)
    · right
      refine ⟨hab.trans hbc, ?_⟩
      rcases hab' with hab' | ⟨hab', hn⟩ <;> rcases hbc' with hbc' | ⟨hbc', hn'⟩
      · exact Or.inl (hbc'.trans hab')
      · exact Or.inl (hbc' ▸ hab')
      · exact Or.inl (hab'.symm ▸ hbc')
      · exact Or.inr ⟨hab'.trans hbc', hn.trans hn'⟩
  have : Std.Total (fun a b : EvidenceTier => tierLe a.toTierPolicy b.toTierPolicy) := ⟨htotal⟩
  have : IsTrans EvidenceTier (fun a b => tierLe a.toTierPolicy b.toTierPolicy) := ⟨htrans⟩
  have hsorted := List.pairwise_insertionSort (fun a b : EvidenceTier => tierLe a.toTierPolicy b.toTierPolicy) tiers
  apply hsorted.imp
  intro a b h
  rcases h with h | ⟨h, h' | h'⟩
  · exact Or.inl h
  · exact Or.inr ⟨h, Nat.le_of_lt h'⟩
  · exact Or.inr ⟨h, Nat.le_of_eq h'.1.symm⟩

theorem sorted_of_compile {packName : String} {names : List String} {tiers : List EvidenceTier}
    {compiled : List CompiledTier} (h : compileTiers u packName names (sortTiers tiers) = .ok compiled) :
    compiled.Pairwise fun a b => b.priority < a.priority ∨ (a.priority = b.priority ∧ b.value ≤ a.value) := by
  have hsorted := sorted_sortTiers tiers
  have hpolicies := policies_of_compile u h
  have hleft := List.pairwise_map (f := EvidenceTier.toTierPolicy) (l := sortTiers tiers)
    (R := fun a b => b.priority < a.priority ∨ (a.priority = b.priority ∧ b.value ≤ a.value))
  have hright := List.pairwise_map (f := CompiledTier.toTierPolicy) (l := compiled)
    (R := fun a b => b.priority < a.priority ∨ (a.priority = b.priority ∧ b.value ≤ a.value))
  apply hright.mp
  rw [hpolicies]
  exact hleft.mpr hsorted

def compileEvidencePack (pack : LexicalEvidencePack) : Except String CompiledEvidencePack := do
  checkCollision u pack
  match h : compileTiers u pack.name [] (sortTiers pack.tiers) with
  | .error e => .error e
  | .ok tiers => .ok {
      name := pack.name
      tiers := tiers
      bandMaxValue := bandMaxValues tiers
      exclusions := (pack.exclusionTerms.flatMap fun term => foldedTokens u term).dedup
      automaton := some (compileFamilyAutomaton u [⟨pack.name, .lexical pack⟩])
      sorted := sorted_of_compile u h }

end Compile

/-! ## Hits -/

structure EvidenceHit where
  tier : String
  term : Chars
  matchKind : MatchKind
  count : Nat
  positions : List Nat
  caseMode : CaseMode
  deriving DecidableEq, Repr

/-- Positions by what was matched there: `setdefault(key, []).append(position)` in turn. -/
def groupPositions {κ : Type} [DecidableEq κ] (found : List (κ × Nat)) : Dict κ (List Nat) :=
  found.foldl (fun matched e => matched.set e.1 ((matched.get? e.1).getD [] ++ [e.2])) Dict.empty

section Hits
variable (u : LetterCase)

/-- `matched_by_tier` for one tier. -/
def matchedByTier (automaton : MultiPatternAutomaton) (tokens : List Token) (tierName : String) : Dict Chars (List Nat) :=
  groupPositions ((scanTokens u automaton tokens).filterMap fun (pos, payload) =>
    if payload.isExclusion = true ∨ payload.tierName ≠ tierName then none
    else some (payload.term, pos + 1 - payload.tokenLength))

def matchUnigrams (tokens : List Token) (vocab : List Chars) (mode : CaseMode) : Dict Chars (List Nat) :=
  groupPositions (tokens.zipIdx.filterMap fun (token, position) =>
    (tokenToKey u token mode).bind fun key => if key ∈ vocab then some (key, position) else none)

def windowKey (tokens : List Token) (start length : Nat) (mode : CaseMode) : Option Chars :=
  (((tokens.drop start).take length).mapM fun token => tokenToKey u token mode).map joined

def matchNgrams (tokens : List Token) (indexByLength : Dict Nat (List (List Chars))) (mode : CaseMode) :
    Dict (List Chars) (List Nat) :=
  groupPositions (indexByLength.items.flatMap fun (length, index) =>
    if tokens.length < length then []
    else (List.range (tokens.length - length + 1)).filterMap fun start =>
      (windowKey u tokens start length mode).bind fun key =>
        let phrase := key.splitOn ' '
        if phrase ∈ index then some (phrase, start) else none)

def tierHits (automaton : Option MultiPatternAutomaton) (tokens : List Token) (tier : CompiledTier) : List EvidenceHit :=
  match automaton, tier.matchKind with
  | some automaton, matchKind =>
    ((matchedByTier u automaton tokens tier.name).items.insertionSort fun a b => a.1 ≤ b.1).map fun (term, positions) =>
      ⟨tier.name, term, matchKind, positions.length, positions, tier.caseMode⟩
  | none, .unigram =>
    ((matchUnigrams u tokens tier.unigrams tier.caseMode).items.insertionSort fun a b => a.1 ≤ b.1).map
      fun (term, positions) => ⟨tier.name, term, .unigram, positions.length, positions, tier.caseMode⟩
  | none, .ngram =>
    ((matchNgrams u tokens tier.ngramIndex tier.caseMode).items.insertionSort fun a b => a.1 ≤ b.1).map
      fun (phrase, positions) => ⟨tier.name, joined phrase, .ngram, positions.length, positions, tier.caseMode⟩

end Hits

/-! ## Scores -/

structure EvidenceContext where
  eligible : Bool := true
  exclusionReason : String := ""
  prefixVocab : List Chars := []
  minWords : Int := 8

inductive Classification where
  | matched
  | ambiguous
  | noMatch
  deriving DecidableEq, Repr

structure BowScore where
  score : Nat
  classification : Classification
  confidence : ℚ
  hits : List EvidenceHit := []
  exclusions : List Chars := []
  satisfiedTiers : List String := []
  evaluatedTiers : List String := []
  shortCircuited : Bool := false
  novelCount : Nat := 0
  supportScore : Nat := 0
  reason : String

namespace Evidence

def tierConfidence (value distinctHits : Nat) : ℚ :=
  if 3 ≤ value then min (98 / 100) (90 / 100 + 2 / 100 * distinctHits)
  else if 2 ≤ value then min (95 / 100) (80 / 100 + 3 / 100 * distinctHits)
  else min (60 / 100) (45 / 100 + 5 / 100 * distinctHits)

end Evidence

def buildReason (score : Nat) (satisfied : List String) (exclusions : List Chars) (packName : String) : String :=
  if 2 ≤ score then "satisfied tier(s) " ++ pyReprList satisfied ++ " with decisive evidence"
  else if score = 1 ∧ satisfied ≠ [] then "satisfied weak tier(s) " ++ pyReprList satisfied
  else if score = 1 then "partial high-confidence evidence below distinct-hit minimum"
  else if exclusions ≠ [] then
    "form/cover exclusion terms only: " ++ joinWith ", " ((exclusions.take 5).map String.ofList)
  else "no lexical evidence matched in pack " ++ pyRepr packName

structure Tally where
  score : Nat
  supportScore : Nat
  supportConfidence : ℚ
  confidence : ℚ
  partlyStrong : Bool
  shortCircuited : Bool
  hits : List EvidenceHit
  evaluated : List String
  satisfied : List String
  bandPriority : Option Int
  bandMax : Nat

namespace Tally

def start : Tally := ⟨0, 0, 0, 0, false, false, [], [], [], none, 0⟩

def enter (t : Tally) (tier : CompiledTier) : Tally :=
  let t := if t.bandPriority ≠ some tier.priority then
    { t with bandPriority := some tier.priority, bandMax := tier.value } else t
  { t with evaluated := t.evaluated ++ [tier.name] }

def count (t : Tally) (tier : CompiledTier) (tierHits : List EvidenceHit) : Tally :=
  let distinct := tierHits.length
  let t := { t with hits := t.hits ++ tierHits }
  if tier.minDistinctHits ≤ distinct then
    let t := { t with satisfied := t.satisfied ++ [tier.name] }
    if tier.support then
      { t with
        supportScore := t.supportScore + tier.value
        supportConfidence := max t.supportConfidence (Evidence.tierConfidence tier.value distinct) }
    else if t.score < tier.value then
      { t with score := tier.value, confidence := Evidence.tierConfidence tier.value distinct }
    else t
  else if distinct ≠ 0 ∧ 2 ≤ tier.value ∧ tier.support = false then { t with partlyStrong := true }
  else t

def total (t : Tally) : Nat :=
  min 3 ((if t.score = 0 ∧ t.partlyStrong = true then 1 else t.score) + t.supportScore)

end Tally

section Score
variable (u : LetterCase) (hitsOf : CompiledTier → List EvidenceHit)

def scoreTiers : Tally → List CompiledTier → Tally
  | t, [] => t
  | t, tier :: later =>
    let t := (t.enter tier).count tier (hitsOf tier)
    if tier.minDistinctHits ≤ (hitsOf tier).length ∧ tier.support = false ∧ t.score = t.bandMax then
      { t with
        shortCircuited := true
        evaluated := t.evaluated ++ (later.takeWhile fun other => other.priority = tier.priority).map (·.name) }
    else if 2 ≤ t.score ∧ ¬ later.any (fun lower => t.score < lower.value) then { t with shortCircuited := true }
    else scoreTiers t later

def classificationOf (total : Nat) : Classification :=
  if 2 ≤ total then .matched else if total = 1 then .ambiguous else .noMatch

def unscored (reason : String) : BowScore := { score := 0, classification := .noMatch, confidence := 0, reason := reason }

def scoreTokens (tokens : List Token) (compiled : CompiledEvidencePack) (context : EvidenceContext) : BowScore :=
  if context.eligible = false then
    unscored (if context.exclusionReason = "" then "unit is ineligible for scoring" else context.exclusionReason)
  else if (tokens.length : Int) < context.minWords then
    unscored ("unit has " ++ toString tokens.length ++ " tokens, below minimum " ++ toString context.minWords)
  else if compiled.tiers = [] then unscored ("evidence pack " ++ pyRepr compiled.name ++ " has no tiers")
  else
    let tokenSet := (tokens.map Token.folded).dedup
    let exclusions := (tokenSet.filter fun token => token ∈ compiled.exclusions).insertionSort (· ≤ ·)
    let novelCount := if context.prefixVocab = [] then 0
      else (tokenSet.filter fun token => token ∉ context.prefixVocab).length
    let t := scoreTiers (tierHits u compiled.automaton tokens) .start compiled.tiers
    let total := t.total
    let confidence := if 2 ≤ total ∧ t.confidence = 0 then t.supportConfidence else t.confidence
    let confidence := if confidence = 0 ∧ total = 1 ∧ t.satisfied = [] then 3 / 10 else confidence
    let confidence := if confidence = 0 ∧ total = 0 ∧ exclusions ≠ [] then 2 / 10 else confidence
    { score := total
      classification := classificationOf total
      confidence := confidence
      hits := t.hits
      exclusions := exclusions
      satisfiedTiers := t.satisfied
      evaluatedTiers := t.evaluated
      shortCircuited := t.shortCircuited
      novelCount := novelCount
      supportScore := t.supportScore
      reason := buildReason total t.satisfied exclusions compiled.name }

end Score
end EdgarSec.Lexical
