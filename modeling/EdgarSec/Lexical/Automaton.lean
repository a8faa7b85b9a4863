import EdgarSec.Lexical.Tokens
import EdgarSec.Lib.AhoCorasick

/-! `compile_family_automaton` and the scans: evidence packs as one machine over the folded
tokens of a text. -/

namespace EdgarSec.Lexical
open Lib Foundation

/-! ## Payloads -/

structure MatchPayload where
  family : String
  tierName : String
  term : Chars
  value : Nat
  isSupport : Bool := false
  isExclusion : Bool := false
  minDistinctHits : Nat := 1
  tokenLength : Nat := 1
  caseMode : CaseMode := .fold
  deriving DecidableEq, Repr

abbrev MultiPatternAutomaton := Machine Chars MatchPayload

def addTokenChain (automaton : MultiPatternAutomaton) (tokens : List Chars) (payload : MatchPayload) :
    MultiPatternAutomaton :=
  Machine.addChain payload automaton 0 tokens

def linkFailures (automaton : MultiPatternAutomaton) : MultiPatternAutomaton := automaton.link

/-! ## Packs -/

inductive MatchKind where
  | unigram
  | ngram
  deriving DecidableEq, Repr

/-- What an `EvidenceTier` says besides its vocabulary, checked when it is declared. -/
structure TierPolicy where
  name : String
  priority : Int
  value : Nat
  matchKind : MatchKind
  minDistinctHits : Nat
  caseMode : CaseMode
  support : Bool
  value_range : 1 ≤ value ∧ value ≤ 3
  value_of_support : support = true → value = 1
  minDistinctHits_pos : 1 ≤ minDistinctHits

structure EvidenceTier extends TierPolicy where
  terms : List Chars

structure CompiledTier extends TierPolicy where
  unigrams : List Chars
  ngramIndex : Dict Nat (List (List Chars))
  unigrams_words : ∀ word ∈ unigrams, IsWord word
  ngrams_words : ∀ e ∈ ngramIndex.items, ∀ ngram ∈ e.2, ngram ≠ [] ∧ ∀ word ∈ ngram, IsWord word

structure LexicalEvidencePack where
  name : String
  tiers : List EvidenceTier
  exclusionTerms : List Chars

structure CompiledEvidencePack where
  name : String
  tiers : List CompiledTier
  bandMaxValue : List Nat
  exclusions : List Chars
  automaton : Option MultiPatternAutomaton
  sorted : tiers.Pairwise fun a b => b.priority < a.priority ∨ (a.priority = b.priority ∧ b.value ≤ a.value)

inductive Pack where
  | lexical (pack : LexicalEvidencePack)
  | compiled (pack : CompiledEvidencePack)

structure Spec where
  name : String
  pack : Pack

/-! ## Compilation -/

section Compile
variable (u : LetterCase)

def foldedTokens (text : Chars) : List Chars := (tokenize u text).map Token.folded

/-- `tuple(tok.casefold() for tok in excl.strip().split() if tok)` -/
def exclusionTokens (excl : Chars) : List Chars := (pySplit excl).map u.folded

def tierPayload (family : String) (tier : TierPolicy) (term : Chars) (tokenLength : Nat) : MatchPayload where
  family := family
  tierName := tier.name
  term := term
  value := tier.value
  isSupport := tier.support
  isExclusion := false
  minDistinctHits := tier.minDistinctHits
  tokenLength := tokenLength
  caseMode := tier.caseMode

def exclusionPayload (family : String) (tokens : List Chars) : MatchPayload where
  family := family
  tierName := "_exclusion"
  term := joined tokens
  value := 0
  isSupport := false
  isExclusion := true
  minDistinctHits := 1

def EvidenceTier.phrases (tier : EvidenceTier) : List (Chars × List Chars) :=
  tier.terms.filterMap fun term =>
    let parts := foldedTokens u term
    if parts = [] then none else some (stripChars term, parts)

def CompiledTier.phrases (tier : CompiledTier) : List (Chars × List Chars) :=
  tier.unigrams.map (fun unigram => (unigram, [u.lowered unigram])) ++
    tier.ngramIndex.items.flatMap fun e => e.2.map fun ngram => (joined ngram, ngram.map u.lowered)

def tierChains (family : String) (tier : TierPolicy) (phrases : List (Chars × List Chars)) :
    List (List Chars × MatchPayload) :=
  phrases.filterMap fun (term, tokens) =>
    if tokens = [] then none else some (tokens, tierPayload family tier term tokens.length)

def exclusionChains (family : String) (exclusions : List Chars) : List (List Chars × MatchPayload) :=
  exclusions.filterMap fun excl =>
    let tokens := exclusionTokens u excl
    if tokens = [] then none else some (tokens, exclusionPayload family tokens)

def Pack.exclusions : Pack → List Chars
  | .lexical pack => pack.exclusionTerms
  | .compiled pack => pack.exclusions

def Spec.chains (spec : Spec) : List (List Chars × MatchPayload) :=
  (match spec.pack with
    | .lexical pack => pack.tiers.flatMap fun tier => tierChains spec.name tier.toTierPolicy (tier.phrases u)
    | .compiled pack => pack.tiers.flatMap fun tier => tierChains spec.name tier.toTierPolicy (tier.phrases u)) ++
  exclusionChains u spec.name spec.pack.exclusions

def compileFamilyAutomaton (specs : List Spec) : MultiPatternAutomaton :=
  linkFailures ((specs.flatMap (Spec.chains u)).foldl (fun automaton chain =>
    addTokenChain automaton chain.1 chain.2) Machine.initial)

end Compile

/-! ## Scans -/

section Scan
variable (u : LetterCase)

/-- `tokens[start : pos + 1]` for the last `length` tokens up to `pos`. -/
def window (tokens : List Token) (pos length : Nat) : List Token := (tokens.take (pos + 1)).drop (pos + 1 - length)

def accepts (tokens : List Token) (pos : Nat) (payload : MatchPayload) : Bool :=
  if pos + 1 < payload.tokenLength then false
  else match payload.caseMode with
    | .exact => joined ((window tokens pos payload.tokenLength).map Token.surface) = payload.term
    | .lowercase => (window tokens pos payload.tokenLength).all fun t => u.islower t.surface
    | .fold => true

/-- The scan from a state and a position on; `tokens` is the whole text. -/
def scanFrom (automaton : MultiPatternAutomaton) (tokens : List Token) :
    Nat → Nat → List Token → List (Nat × MatchPayload)
  | _, _, [] => []
  | curr, pos, tok :: rest =>
    let curr' := automaton.advance curr tok.folded
    ((automaton.outs curr').filter (accepts u tokens pos)).map (fun payload => (pos, payload)) ++
      scanFrom automaton tokens curr' (pos + 1) rest

def scanTokens (automaton : MultiPatternAutomaton) (tokens : List Token) : List (Nat × MatchPayload) :=
  scanFrom u automaton tokens 0 0 tokens

end Scan

/-! ## What the packs configure -/

structure Phrase where
  text : Chars
  payload : MatchPayload

section Configured
variable (u : LetterCase)

def EvidenceTier.configured (family : String) (tier : EvidenceTier) : List Phrase :=
  tier.terms.map fun term => ⟨term, tierPayload family tier.toTierPolicy (stripChars term) (tokenize u term).length⟩

def CompiledTier.configured (family : String) (tier : CompiledTier) : List Phrase :=
  tier.unigrams.map (fun unigram => ⟨unigram, tierPayload family tier.toTierPolicy unigram 1⟩) ++
    tier.ngramIndex.items.flatMap fun e =>
      e.2.map fun ngram => ⟨joined ngram, tierPayload family tier.toTierPolicy (joined ngram) ngram.length⟩

def Spec.configured (spec : Spec) : List Phrase :=
  (match spec.pack with
    | .lexical pack => pack.tiers.flatMap (EvidenceTier.configured u spec.name)
    | .compiled pack => pack.tiers.flatMap (CompiledTier.configured spec.name)) ++
  spec.pack.exclusions.map fun excl => ⟨excl, exclusionPayload spec.name (exclusionTokens u excl)⟩

def CaseMode.Met (mode : CaseMode) (found phrase : List Token) : Prop :=
  match mode with
  | .fold => True
  | .exact => found.map Token.surface = phrase.map Token.surface
  | .lowercase => ∀ t ∈ found, u.islower t.surface = true

instance (mode : CaseMode) (found phrase : List Token) : Decidable (mode.Met u found phrase) := by
  cases mode <;> unfold CaseMode.Met <;> infer_instance

/-- The tokens of a phrase, as `tokenize` yields them, end at a position. -/
def Phrase.EndsAt (phrase : Phrase) (tokens : List Token) (pos : Nat) : Prop :=
  tokenize u phrase.text ≠ [] ∧
    foldedTokens u phrase.text <:+ (tokens.take (pos + 1)).map Token.folded ∧
    phrase.payload.caseMode.Met u (window tokens pos (tokenize u phrase.text).length) (tokenize u phrase.text)

instance (phrase : Phrase) (tokens : List Token) (pos : Nat) : Decidable (phrase.EndsAt u tokens pos) := by
  unfold Phrase.EndsAt
  infer_instance

def phraseMatches (specs : List Spec) (tokens : List Token) : List (Nat × MatchPayload) :=
  (List.range tokens.length).flatMap fun pos =>
    ((specs.flatMap (Spec.configured u)).filter fun phrase => phrase.EndsAt u tokens pos).map fun phrase =>
      (pos, phrase.payload)

/-- Exclusions split at blanks as `tokenize` splits them; terms to be met exactly are written
with nothing but single blanks between their tokens. -/
structure Spec.Plain (spec : Spec) : Prop where
  exclusions : ∀ excl ∈ spec.pack.exclusions, exclusionTokens u excl = foldedTokens u excl
  exact_terms : ∀ pack, spec.pack = .lexical pack → ∀ tier ∈ pack.tiers, tier.caseMode = .exact →
    ∀ term ∈ tier.terms, tokenize u term ≠ [] →
      stripChars term = joined ((tokenize u term).map Token.surface)

end Configured
end EdgarSec.Lexical
