import EdgarSec.Lexical.Automaton

/-! `LexicalMatcher.classify`: the category whose phrases hit best. -/

namespace EdgarSec.Lexical
open Lib Foundation

def tierConfidence (value : Int) (distinctHits : Nat) : ℚ :=
  if 3 ≤ value then min (98 / 100) (90 / 100 + 2 / 100 * distinctHits)
  else if 2 ≤ value then min (95 / 100) (80 / 100 + 3 / 100 * distinctHits)
  else min (60 / 100) (45 / 100 + 5 / 100 * distinctHits)

abbrev TierHits := Dict String (Finset Chars)

structure TierRequirement where
  value : Int
  minDistinct : Int
  isSupport : Bool
  deriving DecidableEq, Repr

structure LexicalMatcher where
  automaton : MultiPatternAutomaton
  categories : List String
  tierRequirements : Dict String (Dict String TierRequirement)

structure ClassificationMatch where
  category : Option String
  confidence : ℚ
  score : Int
  matchedTerms : Multiset Chars := 0
  supportingTerms : Multiset Chars := 0
  exclusionTerms : Multiset Chars := 0
  reason : String := ""

/-! ## Hits -/

def addHit (hits : Dict String TierHits) (payload : MatchPayload) : Dict String TierHits :=
  let ofFamily := (hits.get? payload.family).getD Dict.empty
  hits.set payload.family
    (ofFamily.set payload.tierName (insert payload.term ((ofFamily.get? payload.tierName).getD ∅)))

/-- The scan of `scan_tokens`, with its matches put into sets. -/
def scanFamilyHits (u : LetterCase) (automaton : MultiPatternAutomaton) (tokens : List Token) : Dict String TierHits :=
  ((scanTokens u automaton tokens).map Prod.snd).foldl addHit Dict.empty

/-! ## One category -/

structure CategoryTally where
  score : Int
  distinctPos : Nat
  posTerms : Multiset Chars
  suppTerms : Multiset Chars

namespace LexicalMatcher
variable (matcher : LexicalMatcher)

def requirement (cat tierName : String) : TierRequirement :=
  (((matcher.tierRequirements.get? cat).getD Dict.empty).get? tierName).getD ⟨2, 1, false⟩

def addTier (cat : String) (t : CategoryTally) (tier : String × Finset Chars) : CategoryTally :=
  let info := matcher.requirement cat tier.1
  if tier.1 = "_exclusion" then t
  else if info.minDistinct ≤ tier.2.card then
    if info.isSupport then { t with suppTerms := t.suppTerms + tier.2.val, score := t.score + 1 }
    else { t with
      posTerms := t.posTerms + tier.2.val
      score := max t.score info.value
      distinctPos := t.distinctPos + tier.2.card }
  else t

def tallyCategory (cat : String) (catHits : TierHits) : CategoryTally :=
  catHits.items.foldl (matcher.addTier cat) ⟨0, 0, 0, 0⟩

/-! ## The best category -/

structure Best where
  category : Option String
  score : Int
  confidence : ℚ
  posHits : Multiset Chars
  suppHits : Multiset Chars

def Best.start : Best := ⟨none, 0, 0, 0, 0⟩

def consider (hits : Dict String TierHits) (best : Best) (cat : String) : Best :=
  match hits.get? cat with
  | none => best
  | some catHits =>
    if (catHits.get? "_exclusion").getD ∅ ≠ ∅ then best
    else
      let t := matcher.tallyCategory cat catHits
      let conf := tierConfidence t.score t.distinctPos
      if 0 < t.score ∧ (best.confidence < conf ∨ (conf = best.confidence ∧ best.score < t.score)) then
        ⟨some cat, t.score, conf, t.posTerms, t.suppTerms⟩
      else best

/-- The loop over the allowed categories, in the order `allowed` has them, with the hits in the
order `hits` has them. The terms of a result are sorted there; here they are multisets. -/
def classifyHits (hits : Dict String TierHits) (allowed : List String) : ClassificationMatch :=
  let best := allowed.foldl (matcher.consider hits) .start
  match best.category with
  | none => { category := none, confidence := 0, score := 0, reason := "no matching phrases" }
  | some cat =>
    { category := some cat
      confidence := best.confidence
      score := best.score
      matchedTerms := best.posHits
      supportingTerms := best.suppHits
      reason := "matched " ++ cat ++ " with score " ++ toString best.score }

end LexicalMatcher

/-! ## Orders of iteration -/

def SameHits (hits hits' : Dict String TierHits) : Prop :=
  ∀ cat, Option.Rel (fun tiers tiers' => tiers.items.Perm tiers'.items) (hits.get? cat) (hits'.get? cat)

structure Iteration (u : LetterCase) (matcher : LexicalMatcher) (tokens : List Token)
    (candidates : Option (List String)) where
  hits : Dict String TierHits
  allowed : List String
  same_hits : SameHits (scanFamilyHits u matcher.automaton tokens) hits
  allowed_nodup : allowed.Nodup
  mem_allowed : ∀ cat, cat ∈ allowed ↔ cat ∈ candidates.getD matcher.categories

def classify (u : LetterCase) (matcher : LexicalMatcher) (tokens : List Token) (candidates : Option (List String))
    (order : Iteration u matcher tokens candidates) : ClassificationMatch :=
  if tokens = [] then { category := none, confidence := 0, score := 0 }
  else matcher.classifyHits order.hits order.allowed

/-! ## Matchers from phrases -/

section Compile
variable (u : LetterCase)

def primaryPayload (cat : String) (phrase : Chars) : MatchPayload where
  family := cat
  tierName := "primary"
  term := stripChars phrase
  value := 3
  tokenLength := (foldedTokens u phrase).length

def vetoPayload (cat : String) (excl : Chars) : MatchPayload where
  family := cat
  tierName := "_exclusion"
  term := stripChars excl
  value := 0
  isExclusion := true
  tokenLength := (foldedTokens u excl).length

def lexicalChains (payload : String → Chars → MatchPayload) (phrases : Dict String (List Chars)) :
    List (List Chars × MatchPayload) :=
  phrases.items.flatMap fun (cat, listed) => listed.filterMap fun phrase =>
    if foldedTokens u phrase = [] then none else some (foldedTokens u phrase, payload cat phrase)

def compileLexicalMatcher (categories : Dict String (List Chars)) (exclusions : Option (Dict String (List Chars))) :
    LexicalMatcher where
  automaton := linkFailures ((lexicalChains u (primaryPayload u) categories ++
    lexicalChains u (vetoPayload u) (exclusions.getD Dict.empty)).foldl
      (fun automaton chain => addTokenChain automaton chain.1 chain.2) Machine.initial)
  categories := categories.keys
  tierRequirements := categories.mapValues fun _ => Dict.empty.set "primary" ⟨3, 1, false⟩

end Compile
end EdgarSec.Lexical
