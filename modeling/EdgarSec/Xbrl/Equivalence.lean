import EdgarSec.Xbrl.Atoms

/-! `classify_ladder_pair`: how two atoms relate, as they are stated and under presumptions. -/

namespace EdgarSec.Xbrl
open Foundation

/-! ## Verdicts -/

inductive Tier where
  | exact
  | near
  | unrelated
  deriving DecidableEq, Repr

inductive Rule where
  | none
  | equality
  | bareHeadEquality
  | textBarrier
  | percentBarrier
  | aggregateWidening
  | singleModifierDifference
  | subsumption
  | siblingSwap
  | viaDefault
  | viaFilingLocal
  | dialectBridge
  deriving DecidableEq, Repr

inductive Direction where
  | none
  | generalization
  | specialization
  deriving DecidableEq, Repr

def Direction.opposite : Direction → Direction
  | none => none
  | generalization => specialization
  | specialization => generalization

inductive Rung where
  | none
  | derived
  | filingLocal
  | default
  deriving DecidableEq, Repr

structure LadderClassification where
  tier : Tier
  rule : Rule
  viaDefault : Bool
  viaFilingLocal : Bool
  modifierDistance : Nat
  direction : Direction
  viaBridge : Bool := false
  deriving DecidableEq, Repr

def LadderClassification.opposite (c : LadderClassification) : LadderClassification :=
  { c with direction := c.direction.opposite }

def aggregateModifier : String := "M_AGGREGATE"
def textModifier : String := "M_TEXT_NODE"
def percentModifier : String := "M_PERCENT_TYPED"
def horizonAxis : String := "MATURITY_HORIZON"
def horizonFallback : Finset String := {"M_CURRENT", "M_NONCURRENT"}
def purchaseActModifier : String := "M_PURCHASE"
def exitActMarkers : Finset String := {"M_SALE", "M_DISPOSAL", "M_COLLECTION"}
def dialectMarkers : Finset String := {purchaseActModifier, "M_INVESTING"}
def dialectRelationType : String := "DIALECT_OF"

/-! ## Declarations -/

structure ScopeContext where
  heads : List String
  sharedModifiers : List String
  sharedExact : Bool
  deriving DecidableEq, Repr

def ScopeContext.admits (context : ScopeContext) (head : String) (shared : Finset String) : Bool :=
  if context.heads ≠ [] ∧ head ∉ context.heads then false
  else if context.sharedExact then shared = context.sharedModifiers.toFinset
  else context.sharedModifiers.toFinset ⊆ shared

structure SiblingGroup where
  group : String
  members : List String
  scope : List ScopeContext
  deriving DecidableEq, Repr

def SiblingGroup.swapAdmitted (group : SiblingGroup) (head : String) (shared : Finset String) : Bool :=
  group.scope = [] ∨ group.scope.any fun context => context.admits head shared

inductive GroupArgument where
  | declared (group : SiblingGroup)
  | bare (members : List String)

structure DefaultCoordinate where
  head : String
  identityModifiers : List String
  axis : String
  presumedModifier : String
  deriving DecidableEq, Repr

structure AtomRelation (u : UpperCase) where
  relationType : String
  source : Atom u
  target : Atom u

structure Shipped (u : UpperCase) where
  groups : List SiblingGroup
  relations : List (AtomRelation u)

def resolveGroups (shipped : List SiblingGroup) : Option (List GroupArgument) → List SiblingGroup
  | none => shipped
  | some groups => groups.map fun group =>
    match group with
    | .declared group => group
    | .bare members => ⟨"", members, []⟩

variable {u : UpperCase}

/-! ## Stated atoms -/

def bridged (relations : List (AtomRelation u)) (payments purchase : Atom u) : Bool :=
  purchaseActModifier ∈ purchase.modifiers ∧ Disjoint purchase.modifiers exitActMarkers ∧
    Disjoint payments.modifiers (exitActMarkers ∪ {purchaseActModifier}) ∧
    relations.any fun edge => edge.relationType = dialectRelationType ∧ payments = edge.source ∧
      purchase.isA edge.target

def dialectBridge (target candidate : Atom u) (relations : List (AtomRelation u))
    (diff : Finset String) : Option Nat :=
  if bridged relations target candidate = true then some (diff \ dialectMarkers).card
  else if bridged relations candidate target = true then some (diff \ dialectMarkers).card
  else none

def siblingSwap (left right : Atom u) (groups : List SiblingGroup) (diff : Finset String) : Bool :=
  if diff.card ≠ 2 then false
  else if (left.modifiers ∩ diff).card ≠ 1 ∨ (right.modifiers ∩ diff).card ≠ 1 then false
  else
    let shared := left.modifiers ∩ right.modifiers
    groups.any fun group => diff ⊆ group.members.toFinset ∧ group.swapAdmitted left.head shared

def barrier (modifier : String) (left right : Atom u) : Bool :=
  decide (modifier ∈ left.modifiers) != decide (modifier ∈ right.modifiers)

def textBarrier (left right : Atom u) : Bool := barrier textModifier left right

def percentBarrier (left right : Atom u) : Bool := barrier percentModifier left right

def classifyDetail (left right : Atom u) (groups : List SiblingGroup) (sameQname atomTarget : Bool)
    (diff : Finset String) : Tier × Rule :=
  if left = right then
    if sameQname || atomTarget || left.modifiers ≠ ∅ then (.exact, .equality)
    else (.near, .bareHeadEquality)
  else if left.head ≠ right.head then (.unrelated, .none)
  else if textBarrier left right then (.unrelated, .textBarrier)
  else if percentBarrier left right then (.unrelated, .percentBarrier)
  else if diff = {aggregateModifier} then (.near, .aggregateWidening)
  else if diff.card = 1 then (.near, .singleModifierDifference)
  else if left.isA right ∨ right.isA left then (.near, .subsumption)
  else if siblingSwap left right groups diff then (.near, .siblingSwap)
  else (.unrelated, .none)

def subsumptionDirection (target candidate : Atom u) : Direction :=
  if target.isA candidate ∧ ¬ candidate.isA target then .generalization
  else if candidate.isA target ∧ ¬ target.isA candidate then .specialization
  else .none

/-! ## Presumed atoms -/

def axisMembers (groups : List SiblingGroup) (entry : DefaultCoordinate) : Finset String :=
  match groups.find? fun group => group.group = entry.axis with
  | some group => group.members.toFinset
  | none =>
    match groups.find? fun group => entry.presumedModifier ∈ group.members with
    | some group => group.members.toFinset
    | none => ∅

def presumedAtom (atom : Atom u) (groups : List SiblingGroup) : List DefaultCoordinate → Atom u
  | [] => atom
  | entry :: defaults =>
    if entry.head ≠ atom.head then presumedAtom atom groups defaults
    else if ¬ Disjoint atom.modifiers (axisMembers groups entry) then presumedAtom atom groups defaults
    else if atom.modifiers = entry.identityModifiers.toFinset then
      Atom.new u atom.head (atom.modifiers ∪ {entry.presumedModifier})
    else presumedAtom atom groups defaults

def horizonMembers (groups : List SiblingGroup) : Finset String :=
  match groups.find? fun group => group.group = horizonAxis with
  | some group => group.members.toFinset
  | none => horizonFallback

structure Hints where
  derivedHorizon : Option String
  placementHorizon : Option String
  deriving DecidableEq, Repr

def Hints.isSilent (hints : Hints) : Bool :=
  hints.derivedHorizon.isNone && hints.placementHorizon.isNone

def filingLocal (atom : Atom u) (hints : Hints) (members : Finset String) : Atom u :=
  match hints.placementHorizon with
  | none => atom
  | some placement =>
    if ¬ Disjoint atom.modifiers members then atom
    else if hints.derivedHorizon.isSome then atom
    else if placement ∉ members then atom
    else Atom.new u atom.head (atom.modifiers ∪ {placement})

def defaultAtom (atom : Atom u) (defaults : List DefaultCoordinate) (groups : List SiblingGroup) :
    Atom u × Rung :=
  let presumed := presumedAtom atom groups defaults
  if presumed ≠ atom then (presumed, .default) else (atom, .none)

def ladderAtom (atom : Atom u) (defaults : List DefaultCoordinate) (groups : List SiblingGroup)
    (hints : Hints) : Atom u × Rung :=
  let members := horizonMembers groups
  if Disjoint atom.modifiers members then
    match hints.derivedHorizon.filter (· ∈ members) with
    | some derived => (Atom.new u atom.head (atom.modifiers ∪ {derived}), .derived)
    | none =>
      let placed := filingLocal atom hints members
      if placed ≠ atom then (placed, .filingLocal) else defaultAtom atom defaults groups
  else defaultAtom atom defaults groups

/-! ## The ladder -/

section Ladder
variable (shipped : Shipped u) (target candidate : Atom u) (defaults : List DefaultCoordinate)
  (siblingGroups : Option (List GroupArgument)) (targetHints candidateHints : Hints)
  (sameQname atomTarget : Bool) (relations : Option (List (AtomRelation u)))

def presumedRegime : Bool := defaults ≠ [] || !targetHints.isSilent || !candidateHints.isSilent

def ladderVerdict (targetSide candidateSide : Atom u × Rung) (groups : List SiblingGroup)
    (diff : Finset String) : Option (Rule × Bool × Bool) :=
  let verdict := classifyDetail targetSide.1 candidateSide.1 groups false false diff
  if verdict.1 = .near then
    let viaFilingLocal := targetSide.2 = .filingLocal ∨ candidateSide.2 = .filingLocal
    let viaDefault := targetSide.2 = .default ∨ candidateSide.2 = .default
    some (if viaDefault then .viaDefault else if viaFilingLocal then .viaFilingLocal else verdict.2,
      viaDefault, viaFilingLocal)
  else none

def fullLadder : LadderClassification :=
  let groups := resolveGroups shipped.groups siblingGroups
  let statedDiff := symmDiff target.modifiers candidate.modifiers
  let stated := classifyDetail target candidate groups sameQname atomTarget statedDiff
  let targetSide := ladderAtom target defaults groups targetHints
  let candidateSide := ladderAtom candidate defaults groups candidateHints
  let presumedDiff :=
    if presumedRegime defaults targetHints candidateHints = true then
      symmDiff targetSide.1.modifiers candidateSide.1.modifiers
    else statedDiff
  if stated.1 ≠ .unrelated then
    ⟨stated.1, stated.2, false, false, presumedDiff.card, subsumptionDirection target candidate, false⟩
  else
    match ladderVerdict targetSide candidateSide groups presumedDiff with
    | some (rule, viaDefault, viaFilingLocal) =>
      ⟨.near, rule, viaDefault, viaFilingLocal, presumedDiff.card,
        subsumptionDirection targetSide.1 candidateSide.1, false⟩
    | none =>
      match dialectBridge target candidate (relations.getD shipped.relations) statedDiff with
      | some distance =>
        ⟨.near, .dialectBridge, false, false, distance, subsumptionDirection target candidate, true⟩
      | none =>
        ⟨.unrelated, stated.2, false, false, presumedDiff.card, subsumptionDirection target candidate,
          false⟩

def classifyLadderPair : LadderClassification :=
  let groups := resolveGroups shipped.groups siblingGroups
  let statedDiff := symmDiff target.modifiers candidate.modifiers
  let stated := classifyDetail target candidate groups sameQname atomTarget statedDiff
  if stated.1 = .unrelated ∧ target.head ≠ candidate.head ∧
      purchaseActModifier ∉ target.modifiers ∧ purchaseActModifier ∉ candidate.modifiers then
    let distance :=
      if presumedRegime defaults targetHints candidateHints = true then
        (symmDiff (ladderAtom target defaults groups targetHints).1.modifiers
          (ladderAtom candidate defaults groups candidateHints).1.modifiers).card
      else statedDiff.card
    ⟨stated.1, stated.2, false, false, distance, .none, false⟩
  else fullLadder shipped target candidate defaults siblingGroups targetHints candidateHints sameQname
    atomTarget relations

end Ladder

/-! ## Heads stay -/

section Heads
variable {groups : List SiblingGroup} {defaults : List DefaultCoordinate}

theorem head_presumedAtom (atom : Atom u) : (presumedAtom atom groups defaults).head = atom.head := by
  induction defaults with
  | nil => rfl
  | cons entry defaults ih =>
    rw [presumedAtom]
    split_ifs
    · exact ih
    · exact Atom.head_new atom _
    · exact ih
    · exact ih

theorem head_filingLocal (atom : Atom u) (hints : Hints) (members : Finset String) :
    (filingLocal atom hints members).head = atom.head := by
  unfold filingLocal
  cases hints.placementHorizon with
  | none => rfl
  | some placement =>
    simp only
    split_ifs
    · rfl
    · exact Atom.head_new atom _
    · rfl
    · rfl

theorem head_defaultAtom (atom : Atom u) : (defaultAtom atom defaults groups).1.head = atom.head := by
  simp only [defaultAtom]
  split_ifs
  · exact head_presumedAtom atom
  · rfl

theorem head_ladderAtom (atom : Atom u) (hints : Hints) :
    (ladderAtom atom defaults groups hints).1.head = atom.head := by
  simp only [ladderAtom]
  split_ifs with hsilent hplaced
  · cases hints.derivedHorizon.filter (· ∈ horizonMembers groups) with
    | some derived => exact Atom.head_new atom _
    | none => exact head_filingLocal atom hints _
  · cases hints.derivedHorizon.filter (· ∈ horizonMembers groups) with
    | some derived => exact Atom.head_new atom _
    | none => exact head_defaultAtom atom
  · exact head_defaultAtom atom

end Heads

/-! ## The two sides -/

section Sides
variable {left right target candidate : Atom u} {groups : List SiblingGroup} {diff : Finset String}
  {sameQname atomTarget : Bool}

theorem barrier_comm (modifier : String) (left right : Atom u) :
    barrier modifier left right = barrier modifier right left := by
  unfold barrier
  exact bne_comm

theorem siblingSwap_comm (hhead : left.head = right.head) :
    siblingSwap left right groups diff = siblingSwap right left groups diff := by
  unfold siblingSwap
  have hshared : left.modifiers ∩ right.modifiers = right.modifiers ∩ left.modifiers :=
    Finset.inter_comm _ _
  rw [hshared, hhead]
  by_cases hcard : diff.card ≠ 2
  · rw [if_pos hcard, if_pos hcard]
  · rw [if_neg hcard, if_neg hcard]
    exact if_congr or_comm rfl rfl

theorem classifyDetail_comm : classifyDetail left right groups sameQname atomTarget diff =
    classifyDetail right left groups sameQname atomTarget diff := by
  unfold classifyDetail
  by_cases hsame : left = right
  · rw [hsame]
  · rw [if_neg hsame, if_neg (Ne.symm hsame)]
    by_cases hhead : left.head = right.head
    · have htext : textBarrier left right = textBarrier right left := barrier_comm _ _ _
      have hpercent : percentBarrier left right = percentBarrier right left := barrier_comm _ _ _
      rw [if_neg (not_not.mpr hhead), if_neg (not_not.mpr hhead.symm), htext, hpercent,
        siblingSwap_comm hhead]
      simp only [or_comm]
    · rw [if_pos hhead, if_pos (Ne.symm hhead)]

theorem classifyDetail_of_head_ne (h : left.head ≠ right.head) :
    classifyDetail left right groups sameQname atomTarget diff = (.unrelated, .none) := by
  have hne : left ≠ right := fun heq => h (congrArg Atom.head heq)
  rw [classifyDetail, if_neg hne, if_pos h]

theorem dialectBridge_comm {relations : List (AtomRelation u)} :
    dialectBridge target candidate relations diff = dialectBridge candidate target relations diff := by
  unfold dialectBridge
  cases bridged relations target candidate <;> cases bridged relations candidate target <;> rfl

theorem dialectBridge_eq_none {relations : List (AtomRelation u)}
    (htarget : purchaseActModifier ∉ target.modifiers)
    (hcandidate : purchaseActModifier ∉ candidate.modifiers) :
    dialectBridge target candidate relations diff = none := by
  simp [dialectBridge, bridged, htarget, hcandidate]

theorem subsumptionDirection_comm :
    subsumptionDirection candidate target = (subsumptionDirection target candidate).opposite := by
  unfold subsumptionDirection
  by_cases htc : target.isA candidate
  · by_cases hct : candidate.isA target
    · simp [htc, hct, Direction.opposite]
    · simp [htc, hct, Direction.opposite]
  · by_cases hct : candidate.isA target
    · simp [htc, hct, Direction.opposite]
    · simp [htc, hct, Direction.opposite]

theorem subsumptionDirection_of_head_ne (h : target.head ≠ candidate.head) :
    subsumptionDirection target candidate = .none := by
  simp [subsumptionDirection, Atom.isA, h, Ne.symm h]

theorem presumedRegime_comm {defaults : List DefaultCoordinate} {targetHints candidateHints : Hints} :
    presumedRegime defaults targetHints candidateHints =
      presumedRegime defaults candidateHints targetHints := by
  unfold presumedRegime
  rw [Bool.or_assoc, Bool.or_assoc, Bool.or_comm (!targetHints.isSilent)]

theorem ladderVerdict_comm {targetSide candidateSide : Atom u × Rung} :
    ladderVerdict targetSide candidateSide groups diff =
      ladderVerdict candidateSide targetSide groups diff := by
  unfold ladderVerdict
  rw [@classifyDetail_comm u targetSide.1]
  simp only [or_comm]

end Sides

section Symmetry
variable (shipped : Shipped u) (target candidate : Atom u) (defaults : List DefaultCoordinate)
  (siblingGroups : Option (List GroupArgument)) (targetHints candidateHints : Hints)
  (sameQname atomTarget : Bool) (relations : Option (List (AtomRelation u)))

theorem fullLadder_comm : fullLadder shipped candidate target defaults siblingGroups candidateHints
    targetHints sameQname atomTarget relations = (fullLadder shipped target candidate defaults
      siblingGroups targetHints candidateHints sameQname atomTarget relations).opposite := by
  have hdiff : symmDiff candidate.modifiers target.modifiers =
      symmDiff target.modifiers candidate.modifiers := symmDiff_comm _ _
  simp only [fullLadder, hdiff]
  -- the presumed atoms of both sides, and their difference
  generalize ladderAtom target defaults _ targetHints = targetSide
  generalize ladderAtom candidate defaults _ candidateHints = candidateSide
  have hpresumed : symmDiff candidateSide.1.modifiers targetSide.1.modifiers =
      symmDiff targetSide.1.modifiers candidateSide.1.modifiers := symmDiff_comm _ _
  rw [@classifyDetail_comm u candidate target, @dialectBridge_comm u candidate target,
    @presumedRegime_comm defaults candidateHints targetHints, hpresumed]
  generalize (if presumedRegime defaults targetHints candidateHints = true then _ else _) = presumedDiff
  rw [@ladderVerdict_comm u _ presumedDiff candidateSide targetSide]
  split_ifs
  · simp only [LadderClassification.opposite]
    rw [subsumptionDirection_comm]
  · cases ladderVerdict targetSide candidateSide _ presumedDiff with
    | some verdict =>
      simp only [LadderClassification.opposite]
      rw [subsumptionDirection_comm]
    | none =>
      cases dialectBridge target candidate _ _ with
      | some distance =>
        simp only [LadderClassification.opposite]
        rw [subsumptionDirection_comm]
      | none =>
        simp only [LadderClassification.opposite]
        rw [subsumptionDirection_comm]

theorem classifyLadderPair_eq_fullLadder :
    classifyLadderPair shipped target candidate defaults siblingGroups targetHints candidateHints
      sameQname atomTarget relations = fullLadder shipped target candidate defaults siblingGroups
        targetHints candidateHints sameQname atomTarget relations := by
  simp only [classifyLadderPair]
  split
  · rename_i hexit
    obtain ⟨hunrelated, hhead, htarget, hcandidate⟩ := hexit
    have hverdict : ∀ groups diff, ladderVerdict (ladderAtom target defaults groups targetHints)
        (ladderAtom candidate defaults groups candidateHints) groups diff = none := by
      intro groups diff
      rw [ladderVerdict, classifyDetail_of_head_ne]
      · rfl
      · rwa [head_ladderAtom, head_ladderAtom]
    simp only [fullLadder]
    rw [hunrelated, if_neg (not_not.mpr rfl), hverdict, dialectBridge_eq_none htarget hcandidate,
      subsumptionDirection_of_head_ne hhead, apply_ite Finset.card]
  · rfl

/-- Exchanging the sides turns the direction around and changes nothing else, and the early exit
gives what the whole ladder would. -/
theorem classifyLadderPair_symmetric :
    classifyLadderPair shipped candidate target defaults siblingGroups candidateHints targetHints
        sameQname atomTarget relations =
      (classifyLadderPair shipped target candidate defaults siblingGroups targetHints candidateHints
        sameQname atomTarget relations).opposite ∧
    classifyLadderPair shipped target candidate defaults siblingGroups targetHints candidateHints
        sameQname atomTarget relations =
      fullLadder shipped target candidate defaults siblingGroups targetHints candidateHints sameQname
        atomTarget relations := by
  constructor
  · rw [classifyLadderPair_eq_fullLadder, classifyLadderPair_eq_fullLadder]
    exact fullLadder_comm shipped target candidate defaults siblingGroups targetHints candidateHints
      sameQname atomTarget relations
  · exact classifyLadderPair_eq_fullLadder shipped target candidate defaults siblingGroups targetHints
      candidateHints sameQname atomTarget relations

end Symmetry
end EdgarSec.Xbrl
