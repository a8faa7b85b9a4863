import EdgarSec.Xbrl.Atoms
import EdgarSec.Xbrl.DimensionalResolution
import EdgarSec.Xbrl.Scoping

/-! Accounting identities over the facts of a filing, and the breakdown of a concept. -/

namespace EdgarSec.Xbrl
open Lib Foundation CounterSolver

structure IdentityVerification where
  identityName : String
  formula : String
  lhsValue : ℚ
  rhsValue : ℚ
  discrepancy : ℚ
  passed : Bool
  tolerance : ℚ
deriving DecidableEq

def compareSides (identityName formula : String) (lhs rhs tolerance : ℚ) : IdentityVerification where
  identityName := identityName
  formula := formula
  lhsValue := round4 lhs
  rhsValue := round4 rhs
  discrepancy := round4 (lhs - rhs)
  passed := |round4 (lhs - rhs)| ≤ tolerance
  tolerance := tolerance

/-! ## Slots -/

/-- What `_atom_and_residuals` knows of a name. -/
structure Decomposer (u : UpperCase) where
  atomOf : String → Atom u
  intentResidualsOf : String → Nat

structure Slot (u : UpperCase) where
  atom : Atom u
  acceptSubsumed : Bool

section Slots
variable (u : UpperCase)

def slotAssets : Slot u := ⟨Atom.new u "H_ASSET" ∅, false⟩
def slotLiabilities : Slot u := ⟨Atom.new u "H_LIABILITY" ∅, false⟩
def slotEquity : Slot u := ⟨Atom.new u "H_EQUITY" ∅, false⟩
def slotGrossProfit : Slot u := ⟨Atom.new u "H_INCOME" {"M_GROSS_MARGIN"}, false⟩
def slotRevenue : Slot u := ⟨Atom.new u "H_REVENUE" ∅, true⟩
def slotCostOfRevenue : Slot u := ⟨Atom.new u "H_COST" ∅, true⟩
def slotOperatingIncome : Slot u := ⟨Atom.new u "H_INCOME" {"M_OPERATING"}, false⟩
def slotOperatingExpenses : Slot u := ⟨Atom.new u "H_EXPENSE" {"M_OPERATING"}, false⟩
def slotRdExpense : Slot u := ⟨Atom.new u "H_EXPENSE" {"M_RD"}, false⟩
def slotSmExpense : Slot u := ⟨Atom.new u "H_EXPENSE" ∅, false⟩
def slotGaExpense : Slot u := ⟨Atom.new u "H_EXPENSE" {"M_SGA"}, false⟩

def variantModifier (diluted : Bool) : String := if diluted then "V_DILUTED" else "V_BASIC"

def slotEps (diluted : Bool) : Slot u := ⟨Atom.new u "H_UNIT_RATE" {variantModifier diluted}, false⟩

def slotShares (diluted : Bool) : Slot u :=
  ⟨Atom.new u "H_SHARE" {"M_SHARES_OUTSTANDING", "M_WEIGHTED_AVERAGE", variantModifier diluted}, false⟩

def numeratorTiers : List (Slot u) :=
  [⟨Atom.new u "H_INCOME" {"M_COMMON", "M_NET_BOTTOMLINE"}, true⟩,
    ⟨Atom.new u "H_INCOME" {"M_NET_BOTTOMLINE"}, false⟩,
    ⟨Atom.new u "H_INCOME" ∅, false⟩]

end Slots

/-! ## Matches -/

structure FactContext where
  unit : Option String
  periodType : String
  startDate : Option String
  endDate : Option String
  instantDate : Option String
  dimensions : List (String × String)
deriving DecidableEq

def factContext (fact : XbrlFact ℚ) : FactContext where
  unit := fact.unit
  periodType := fact.periodType
  startDate := fact.startDate
  endDate := fact.endDate
  instantDate := fact.instantDate
  dimensions := (fact.dimensions.sortedBy dimensionLe).items

def uniqueValue (found : List (XbrlFact ℚ)) : Option ℚ :=
  match onlyValue (found.map factContext) with
  | some _ => onlyValue (found.filterMap fun fact => fact.value.number?)
  | none => none

def eligible (periodType : Option String) (fact : XbrlFact ℚ) : Bool :=
  (periodType = none ∨ some fact.periodType = periodType) ∧ fact.dimensions.items = [] ∧
    fact.value.number?.isSome

section Matches
variable {u : UpperCase} (d : Decomposer u)

def slotMatches (facts : List (XbrlFact ℚ)) (slot : Slot u) (periodType : Option String) : List (XbrlFact ℚ) :=
  (facts.filter (eligible periodType)).filter fun fact =>
    d.atomOf fact.conceptQname = slot.atom ∨
      slot.acceptSubsumed ∧ (d.atomOf fact.conceptQname).isA slot.atom

def cleanestFacts (found : List (XbrlFact ℚ)) : List (XbrlFact ℚ) :=
  found.filter fun fact =>
    (found.map fun f => d.intentResidualsOf f.conceptQname).min? = some (d.intentResidualsOf fact.conceptQname)

def slotCleanest (facts : List (XbrlFact ℚ)) (slot : Slot u) (periodType : Option String) : List (XbrlFact ℚ) :=
  cleanestFacts d (slotMatches d facts slot periodType)

def findSlotValue (facts : List (XbrlFact ℚ)) (slot : Slot u) (periodType : Option String) : Option ℚ :=
  uniqueValue (slotCleanest d facts slot periodType)

def findFactValue (facts : List (XbrlFact ℚ)) (conceptQname : String) (periodType : Option String) : Option ℚ :=
  uniqueValue (facts.filter fun fact => fact.conceptQname = conceptQname ∧ eligible periodType fact = true)

/-- `scope.select(list(facts)) if scope else facts` -/
def selectedFacts (scope : Option FactScope) (facts : List (XbrlFact ℚ)) : List (XbrlFact ℚ) :=
  match scope with
  | some scope => scope.select facts
  | none => facts

/-! ## Identities -/

def verifyBalanceSheetIdentity (facts : List (XbrlFact ℚ)) (tolerance : ℚ) : Option IdentityVerification := do
  let assets ← findSlotValue d facts (slotAssets u) (some "instant")
  let liab ← findSlotValue d facts (slotLiabilities u) (some "instant")
  let equity ← findSlotValue d facts (slotEquity u) (some "instant")
  return compareSides "ID_BS_FUNDAMENTAL" "Assets == Liabilities + StockholdersEquity" assets (liab + equity) tolerance

def verifyGrossProfitIdentity (facts : List (XbrlFact ℚ)) (tolerance : ℚ) : Option IdentityVerification := do
  let gp ← findSlotValue d facts (slotGrossProfit u) (some "duration")
  let rev ← findSlotValue d facts (slotRevenue u) (some "duration")
  let cogs ← findSlotValue d facts (slotCostOfRevenue u) (some "duration")
  return compareSides "ID_IS_GROSS_PROFIT" "GrossProfit == Revenues - CostOfRevenue" gp (rev - cogs) tolerance

def opexTotal (facts : List (XbrlFact ℚ)) : Option ℚ :=
  let rnd := (findSlotValue d facts (slotRdExpense u) (some "duration")).getD 0
  let sm := (findSlotValue d facts (slotSmExpense u) (some "duration")).getD 0
  let ga := (findSlotValue d facts (slotGaExpense u) (some "duration")).getD 0
  if rnd = 0 ∧ sm = 0 ∧ ga = 0 then findSlotValue d facts (slotOperatingExpenses u) (some "duration")
  else some (rnd + sm + ga)

def verifyOperatingIncomeIdentity (facts : List (XbrlFact ℚ)) (tolerance : ℚ) : Option IdentityVerification := do
  let opinc ← findSlotValue d facts (slotOperatingIncome u) (some "duration")
  let gp ← findSlotValue d facts (slotGrossProfit u) (some "duration")
  let total ← opexTotal d facts
  if total = 0 then none
  else
    return compareSides "ID_IS_OPERATING_INCOME" "OperatingIncome == GrossProfit - OperatingExpenses" opinc
      (gp - total) tolerance

structure EpsLegs where
  numeratorValue : ℚ
  numeratorFacts : List (XbrlFact ℚ)
  sharesValue : ℚ
  sharesFacts : List (XbrlFact ℚ)

def numeratorFactsOf (facts : List (XbrlFact ℚ)) (diluted : Bool) (tier : Slot u) : List (XbrlFact ℚ) :=
  let found := slotMatches d facts tier (some "duration")
  let sameVariant := found.filter fun fact => variantModifier diluted ∈ (d.atomOf fact.conceptQname).modifiers
  cleanestFacts d (if sameVariant = [] then found else sameVariant)

def epsIdentityLegs (facts : List (XbrlFact ℚ)) (diluted : Bool) : Option EpsLegs := do
  let sharesFacts := slotCleanest d facts (slotShares u diluted) (some "duration")
  let shares ← uniqueValue sharesFacts
  if shares = 0 then none
  else (numeratorTiers u).findSome? fun tier =>
    (uniqueValue (numeratorFactsOf d facts diluted tier)).map fun numerator =>
      ⟨numerator, numeratorFactsOf d facts diluted tier, shares, sharesFacts⟩

def printedTolerance (found : List (XbrlFact ℚ)) : ℚ :=
  match onlyValue ((found.filterMap XbrlFact.decimals).filter fun n => 0 ≤ n) with
  | some decimals => 1 / 2 * (10 : ℚ) ^ (-decimals)
  | none => 1 / 200

def verifyEpsIdentity (facts : List (XbrlFact ℚ)) (tolerance : Option ℚ) (diluted : Bool) :
    Option IdentityVerification := do
  let epsMatches := slotCleanest d facts (slotEps u diluted) (some "duration")
  let eps ← uniqueValue epsMatches
  let legs ← epsIdentityLegs d facts diluted
  let kind := if diluted then "Diluted" else "Basic"
  return compareSides (if diluted then "ID_EPS_DILUTED" else "ID_EPS_BASIC")
    ("EarningsPerShare" ++ kind ++ " == IncomeAttributableToCommon / WeightedAverageShares" ++ kind)
    eps (legs.numeratorValue / legs.sharesValue) (tolerance.getD (printedTolerance epsMatches))

def verifyAllAccountingIdentities (facts : List (XbrlFact ℚ)) (tolerance : ℚ) (scope : Option FactScope) :
    List IdentityVerification :=
  let selected := selectedFacts scope facts
  [verifyBalanceSheetIdentity d selected tolerance, verifyGrossProfitIdentity d selected tolerance,
    verifyOperatingIncomeIdentity d selected tolerance, verifyEpsIdentity d selected none false,
    verifyEpsIdentity d selected none true].filterMap id

end Matches

def memberValue (totalQname axisQname : String) (fact : XbrlFact ℚ) : Option ℚ :=
  if fact.conceptQname = totalQname ∧ axisQname ∈ fact.dimensions.keys then fact.value.number? else none

/-- `qname.split(":")[-1]` -/
def lastPart (qname : String) : String :=
  String.ofList (qname.toList.reverse.takeWhile (· ≠ ':')).reverse

def verifyDimensionalRollup (facts : List (XbrlFact ℚ)) (totalQname axisQname : String) (tolerance : ℚ)
    (scope : Option FactScope) : Option IdentityVerification :=
  let selected := selectedFacts scope facts
  match findFactValue selected totalQname none with
  | none => none
  | some totalVal =>
    match selected.filterMap (memberValue totalQname axisQname) with
    | [] => none
    | value :: more =>
      some (compareSides ("ID_DIM_ROLLUP_" ++ lastPart totalQname)
        ("Total(" ++ totalQname ++ ") == Sum(" ++ axisQname ++ " members)") totalVal (value :: more).sum tolerance)

/-! ## Breakdowns -/

structure GranularComponent where
  identifier : String
  value : ℚ
  weight : ℚ
  memberDimension : Option String
deriving DecidableEq

structure ConceptBreakdown where
  targetConcept : String
  totalValue : Option ℚ
  components : List GranularComponent
  isBalanced : Bool
  discrepancy : ℚ
  signedDiscrepancy : ℚ
deriving DecidableEq

structure PeriodKey where
  periodType : String
  instantDate : Option String
  startDate : Option String
  endDate : Option String
deriving DecidableEq

def periodKeyOf (fact : XbrlFact ℚ) : PeriodKey :=
  ⟨fact.periodType, fact.instantDate, fact.startDate, fact.endDate⟩

structure GeoHierarchyEdge where
  childQname : String
  parentQname : String

def geoParents (edges : List GeoHierarchyEdge) (child : String) : List String :=
  ((edges.filter fun edge => edge.childQname = child).map GeoHierarchyEdge.parentQname).dedup

/-- `is_geo_subsumed` -/
def geoSubsumed (edges : List GeoHierarchyEdge) (child ancestor : String) : Bool :=
  child = ancestor ∨ ancestor ∈ search (geoParents edges) (2 * edges.length + 1) (geoParents edges child) []

def axisComponents (targetLocal axisLocal : String) (fact : XbrlFact ℚ) : List GranularComponent :=
  if qnameLocal fact.conceptQname = targetLocal then
    fact.dimensions.items.filterMap fun entry =>
      if qnameLocal entry.1 = axisLocal then
        fact.value.number?.map fun value => ⟨entry.2, value, 1, some entry.1⟩
      else none
  else []

def unsubsumed (edges : List GeoHierarchyEdge) (components : List GranularComponent) (component : GranularComponent) :
    Bool :=
  !components.any fun other =>
    decide (component.identifier ≠ other.identifier) && geoSubsumed edges component.identifier other.identifier

def prunedComponents (edges : List GeoHierarchyEdge) (components : List GranularComponent) :
    List GranularComponent :=
  if components.filter (unsubsumed edges components) = [] then components
  else components.filter (unsubsumed edges components)

def topCandidate (targetLocal : String) (fact : XbrlFact ℚ) : Option ℚ :=
  if qnameLocal fact.conceptQname = targetLocal ∧ fact.dimensions.items = [] then fact.value.number? else none

def componentSum (components : List GranularComponent) : ℚ := (components.map fun c => c.value * c.weight).sum

def breakdownOf (targetConcept : String) (components : List GranularComponent) (topVal : Option ℚ) :
    ConceptBreakdown where
  targetConcept := targetConcept
  totalValue := topVal
  components := components
  isBalanced := match topVal with
    | none => true
    | some top => round4 |componentSum components - top| < 1
  discrepancy := match topVal with
    | none => 0
    | some top => round4 |componentSum components - top|
  signedDiscrepancy := match topVal with
    | none => 0
    | some top => round4 (top - componentSum components)

def inPeriod (periodKey : Option PeriodKey) (fact : XbrlFact ℚ) : Bool :=
  match periodKey with
  | none => true
  | some key => periodKeyOf fact = key

/-- `breakdown_concept` with an axis. -/
def breakdownOnAxis (edges : List GeoHierarchyEdge) (targetConcept : String) (facts : List (XbrlFact ℚ))
    (axis : String) (periodKey : Option PeriodKey) : ConceptBreakdown :=
  let inside := facts.filter (inPeriod periodKey)
  breakdownOf targetConcept
    (prunedComponents edges (inside.flatMap (axisComponents (qnameLocal targetConcept) (qnameLocal axis))))
    (inside.findSome? (topCandidate (qnameLocal targetConcept)))

def plainValue (fact : XbrlFact ℚ) : Option ℚ := if fact.dimensions.items = [] then fact.value.number? else none

/-- `fact_vals.get(qname, local_fact_vals.get(…))`; of two facts with one name the last counts. -/
def plainValueOf (facts : List (XbrlFact ℚ)) (qname : String) : Option ℚ :=
  let byQname := facts.reverse.findSome? fun fact => if fact.conceptQname = qname then plainValue fact else none
  let byLocal := facts.reverse.findSome? fun fact =>
    if qnameLocal fact.conceptQname = qnameLocal qname then plainValue fact else none
  byQname.or byLocal

def arcsUnder (arcs : List (CalculationArc ℚ)) (targetConcept : String) : List (CalculationArc ℚ) :=
  arcs.filter fun arc =>
    arc.parentQname = targetConcept ∨ qnameLocal arc.parentQname = qnameLocal targetConcept

/-- `breakdown_concept` without an axis. -/
def breakdownOnArcs (targetConcept : String) (facts : List (XbrlFact ℚ)) (arcs : List (CalculationArc ℚ))
    (periodKey : Option PeriodKey) : ConceptBreakdown :=
  let inside := facts.filter (inPeriod periodKey)
  breakdownOf targetConcept
    ((arcsUnder arcs targetConcept).filterMap fun arc =>
      (plainValueOf inside arc.childQname).map fun value => ⟨arc.childQname, value, arc.weight, none⟩)
    (plainValueOf inside targetConcept)

end EdgarSec.Xbrl
