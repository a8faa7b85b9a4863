import EdgarSec.Xbrl.Identities

/-! `evaluate_goal`: a concept from its own fact, from its calculation children, or from the
formulas of its atom. The terms of a formula are derived from formulas in turn; what one term
has entered is kept in a set that the terms below it share. -/

namespace EdgarSec.Xbrl
open Lib Foundation

/-! ## Knowledge -/

/-- An `AtomRelation`, with what the formulas read of it. -/
structure FormulaEdge (u : UpperCase) where
  edgeId : String
  relationType : String
  source : Atom u
  target : Atom u
  algebraicWeight : ℚ
  formulaId : Option String

structure KnowledgeBase (u : UpperCase) where
  atomRelations : Option (List (FormulaEdge u))
  hasLexicon : Bool
  decomposer : Decomposer u
  /-- What the identities decompose names with: the default taxonomy. -/
  identities : Decomposer u
  geographyEdges : List GeoHierarchyEdge
  /-- `float` of a text. -/
  floatOf : String → Option ℚ

/-- `str(atom)` -/
def Atom.str {u : UpperCase} (atom : Atom u) : String :=
  if atom.modifiers = ∅ then "(" ++ atom.head ++ ", ∅)"
  else "(" ++ atom.head ++ ", \x7b" ++ String.intercalate ", " (partOf atom.modifiers) ++ "\x7d)"

structure Formula (u : UpperCase) where
  key : String
  first : FormulaEdge u
  others : List (FormulaEdge u)

namespace Formula
variable {u : UpperCase}

def edges (formula : Formula u) : List (FormulaEdge u) := formula.first :: formula.others

end Formula

section Relations
variable {u : UpperCase}

def isFormulaEdge (edge : FormulaEdge u) : Bool := edge.relationType = "PART_OF" ∨ edge.relationType = "CONTRA_OF"

/-- `formula_id or edge_id` -/
def formulaKey (edge : FormulaEdge u) : String :=
  match edge.formulaId with
  | some key => if key = "" then edge.edgeId else key
  | none => edge.edgeId

/-- `complete_groups`, in the order their keys come up. -/
def completeFormulas (relations : List (FormulaEdge u)) : List (Formula u) :=
  let edges := relations.filter isFormulaEdge
  (fromKeys (edges.map formulaKey)).filterMap fun key =>
    match edges.filter fun edge => formulaKey edge = key with
    | first :: second :: more => some ⟨key, first, second :: more⟩
    | _ => none

end Relations

/-! ## Double counting -/

section DoubleCounting
variable {u : UpperCase} (kb : KnowledgeBase u)

def formulaArcs (selected : List String) : List (CalculationArc ℚ) :=
  match kb.atomRelations, kb.hasLexicon with
  | some relations, true =>
    (relations.filter fun edge =>
      isFormulaEdge edge && decide (edge.source.modifiers ≠ ∅ ∨ edge.target.modifiers ≠ ∅)).filterMap fun edge =>
      match (fromKeys selected).filter (fun c => kb.decomposer.atomOf c = edge.source),
        (fromKeys selected).filter (fun c => kb.decomposer.atomOf c = edge.target) with
      | [child], [parent] =>
        if child ≠ parent then some ⟨qnameLocal parent, qnameLocal child, edge.algebraicWeight, none⟩ else none
      | _, _ => none
  | _, _ => []

def doubleCounting (ancestor descendant : String) : String :=
  "Double-counting: '" ++ ancestor ++ "' is an ancestor of '" ++ descendant ++ "' in calculation DAG"

def pairViolations (arcs : List (CalculationArc ℚ)) : List String → List String
  | [] => []
  | a :: rest =>
    (rest.filterMap fun b =>
      if b ∈ reachability arcs a then some (doubleCounting a b)
      else if a ∈ reachability arcs b then some (doubleCounting b a)
      else none) ++ pairViolations arcs rest

/-- The violations of `verify_non_double_counting`. -/
def violationsOf (selected : List String) (arcs : List (CalculationArc ℚ)) : List String :=
  let localArcs := arcs.map fun arc =>
    (⟨qnameLocal arc.parentQname, qnameLocal arc.childQname, arc.weight, none⟩ : CalculationArc ℚ)
  pairViolations (localArcs ++ formulaArcs kb selected) (selected.map qnameLocal)

def Ancestor (arcs : List (CalculationArc ℚ)) (a b : String) : Prop :=
  Relation.TransGen (Edge (calcChildren arcs)) a b

theorem pairViolations_eq_nil_iff {arcs : List (CalculationArc ℚ)} {l : List String} :
    pairViolations arcs l = [] ↔ l.Pairwise fun a b => ¬ Ancestor arcs a b ∧ ¬ Ancestor arcs b a := by
  induction l with
  | nil => exact iff_of_true rfl List.Pairwise.nil
  | cons a rest ih =>
    rw [pairViolations, List.append_eq_nil_iff, ih, List.pairwise_cons, List.filterMap_eq_nil_iff]
    refine and_congr_left fun _ => forall₂_congr fun b _ => ?_
    rw [Ancestor, Ancestor, ← mem_reachability, ← mem_reachability]
    by_cases hab : b ∈ reachability arcs a
    · simp [hab]
    · by_cases hba : a ∈ reachability arcs b
      · simp [hab, hba]
      · simp [hab, hba]

/-- The arcs that are counted: those of the filing by local names, and those of the formulas. -/
def countedArcs (selected : List String) (arcs : List (CalculationArc ℚ)) : List (CalculationArc ℚ) :=
  (arcs.map fun arc => ⟨qnameLocal arc.parentQname, qnameLocal arc.childQname, arc.weight, none⟩) ++
    formulaArcs kb selected

/-- A selection is let through when no concept of it is above another one, through any number of arcs. -/
theorem violationsOf_eq_nil_iff {selected : List String} {arcs : List (CalculationArc ℚ)} :
    violationsOf kb selected arcs = [] ↔ (selected.map qnameLocal).Pairwise fun a b =>
      ¬ Ancestor (countedArcs kb selected arcs) a b ∧ ¬ Ancestor (countedArcs kb selected arcs) b a :=
  pairViolations_eq_nil_iff

end DoubleCounting

/-! ## Results -/

inductive PathEntry (u : UpperCase) where
  | term (source : Atom u) (value weight : ℚ)
  | solved (key : String) (source : Atom u)
  | violation (text : String)
  | child (childQname : String) (weight : ℚ)
  | component (identifier : String) (value : ℚ)
  | quotient (numerator : String) (numeratorValue : ℚ) (shares : String) (sharesValue : ℚ)

structure AggregateFact (u : UpperCase) where
  measureId : String
  entity : String
  period : String
  unit : String
  value : Option ℚ
  basis : String
  sliceDimensions : List (String × String) := []
  components : List GranularComponent := []
  residual : ℚ := 0
  derivationPath : List (PathEntry u) := []
  breakdown : Option ConceptBreakdown := none
  resolutionTier : String

structure Ask where
  measureId : String
  entity : String
  period : String
  unit : String

structure Resolved (u : UpperCase) where
  value : ℚ
  edge : FormulaEdge u
  identifier : String

structure Attempt (u : UpperCase) where
  canonicalHops : Nat
  violations : List String
  components : List GranularComponent
  total : ℚ
  path : List (PathEntry u)

/-! ## Derivation -/

section Derivation
variable {u : UpperCase} (kb : KnowledgeBase u) (facts : List (XbrlFact ℚ)) (arcs : List (CalculationArc ℚ))

/-- `float(fact.value)` -/
def floatValue (fact : XbrlFact ℚ) : Option ℚ :=
  match fact.value with
  | .number value => some value
  | .text text => kb.floatOf text
  | .missing => none

def matchingFacts (pool : List (XbrlFact ℚ)) (atom : Atom u) (excluded : List String) : List (ℚ × Nat × String) :=
  pool.filterMap fun fact =>
    if fact.dimensions.items ≠ [] ∨ fact.conceptQname ∈ excluded then none
    else (floatValue kb fact).bind fun value =>
      if (kb.decomposer.atomOf fact.conceptQname).isA atom then
        some (value, (kb.decomposer.atomOf fact.conceptQname).modifiers.card, fact.conceptQname)
      else none

def nearestFact (atom : Atom u) (excluded preferred : List String) : Option (ℚ × String) :=
  let inPreferred := matchingFacts kb (facts.filter fun fact => fact.conceptQname ∈ preferred) atom excluded
  let found := if inPreferred = [] then matchingFacts kb facts atom excluded else inPreferred
  (found.insertionSort fun a b => a.2.1 ≤ b.2.1).head?.map fun nearest => (nearest.1, nearest.2.2)

def factQnames : List String := facts.map XbrlFact.conceptQname

def childQnames (parent : String) : List String :=
  (arcs.filter fun arc => arc.parentQname = parent).map CalculationArc.childQname

abbrev Resolver (u : UpperCase) (σ : Type) :=
  Atom u → List String → List String → σ → Option (Option (ℚ × String) × σ)

section Terms
variable {σ : Type} (resolve : Resolver u σ)

def resolveTerms (preferred : List String) :
    List (FormulaEdge u) → List String → σ → Option (Option (List (Resolved u)) × σ)
  | [], _, s => some (some [], s)
  | edge :: rest, consumed, s =>
    match resolve edge.source consumed preferred s with
    | none => none
    | some (none, s) => some (none, s)
    | some (some (value, identifier), s) =>
      match resolveTerms preferred rest
        (if identifier ∈ factQnames facts then identifier :: consumed else consumed) s with
      | none => none
      | some (more, s) => some (more.map fun more => ⟨value, edge, identifier⟩ :: more, s)

def componentOf (resolved : Resolved u) : GranularComponent :=
  ⟨resolved.identifier, resolved.value, resolved.edge.algebraicWeight, none⟩

def weightedSum (resolved : List (Resolved u)) : ℚ := (resolved.map fun r => r.value * r.edge.algebraicWeight).sum

def termEntry (resolved : Resolved u) : PathEntry u :=
  .term resolved.edge.source resolved.value resolved.edge.algebraicWeight

def hopsOf (identifiers : List String) : Nat := identifiers.countP fun identifier => identifier ∉ factQnames facts

def forwardAttempt (resolved : List (Resolved u)) : Attempt u where
  canonicalHops := hopsOf facts (resolved.map Resolved.identifier)
  violations := violationsOf kb (resolved.map Resolved.identifier) arcs
  components := resolved.map componentOf
  total := weightedSum resolved
  path := resolved.map termEntry

def forwardFormulas (target : Atom u) (formulas : List (Formula u)) : List (Formula u) :=
  let forward := formulas.filter fun formula => target.isA formula.first.target
  forward.filter fun formula =>
    (forward.map fun f => f.first.target.modifiers.card).max? = some formula.first.target.modifiers.card

def forwardAttempts (preferred : List String) : List (Formula u) → σ → Option (List (Attempt u) × σ)
  | [], s => some ([], s)
  | formula :: rest, s =>
    match resolveTerms facts resolve preferred formula.edges [] s with
    | none => none
    | some (resolved, s) =>
      match forwardAttempts preferred rest s with
      | none => none
      | some (more, s) => some ((resolved.map (forwardAttempt kb facts arcs)).toList ++ more, s)

def targetEdge (target : Atom u) (formula : Formula u) : Option (FormulaEdge u) :=
  if target.isA formula.first.target then none
  else
    match formula.edges.filter fun edge => target.isA edge.source with
    | [edge] => if edge.algebraicWeight ≠ 0 then some edge else none
    | _ => none

def inverseCandidates (target : Atom u) (formulas : List (Formula u)) : List (Formula u × FormulaEdge u) :=
  let candidates := formulas.filterMap fun formula => (targetEdge target formula).map fun edge => (formula, edge)
  candidates.filter fun candidate =>
    (candidates.map fun c => c.2.source.modifiers.card).max? = some candidate.2.source.modifiers.card

def solvable (target : Atom u) (targetConcept totalId : String) : Bool :=
  decide (totalId ∈ factQnames facts) && decide (kb.decomposer.atomOf totalId ≠ target) &&
    arcs.any fun arc => arc.parentQname = totalId ∧ arc.childQname = targetConcept

def inverseAttempt (formula : Formula u) (edge : FormulaEdge u) (totalValue : ℚ) (totalId : String)
    (others : List (Resolved u)) : Attempt u where
  canonicalHops := hopsOf facts (totalId :: others.map Resolved.identifier)
  violations := violationsOf kb (others.map Resolved.identifier) arcs
  components := ⟨totalId, totalValue, 1, none⟩ :: others.map componentOf
  total := (totalValue - weightedSum others) / edge.algebraicWeight
  path := .solved formula.key edge.source :: .term formula.first.target totalValue 1 :: others.map termEntry

def inverseAttempts (target : Atom u) (targetConcept : String) :
    List (Formula u × FormulaEdge u) → σ → Option (List (Attempt u) × σ)
  | [], s => some ([], s)
  | (formula, edge) :: rest, s =>
    match resolve formula.first.target [] [] s with
    | none => none
    | some (none, s) => inverseAttempts target targetConcept rest s
    | some (some (totalValue, totalId), s) =>
      if solvable kb facts arcs target targetConcept totalId then
        match resolveTerms facts resolve (childQnames arcs totalId)
          (formula.edges.filter fun other => ¬ target.isA other.source) [totalId] s with
        | none => none
        | some (others, s) =>
          match inverseAttempts target targetConcept rest s with
          | none => none
          | some (more, s) =>
            some ((others.map (inverseAttempt kb facts arcs formula edge totalValue totalId)).toList ++ more, s)
      else inverseAttempts target targetConcept rest s

def chooseAttempt (ask : Ask) (attempts : List (Attempt u)) : Option (AggregateFact u) :=
  let sorted := attempts.insertionSort fun a b => a.canonicalHops ≤ b.canonicalHops
  match sorted.find? fun attempt => attempt.violations = [], sorted with
  | some attempt, _ =>
    some { measureId := ask.measureId, entity := ask.entity, period := ask.period, unit := ask.unit
           value := some (CounterSolver.round4 attempt.total), basis := "DERIVED_EXACT"
           components := attempt.components, derivationPath := attempt.path
           resolutionTier := "SUBATOMIC_ALGEBRAIC_IDENTITY" }
  | none, attempt :: _ =>
    some { measureId := ask.measureId, entity := ask.entity, period := ask.period, unit := ask.unit
           value := none, basis := "CONFLICT_DOUBLE_COUNTING", components := attempt.components
           derivationPath := attempt.violations.map .violation, resolutionTier := "ANTICHAIN_CONFLICT" }
  | none, [] => none

/-- `_derive_atom`, with the way its terms are resolved. -/
def deriveWith (target : Atom u) (ask : Ask) (s : σ) : Option (Option (AggregateFact u) × σ) :=
  match kb.atomRelations, kb.hasLexicon with
  | some relations, true =>
    match forwardAttempts kb facts arcs resolve (childQnames arcs ask.measureId)
      (forwardFormulas target (completeFormulas relations)) s with
    | none => none
    | some (forward, s) =>
      match inverseAttempts kb facts arcs resolve target ask.measureId
        (inverseCandidates target (completeFormulas relations)) s with
      | none => none
      | some (inverse, s) => some (chooseAttempt ask (forward ++ inverse), s)
  | _, _ => some (none, s)

end Terms

structure Trail (u : UpperCase) where
  visited : List String
  entered : List (Atom u)

/-- `_resolve_atom_value` of a term, with the way its atom is derived. -/
def resolveAtomValue (derive : Atom u → Ask → Trail u → Option (Option (AggregateFact u) × Trail u)) :
    Resolver u (Trail u) := fun atom excluded preferred trail =>
  if kb.hasLexicon then
    match nearestFact kb facts atom excluded preferred with
    | some found => some (some found, trail)
    | none =>
      if atom.str ∈ trail.visited then some (none, trail)
      else
        match derive atom ⟨atom.str, "", "", "USD"⟩ ⟨trail.visited ++ [atom.str], trail.entered ++ [atom]⟩ with
        | none => none
        | some (subAggregate, trail) =>
          some ((subAggregate.bind AggregateFact.value).map fun value => (value, atom.str), trail)
  else some (none, trail)

/-- `_derive_atom` below a term, with a bound on the depth. -/
def deriveAtom : Nat → Atom u → Ask → Trail u → Option (Option (AggregateFact u) × Trail u)
  | 0, _, _, _ => none
  | n + 1, target, ask, trail =>
    deriveWith kb facts arcs (resolveAtomValue kb facts (deriveAtom n)) target ask trail

def topResolver (n : Nat) : Resolver u (List (Trail u)) := fun atom excluded preferred trails =>
  match resolveAtomValue kb facts (deriveAtom kb facts arcs n) atom excluded preferred ⟨[], []⟩ with
  | none => none
  | some (result, trail) => some (result, trails ++ [trail])

/-- `_derive_atom` as `evaluate_goal` calls it, with the trails of the terms. -/
def deriveGoal (n : Nat) (target : Atom u) (ask : Ask) (visited : Option (List String)) :
    Option (Option (AggregateFact u) × List (Trail u)) :=
  match visited with
  | none => deriveWith kb facts arcs (topResolver kb facts arcs n) target ask []
  | some visited =>
    match deriveWith kb facts arcs (resolveAtomValue kb facts (deriveAtom kb facts arcs n)) target ask ⟨visited, []⟩ with
    | none => none
    | some (result, trail) => some (result, [trail])

end Derivation

/-! ## Goals -/

section Goals
variable {u : UpperCase} (kb : KnowledgeBase u) (facts : List (XbrlFact ℚ)) (arcs : List (CalculationArc ℚ))

def sliceGoal (ask : Ask) (axis : String) : Option (AggregateFact u) :=
  let breakdown := breakdownOnAxis kb.geographyEdges ask.measureId facts axis none
  if breakdown.components = [] then none
  else
    some { measureId := ask.measureId, entity := ask.entity, period := ask.period, unit := ask.unit
           value := some (CounterSolver.round4 (componentSum breakdown.components)), basis := "DERIVED_EXACT"
           sliceDimensions := [(axis, "*")], components := breakdown.components, residual := breakdown.discrepancy
           derivationPath := breakdown.components.map fun c => .component c.identifier c.value
           breakdown := some breakdown, resolutionTier := "DIMENSIONAL_ANTICHAIN_SUM" }

def equivalentConcepts (concept : String) : List String := fromKeys [concept, qnameLocal concept]

def directValue (targetConcept : String) : Option (ℚ × String) :=
  let own := (plainValueOf facts targetConcept).map fun value => (value, targetConcept)
  let equivalent := (equivalentConcepts (qnameLocal targetConcept)).findSome? fun candidate =>
    (plainValueOf facts candidate).map fun value => (value, candidate)
  let sameAtom := facts.findSome? fun fact =>
    if kb.decomposer.atomOf fact.conceptQname = kb.decomposer.atomOf targetConcept then
      (plainValue fact).map fun value => (value, fact.conceptQname)
    else none
  (own.or equivalent).or (if kb.hasLexicon then sameAtom else none)

def directGoal (ask : Ask) (value : ℚ) (resolvedConcept : String) : AggregateFact u :=
  let breakdown := breakdownOnArcs resolvedConcept facts arcs none
  let violations := violationsOf kb (breakdown.components.map GranularComponent.identifier) arcs
  let fact : AggregateFact u :=
    { measureId := ask.measureId, entity := ask.entity, period := ask.period, unit := ask.unit
      value := some value, basis := "REPORTED", components := breakdown.components
      residual := breakdown.discrepancy, breakdown := some breakdown, resolutionTier := "DIRECT_ANCHOR" }
  if violations ≠ [] then
    { fact with basis := "CONFLICT_DOUBLE_COUNTING", derivationPath := violations.map .violation
                resolutionTier := "ANTICHAIN_CONFLICT" }
  else if breakdown.components = [] then fact
  else { fact with basis := if breakdown.isBalanced then "REPORTED_VERIFIED" else "CONFLICT" }

def isNil (fact : XbrlFact ℚ) : Bool := fact.dimensions.items = [] ∧ fact.value.number? = none

def childValues : List (CalculationArc ℚ) → Option (List (CalculationArc ℚ × ℚ))
  | [] => some []
  | arc :: rest =>
    match plainValueOf facts arc.childQname with
    | some value => (childValues rest).map fun more => (arc, value) :: more
    | none =>
      if facts.any fun fact => isNil fact && decide (qnameLocal fact.conceptQname = qnameLocal arc.childQname) then
        childValues rest
      else none

def childGoal (ask : Ask) : Option (AggregateFact u) :=
  match childValues facts (arcsUnder arcs ask.measureId) with
  | none | some [] => none
  | some values =>
    let breakdown := breakdownOnArcs ask.measureId facts arcs none
    let violations := violationsOf kb ((arcsUnder arcs ask.measureId).map CalculationArc.childQname) arcs
    let fact : AggregateFact u :=
      { measureId := ask.measureId, entity := ask.entity, period := ask.period, unit := ask.unit
        value := some (CounterSolver.round4 (values.map fun v => v.2 * v.1.weight).sum), basis := "DERIVED_EXACT"
        components := breakdown.components, residual := breakdown.discrepancy
        derivationPath := values.map fun v => .child v.1.childQname v.1.weight
        breakdown := some breakdown, resolutionTier := "DERIVED_MULTI_HOP" }
    if violations = [] then some fact
    else
      some { fact with value := none, basis := "CONFLICT_DOUBLE_COUNTING"
                       derivationPath := violations.map .violation, resolutionTier := "ANTICHAIN_CONFLICT" }

def epsDiluted (atom : Atom u) : Option Bool :=
  if atom = (slotEps u true).atom then some true
  else if atom = (slotEps u false).atom then some false
  else none

def epsGoal (ask : Ask) (target : Atom u) : Option (AggregateFact u) := do
  let diluted ← epsDiluted target
  let legs ← epsIdentityLegs kb.identities facts diluted
  let numerator ← legs.numeratorFacts.head?
  let shares ← legs.sharesFacts.head?
  return { measureId := ask.measureId, entity := ask.entity, period := ask.period, unit := ask.unit
           value := some (CounterSolver.round4 (legs.numeratorValue / legs.sharesValue)), basis := "DERIVED_EXACT"
           components := [⟨numerator.conceptQname, legs.numeratorValue, 1, none⟩]
           derivationPath :=
             [.quotient numerator.conceptQname legs.numeratorValue shares.conceptQname legs.sharesValue]
           resolutionTier := "ACCOUNTING_IDENTITY" }

def unresolvedGoal (ask : Ask) : AggregateFact u :=
  { measureId := ask.measureId, entity := ask.entity, period := ask.period, unit := ask.unit
    value := none, basis := "NOT_AVAILABLE", resolutionTier := "UNRESOLVED" }

def filedGoal (ask : Ask) (axisFilter : Option String) : Option (AggregateFact u) :=
  let direct := (directValue kb facts ask.measureId).map fun found => directGoal kb facts arcs ask found.1 found.2
  ((axisFilter.bind (sliceGoal kb facts ask)).or direct).or (childGoal kb facts arcs ask)

/-- `evaluate_goal` with a bound on the depth; the trails are those of the terms of the first
formulas. -/
def evaluateGoal (n : Nat) (ask : Ask) (axisFilter : Option String) (visited : Option (List String)) :
    Option (AggregateFact u × List (Trail u)) :=
  match filedGoal kb facts arcs ask axisFilter with
  | some fact => some (fact, [])
  | none =>
    if kb.hasLexicon then
      let target := kb.decomposer.atomOf ask.measureId
      match deriveGoal kb facts arcs n target ask visited with
      | none => none
      | some (derived, trails) =>
        some ((derived.or (epsGoal kb facts ask target)).getD (unresolvedGoal ask), trails)
    else some (unresolvedGoal ask, [])

end Goals
end EdgarSec.Xbrl
