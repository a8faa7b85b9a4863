import EdgarSec.Xbrl.Facts
import EdgarSec.Xbrl.PartitionVerdicts

/-! Facts of one concept in contexts that are finer than a given one, in groups of one axis set.
`_finer_aggregate` accepts the groups one after another against a tolerance that the first one
starts. -/

namespace EdgarSec.Xbrl.CounterSolver
open Lib

/-! ## Keys -/

structure Coordinate where
  accession : String
  periodType : String
  instantDate : Option String
  startDate : Option String
  endDate : Option String
  unit : Option String
deriving DecidableEq

/-- `_context_key`; the dimensions are sorted. -/
structure ContextKey where
  coordinate : Coordinate
  dimensions : List (String × String)
deriving DecidableEq

def ContextKey.axes (context : ContextKey) : List String := context.dimensions.map Prod.fst

def ContextKey.finerThan (context base : ContextKey) : Bool :=
  base.dimensions.all context.dimensions.contains && !context.dimensions.all base.dimensions.contains

structure SemanticKey where
  qname : String
  context : ContextKey
  value : ℚ
deriving DecidableEq

def dimensionLe (a b : String × String) : Prop := a.1 < b.1 ∨ a.1 = b.1 ∧ a.2 ≤ b.2

instance : DecidableRel dimensionLe := fun a b =>
  inferInstanceAs (Decidable (a.1 < b.1 ∨ a.1 = b.1 ∧ a.2 ≤ b.2))

def contextKey (fact : XbrlFact ℚ) : ContextKey where
  coordinate := ⟨fact.accession, fact.periodType, fact.instantDate, fact.startDate, fact.endDate, fact.unit⟩
  dimensions := (fact.dimensions.sortedBy dimensionLe).items

def flatTolerance : ℚ := 1 / 10000

def precisionTolerance (fact : XbrlFact ℚ) : ℚ :=
  match fact.decimals with
  | none => flatTolerance
  | some decimals => 1 / 2 * (10 : ℚ) ^ (-decimals)

structure Figure where
  qname : String
  context : ContextKey
  value : ℚ
  tolerance : ℚ
  tolerance_nonneg : 0 ≤ tolerance

theorem precisionTolerance_nonneg (fact : XbrlFact ℚ) : 0 ≤ precisionTolerance fact := by
  unfold precisionTolerance flatTolerance
  cases fact.decimals <;> positivity

def figureOf (fact : XbrlFact ℚ) : Option Figure :=
  fact.value.number?.map fun v =>
    ⟨fact.conceptQname, contextKey fact, v, precisionTolerance fact, precisionTolerance_nonneg fact⟩

def figures (facts : List (XbrlFact ℚ)) : List Figure := facts.filterMap figureOf

def onlyValue {α : Type} [DecidableEq α] (l : List α) : Option α :=
  match l.dedup with
  | [a] => some a
  | _ => none

/-! ## What the facts are gathered into -/

section Tables
variable (fs : List Figure)

def figuresAt (qname : String) (context : ContextKey) : List Figure :=
  fs.filter fun f => f.qname = qname ∧ f.context = context

/-- The keys of `distinct` in their order. -/
def distinctKeys : List (String × ContextKey) := fromKeys (fs.map fun f => (f.qname, f.context))

def onlyFigure (qname : String) (context : ContextKey) : Option ℚ :=
  onlyValue ((figuresAt fs qname context).map Figure.value)

/-- `values.get`; the inner option is the value, `None` where there are several. -/
def values (qname : String) (context : ContextKey) : Option (Option ℚ) :=
  if figuresAt fs qname context = [] then none else some (onlyFigure fs qname context)

/-- `tolerances.get(…, 0.0001)`: the finest of the tolerances filed. -/
def finest (qname : String) (context : ContextKey) : ℚ :=
  ((figuresAt fs qname context).map Figure.tolerance).toFinset.min.untopD flatTolerance

def qnameByLocal (name : String) (context : ContextKey) : Option String :=
  onlyValue (((distinctKeys fs).filter fun key => qnameLocal key.1 = name ∧ key.2 = context).map Prod.fst)

structure FinerEntry where
  qname : String
  context : ContextKey
  value : ℚ
deriving DecidableEq

def FinerEntry.key (entry : FinerEntry) : SemanticKey := ⟨entry.qname, entry.context, entry.value⟩

def finerEntry (coordinate : Coordinate) (key : String × ContextKey) : Option FinerEntry :=
  if key.2.coordinate = coordinate then (onlyFigure fs key.1 key.2).map fun v => ⟨key.1, key.2, v⟩ else none

/-- `finer.get(coordinate, ())` -/
def finer (coordinate : Coordinate) : List FinerEntry := (distinctKeys fs).filterMap (finerEntry fs coordinate)

def finerAmbiguous (qname : String) (coordinate : Coordinate) (axes : List String) : Bool :=
  (distinctKeys fs).any fun key => key.1 = qname ∧ key.2.coordinate = coordinate ∧ key.2.axes = axes ∧
    onlyFigure fs key.1 key.2 = none

/-! ## Groups -/

structure Group where
  total : ℚ
  spread : ℚ
  keys : Finset SemanticKey
  spread_nonneg : 0 ≤ spread
deriving DecidableEq

theorem finest_nonneg (qname : String) (context : ContextKey) : 0 ≤ finest fs qname context := by
  unfold finest
  cases hmin : ((figuresAt fs qname context).map Figure.tolerance).toFinset.min with
  | top => exact div_nonneg zero_le_one (by norm_num)
  | coe t =>
    have hmem := List.mem_toFinset.mp (Finset.mem_of_min hmin)
    obtain ⟨f, _, rfl⟩ := List.mem_map.mp hmem
    exact f.tolerance_nonneg

def groupOf (entries : List FinerEntry) (axes : List String) : Group :=
  let members := entries.filter fun e => e.context.axes = axes
  { total := (members.map FinerEntry.value).sum
    spread := (members.map fun e => finest fs e.qname e.context).sum
    keys := (members.map FinerEntry.key).toFinset
    spread_nonneg := by
      apply List.sum_nonneg
      intro x hx
      obtain ⟨e, _, rfl⟩ := List.mem_map.mp hx
      exact finest_nonneg fs e.qname e.context }

variable (concept : String) (context : ContextKey)

def finerEntries : List FinerEntry := (finer fs context.coordinate).filter fun e => e.context.finerThan context

def finerQname : Option String :=
  if (finerEntries fs context).any fun e => e.qname = concept then some concept
  else onlyValue (((finerEntries fs context).filter fun e => qnameLocal e.qname = qnameLocal concept).map
    FinerEntry.qname)

def entriesOf (qname : String) : List FinerEntry := (finerEntries fs context).filter fun e => e.qname = qname

def groupsOf (qname : String) : List Group :=
  (fromKeys ((entriesOf fs context qname).map fun e => e.context.axes)).map
    (groupOf fs (entriesOf fs context qname))

/-- The groups that `_finer_aggregate` compares, if it gets to them. -/
def finerGroups : Option (List Group) :=
  (finerQname fs concept context).bind fun qname =>
    if (entriesOf fs context qname).any fun e => finerAmbiguous fs qname context.coordinate e.context.axes then none
    else some (groupsOf fs context qname)

end Tables

/-! ## Merging -/

structure Resolution where
  value : ℚ
  keys : Finset SemanticKey
  balanced : Bool
  spread : ℚ
deriving DecidableEq

def agree (value : ℚ) : ℚ → Finset SemanticKey → List Group → Option Resolution
  | spread, consumed, [] => some ⟨value, consumed, true, spread⟩
  | spread, consumed, group :: groups =>
    if spread + group.spread < |group.total - value| then none
    else agree value (max spread (group.spread + |group.total - value|)) (consumed ∪ group.keys) groups

def mergeGroups : List Group → Option Resolution
  | [] => none
  | group :: groups => agree group.total group.spread ∅ (group :: groups)

def finerAggregate (fs : List Figure) (concept : String) (context : ContextKey) : Option Resolution :=
  (finerGroups fs concept context).bind mergeGroups

end EdgarSec.Xbrl.CounterSolver
