import EdgarSec.Lib.Transition
import EdgarSec.Xbrl.Facts

/-! `build_statement_graph`: the figures a concept reports, and the passes that fill the gaps. -/

namespace EdgarSec.Xbrl
open Lib

/-! ## Nodes and edges -/

inductive NodeBasis where
  | reported
  | derivedExact
deriving DecidableEq

structure StatementNode (A V : Type) where
  conceptQname : String
  atom : A
  label : String
  facts : List (XbrlFact V)
  value : Option V
  values : Dict String V
  yoyChange : Option V
  yoyPct : Option V
  basis : NodeBasis
  derivationPath : List String
deriving DecidableEq

structure StatementEdge (V : Type) where
  parentQname : String
  childQname : String
  weight : V
  order : Option V
deriving DecidableEq

structure StatementGraph (A V : Type) where
  statementType : String
  rootQname : String
  nodes : Dict String (StatementNode A V)
  edges : List (StatementEdge V)
  calculationArcs : List (CalculationArc V)
  years : List String

/-- What the builder asks of the standard library: `date.fromisoformat(text).toordinal()`, which
can raise, and `text.isdigit()`. -/
structure DateText where
  toordinal : String → Option Int
  isdigit : String → Bool

/-- The arguments of `build_statement_graph`, with `decompose_concept(c, lex)[0]` as a function. -/
structure StatementInput (A V : Type) where
  rootConcept : String
  statementType : String
  facts : List (XbrlFact V)
  arcs : List (CalculationArc V)
  atomOf : String → A
  labels : Dict String String
  periodType : Option String
  instantDate : Option String
  endDate : Option String
  year : Option String
  dates : DateText

/-! ## The figures a concept reports -/

/-- `if text` -/
def present (text : Option String) : Bool := text.any (· ≠ "")

def periodRank {V : Type} (dates : DateText) (fact : XbrlFact V) : Int × Int :=
  let span :=
    match fact.startDate, fact.endDate with
    | some start, some stop =>
      if start = "" ∨ stop = "" then 0
      else
        match dates.toordinal stop, dates.toordinal start with
        | some last, some first => last - first
        | _, _ => 0
    | _, _ => 0
  (span, fact.decimals.getD (-1000000000))

/-- `a > b` of two ranks. -/
def outranksRank (a b : Int × Int) : Bool := b.1 < a.1 || (a.1 == b.1 && b.2 < a.2)

section Build
variable {A V : Type}

namespace StatementInput
variable (q : StatementInput A V)

def relevantConcepts : List String := (q.rootConcept :: reachability q.arcs q.rootConcept).dedup

def yearOf (fact : XbrlFact V) : String :=
  let date := if q.periodType = some "instant" then fact.instantDate else fact.endDate
  String.ofList ((date.getD "").toList.take 4)

/-- The facts that the loop over `facts` keeps. -/
def admits (fact : XbrlFact V) : Bool :=
  fact.conceptQname ∈ q.relevantConcepts && fact.dimensions.items.isEmpty &&
    !(present q.year && decide (some (q.yearOf fact) ≠ q.year)) &&
    !(decide (q.periodType = some "instant") && present q.instantDate &&
      decide (fact.instantDate ≠ q.instantDate)) &&
    !(decide (q.periodType = some "duration") && present q.endDate &&
      decide (fact.endDate ≠ q.endDate))

def factsOf (c : String) : List (XbrlFact V) :=
  q.facts.filter fun fact => q.admits fact && fact.conceptQname = c

def sortedYears : List String :=
  (((q.facts.filter q.admits).map q.yearOf).filter fun yr =>
    yr.toList.length = 4 && q.dates.isdigit yr).dedup.insertionSort fun a b => a ≤ b

def selectFact (best : Dict String V × Dict String (Int × Int)) (fact : XbrlFact V) :
    Dict String V × Dict String (Int × Int) :=
  match fact.value.number? with
  | none => best
  | some v =>
    let yr := q.yearOf fact
    let rank := periodRank q.dates fact
    if yr = "" then best
    else if (best.2.get? yr).all (outranksRank rank) then (best.1.set yr v, best.2.set yr rank)
    else best

/-- `values_by_yr` -/
def reportedValues (c : String) : Dict String V :=
  ((q.factsOf c).foldl q.selectFact (Dict.empty, Dict.empty)).1

variable [Zero V] [Sub V] [Div V] [DecidableEq V] (abs : V → V)

def yearOnYear (latest prior : Option V) : Option V × Option V :=
  match latest, prior with
  | some l, some p => (some (l - p), if p ≠ 0 then some ((l - p) / abs p) else none)
  | _, _ => (none, none)

/-- `sorted_years[-2]`, where there are two. -/
def priorYear : Option String := q.sortedYears.dropLast.getLast?

def reportedNode (c : String) : StatementNode A V :=
  let values := q.reportedValues c
  let changes :=
    match q.sortedYears.getLast?, q.priorYear with
    | some latest, some prior => yearOnYear abs (values.get? latest) (values.get? prior)
    | _, _ => (none, none)
  { conceptQname := c
    atom := q.atomOf c
    label := (q.labels.get? c).getD (qnameLocal c)
    facts := q.factsOf c
    value :=
      match q.sortedYears.getLast? with
      | some latest => values.get? latest
      | none => ((q.factsOf c).filterMap fun fact => fact.value.number?).head?
    values := values
    yoyChange := changes.1
    yoyPct := changes.2
    basis := .reported
    derivationPath := [] }

def edges : List (StatementEdge V) :=
  (q.arcs.filter fun arc =>
    arc.parentQname ∈ q.relevantConcepts && arc.childQname ∈ q.relevantConcepts).map fun arc =>
    ⟨arc.parentQname, arc.childQname, arc.weight, arc.order⟩

def childEdges (c : String) : List (StatementEdge V) := q.edges.filter fun e => e.parentQname = c

def accounted (c : String) : Bool :=
  !(q.childEdges c).isEmpty && decide ((q.childEdges c).map StatementEdge.childQname).Nodup

end StatementInput

/-! ## The passes -/

/-- `nodes[c].value` -/
def valueAt (nodes : Dict String (StatementNode A V)) (c : String) : Option V :=
  (nodes.get? c).bind StatementNode.value

/-- `nodes[c].values.get(yr)` -/
def yearAt (nodes : Dict String (StatementNode A V)) (c yr : String) : Option V :=
  (nodes.get? c).bind fun node => node.values.get? yr

section Sum
variable [Zero V] [Add V]

/-- `sum(xs)` -/
def pySum (xs : List V) : V := xs.foldl (· + ·) 0

variable [Mul V]

def yearSum (nodes : Dict String (StatementNode A V)) (children : List (StatementEdge V))
    (yr : String) : Option V :=
  (children.mapM fun e => (yearAt nodes e.childQname yr).map (e.weight * ·)).map pySum

/-- One turn of the loop that fills `comp_years`. -/
def addYear (nodes : Dict String (StatementNode A V)) (children : List (StatementEdge V))
    (found : Dict String V) (yr : String) : Dict String V :=
  match yearSum nodes children yr with
  | some v => found.set yr v
  | none => found

def compYears (nodes : Dict String (StatementNode A V)) (children : List (StatementEdge V))
    (years : List String) : Dict String V :=
  years.foldl (addYear nodes children) Dict.empty

variable [DecidableEq V]

/-- `nodes[c].value or 0.0` -/
def valueOrZero (nodes : Dict String (StatementNode A V)) (c : String) : V :=
  match valueAt nodes c with
  | some v => if v = 0 then 0 else v
  | none => 0

end Sum

namespace StatementInput
variable (q : StatementInput A V)
variable [Zero V] [Add V] [Sub V] [Mul V] [Div V] [DecidableEq V] (abs : V → V)

def derivedNode (nodes : Dict String (StatementNode A V)) (c : String)
    (node : StatementNode A V) : StatementNode A V :=
  let children := q.childEdges c
  let computed := compYears nodes children q.sortedYears
  let changes :=
    match q.sortedYears.getLast?, q.priorYear with
    | some latest, some prior => yearOnYear abs (computed.get? latest) (computed.get? prior)
    | _, _ => (none, none)
  { conceptQname := node.conceptQname
    atom := node.atom
    label := node.label
    facts := node.facts
    value := some (pySum (children.map fun e => e.weight * valueOrZero nodes e.childQname))
    values := if computed.items.isEmpty then node.values else computed
    yoyChange := changes.1
    yoyPct := changes.2
    basis := .derivedExact
    derivationPath := children.map StatementEdge.childQname }

def childrenValued (nodes : Dict String (StatementNode A V)) (c : String) : Bool :=
  q.accounted c && (q.childEdges c).all fun e => (valueAt nodes e.childQname).isSome

def fillItem (state : Dict String (StatementNode A V) × Bool)
    (item : String × StatementNode A V) : Dict String (StatementNode A V) × Bool :=
  if item.2.value.isNone && q.childrenValued state.1 item.1 then
    (state.1.set item.1 (q.derivedNode abs state.1 item.1 item.2), true)
  else state

def fillPass (nodes : Dict String (StatementNode A V)) : Dict String (StatementNode A V) × Bool :=
  nodes.items.foldl (q.fillItem abs) (nodes, false)

def fillPasses : Nat → Dict String (StatementNode A V) → Dict String (StatementNode A V)
  | 0, nodes => nodes
  | n + 1, nodes =>
    if (q.fillPass abs nodes).2 then fillPasses n (q.fillPass abs nodes).1
    else (q.fillPass abs nodes).1

structure Iteration where
  concepts : List String
  perm : concepts.Perm q.relevantConcepts

def reportedNodes (order : q.Iteration) : Dict String (StatementNode A V) :=
  ⟨order.concepts.map fun c => (c, q.reportedNode abs c), by
    rw [List.map_map, Function.comp_def, List.map_id']
    exact order.perm.nodup_iff.mpr (List.nodup_dedup _)⟩

def buildStatementGraph (order : q.Iteration) : StatementGraph A V where
  statementType := q.statementType
  rootQname := q.rootConcept
  nodes := q.fillPasses abs 5 (q.reportedNodes abs order)
  edges := q.edges
  calculationArcs := q.arcs
  years := q.sortedYears

end StatementInput
end Build
end EdgarSec.Xbrl
