import EdgarSec.Lib.Outcome
import EdgarSec.Lib.Query

/-! Set expressions over cohorts. A tree of unions, intersections and differences is compiled to
one query with a common table expression for each node, or evaluated bottom up with one set
operation after the other, each reading the dataset the one before has written. -/

namespace EdgarSec.Cohort
open Lib

/-! ## Expressions -/

inductive SetOpKind where
  | union
  | intersect
  | difference
deriving DecidableEq

inductive ExprNode where
  | cohortRef (cohortIdentifier : String)
  | binaryOp (left right : ExprNode) (op : SetOpKind)

/-! ## Datasets -/

structure RosterRow where
  ordinal : Int
  cikPadded : String
  name : String
deriving DecidableEq

/-- `printf('%010d', cik_value)` -/
def padCik (value : Nat) : String := String.ofList ((Nat.toDigits 10 value).leftpad 10 '0')

/-- `valid_cik` -/
def ValidCik (value : Nat) : Prop := 1 ≤ value ∧ value ≤ 9999999999

/-- `try_cast(cik_padded AS BIGINT)`: decimal digits are their number, leading zeros included. -/
structure BigintCast where
  cast : String → Option Int
  cast_padCik : ∀ value : Nat, ValidCik value → cast (padCik value) = some (value : Int)

/-- The rows of a canonical dataset: one for each CIK, numbered in the order of the CIKs. -/
structure Canonical (rows : List RosterRow) : Prop where
  ciks : ∃ values : List Nat, values.Pairwise (· < ·) ∧ (∀ v ∈ values, ValidCik v) ∧
    rows.map (·.cikPadded) = values.map padCik
  ordinals : rows.map (·.ordinal) = (List.range rows.length).map Int.ofNat

structure Roster where
  rows : List RosterRow
  canonical : Canonical rows

/-! ## Ingestion -/

/-- SQL's `trim`: spaces on both sides. -/
def trimSpaces (cs : List Char) : List Char :=
  ((cs.dropWhile (· = ' ')).reverse.dropWhile (· = ' ')).reverse

/-- `cik_value` of a row that is `valid_cik`. -/
def typedCik (raw : List Char) : Option Nat :=
  let digits := trimSpaces raw
  if 1 ≤ digits.length ∧ digits.length ≤ 10 ∧ digits.all Char.isDigit then
    let value := Nat.ofDigitChars 10 digits 0
    if 1 ≤ value ∧ value ≤ 9999999999 then some value else none
  else none

/-- `_canonical_query`: the rows come as they were read, a CIK and a name each. -/
def canonicalQuery (choice : Choice) (rows : List (String × String)) : List RosterRow :=
  let typed := rows.filterMap fun row => (typedCik row.1.toList).map fun value => (value, trimSpaces row.2.toList)
  (choice.sort (fun a b => decide (a ≤ b)) (typed.map (·.1)).dedup).zipIdx.map fun g =>
    let named := typed.find? fun row => row.1 = g.1 ∧ row.2 ≠ []
    ⟨g.2, padCik g.1, (named.map fun row => String.ofList row.2).getD ""⟩

theorem validCik_of_typedCik {raw : List Char} {value : Nat} (h : typedCik raw = some value) : ValidCik value := by
  unfold typedCik at h
  dsimp only at h
  split at h
  · split at h
    · rename_i hrange
      cases h
      exact hrange
    · cases h
  · cases h

theorem map_zipIdx_fst {α β : Type} (f : α → β) (l : List α) : (l.zipIdx.map fun g => f g.1) = l.map f := by
  conv_rhs => rw [← List.zipIdx_map_fst 0 l]
  rw [List.map_map]
  rfl

theorem map_zipIdx_snd {α : Type} (l : List α) :
    (l.zipIdx.map fun g => (g.2 : Int)) = (List.range l.length).map Int.ofNat := by
  refine List.ext_getElem (by simp) fun i hi hi' => ?_
  simp

/-- What ingestion writes is a canonical dataset. -/
theorem canonical_canonicalQuery (choice : Choice) (rows : List (String × String)) :
    Canonical (canonicalQuery choice rows) := by
  unfold canonicalQuery
  generalize htyped : (rows.filterMap fun row =>
    (typedCik row.1.toList).map fun value => (value, trimSpaces row.2.toList)) = typed
  dsimp only
  generalize hvalues : choice.sort (fun a b => decide (a ≤ b)) (typed.map (·.1)).dedup = values
  have hperm : values.Perm (typed.map (·.1)).dedup := hvalues ▸ choice.sort_perm _ _
  have hle : values.Pairwise (· ≤ ·) := by
    rw [← hvalues]
    exact (choice.pairwise_sort SortOrder.of_le _).imp of_decide_eq_true
  have hnodup : values.Nodup := hperm.nodup_iff.mpr (List.nodup_dedup _)
  constructor
  · refine ⟨values, (hle.and hnodup).imp fun ⟨hab, hne⟩ => lt_of_le_of_ne hab hne, ?_, ?_⟩
    · intro v hv
      have hin := List.mem_dedup.mp (hperm.mem_iff.mp hv)
      rw [← htyped] at hin
      obtain ⟨row, hrow, rfl⟩ := List.mem_map.mp hin
      obtain ⟨raw, -, hraw⟩ := List.mem_filterMap.mp hrow
      obtain ⟨value, hvalue, rfl⟩ := Option.map_eq_some_iff.mp hraw
      exact validCik_of_typedCik hvalue
    · rw [List.map_map]
      exact map_zipIdx_fst padCik values
  · rw [List.map_map, List.length_map, List.length_zipIdx]
    exact map_zipIdx_snd values

/-! ## The query of a set operation -/

/-- A row of `eligible`. -/
structure EligibleRow where
  cikPadded : String
  name : String
  side : Nat

def selectSide (side : Nat) (rows : List RosterRow) : List EligibleRow :=
  rows.map fun row => ⟨row.cikPadded, row.name, side⟩

def hasCik (rows : List RosterRow) (cik : String) : Bool := rows.any fun row => row.cikPadded = cik

/-- `SEMI JOIN … USING (cik_padded)` -/
def semiJoin (rows others : List RosterRow) : List RosterRow := rows.filter fun row => hasCik others row.cikPadded

/-- `ANTI JOIN … USING (cik_padded)` -/
def antiJoin (rows others : List RosterRow) : List RosterRow := rows.filter fun row => !hasCik others row.cikPadded

/-- `_ELIGIBLE` -/
def eligible : SetOpKind → List RosterRow → List RosterRow → List EligibleRow
  | .union, left, right => selectSide 0 left ++ selectSide 1 right
  | .intersect, left, right => selectSide 0 (semiJoin left right) ++ selectSide 1 (semiJoin right left)
  | .difference, left, right => selectSide 0 (antiJoin left right)

/-- `coalesce(arg_min(nullif(name, ''), side), '')`: rows without a name are passed over. -/
def firstName (choice : Choice) (rows : List EligibleRow) : String :=
  ((choice.pick (leading (fun a b => decide (a.side ≤ b.side)) (rows.filter fun row => row.name ≠ ""))).map
    (·.name)).getD ""

/-- `GROUP BY cik_padded`: the groups come in any order. -/
def grouped (choice : Choice) (rows : List EligibleRow) : List (String × String) :=
  (choice.sort (fun _ _ => true) (rows.map (·.cikPadded)).dedup).map fun cik =>
    (cik, firstName choice (rows.filter fun row => row.cikPadded = cik))

/-- `ORDER BY try_cast(cik_padded AS BIGINT)`; what is no number comes last. -/
def castBefore (ints : BigintCast) (a b : String × String) : Bool :=
  match ints.cast a.1, ints.cast b.1 with
  | _, none => true
  | none, some _ => false
  | some m, some n => m ≤ n

/-- `row_number() OVER (…) - 1` -/
def numbered (ints : BigintCast) (choice : Choice) (op : SetOpKind) (left right : List RosterRow) : List RosterRow :=
  (choice.sort (castBefore ints) (grouped choice (eligible op left right))).zipIdx.map fun g => ⟨g.2, g.1.1, g.1.2⟩

/-- `ORDER BY ordinal` -/
def byOrdinal (choice : Choice) (rows : List RosterRow) : List RosterRow :=
  choice.sort (fun a b => decide (a.ordinal ≤ b.ordinal)) rows

/-- What the output dataset holds. -/
def executeSetOperation (ints : BigintCast) (choice : Choice) (op : SetOpKind) (left right : List RosterRow) :
    List RosterRow :=
  byOrdinal choice (numbered ints choice op left right)

/-! ## The two ways to evaluate a tree -/

/-- The catalog and the dataset files. -/
structure CohortSource where
  resolve : String → Except String String
  dataset : String → Option Roster

def CohortSource.read (source : CohortSource) (identifier : String) : Except String (String × Roster) := do
  let path ← source.resolve identifier
  match source.dataset path with
  | none => .error path
  | some roster => .ok (path, roster)

/-- Bottom up: one set operation after the other. -/
def evaluate (ints : BigintCast) (choice : Choice) (source : CohortSource) : ExprNode → Except String (List RosterRow)
  | .cohortRef identifier => (source.read identifier).map fun found => found.2.rows
  | .binaryOp left right op => do
    let a ← evaluate ints choice source left
    let b ← evaluate ints choice source right
    .ok (executeSetOperation ints choice op a b)

/-- The body of a common table expression. -/
inductive Body where
  | readParquet (dataset : String)
  | combine (op : SetOpKind) (left right : String)

structure CompileState where
  definitions : List (String × Body)
  nextName : Nat
  nodeCount : Nat

structure CompiledQuery where
  definitions : List (String × Body)
  root : String

def exprName (n : Nat) : String := "cohort_expr_" ++ String.ofList (Nat.toDigits 10 n)

def compileNode (source : CohortSource) : ExprNode → CompileState → Except String (String × CompileState)
  | current, s =>
    if 256 < s.nodeCount + 1 then .error "cohort expression is too complex"
    else
      let name := exprName s.nextName
      let opened : CompileState := { s with nextName := s.nextName + 1, nodeCount := s.nodeCount + 1 }
      match current with
      | .cohortRef identifier => do
        let found ← source.read identifier
        .ok (name, { opened with definitions := opened.definitions ++ [(name, .readParquet found.1)] })
      | .binaryOp left right op => do
        let l ← compileNode source left opened
        let r ← compileNode source right l.2
        .ok (name, { r.2 with definitions := r.2.definitions ++ [(name, .combine op l.1 r.1)] })

def compileAstToSql (source : CohortSource) (node : ExprNode) : Except String CompiledQuery := do
  let compiled ← compileNode source node ⟨[], 0, 0⟩
  .ok ⟨compiled.2.definitions, compiled.1⟩

abbrev Tables := List (String × List RosterRow)

def runBody (ints : BigintCast) (choice : Choice) (source : CohortSource) (tables : Tables) :
    Body → Option (List RosterRow)
  | .readParquet dataset => (source.dataset dataset).map (·.rows)
  | .combine op left right => do
    let a ← tables.lookup left
    let b ← tables.lookup right
    some (numbered ints choice op a b)

/-- `WITH`: a definition sees those before it. -/
def runDefinitions (ints : BigintCast) (choice : Choice) (source : CohortSource) : List (String × Body) → Tables → Option Tables
  | [], tables => some tables
  | (name, body) :: rest, tables => do
    let rows ← runBody ints choice source tables body
    runDefinitions ints choice source rest (tables ++ [(name, rows)])

def execute (ints : BigintCast) (choice : Choice) (source : CohortSource) (query : CompiledQuery) : Option (List RosterRow) := do
  let tables ← runDefinitions ints choice source query.definitions []
  let rows ← tables.lookup query.root
  some (byOrdinal choice rows)

/-! ## Rosters as partial maps

What a dataset says of a CIK: whether it is in the cohort, and under which name. -/

def namesOf (rows : List RosterRow) (cik : String) : Option String :=
  (rows.find? fun row => row.cikPadded = cik).map (·.name)

/-- The name on the left, unless it is empty. -/
def preferLeft (a b : String) : String := if a = "" then b else a

def combineNames : SetOpKind → Option String → Option String → Option String
  | .union, some a, some b => some (preferLeft a b)
  | .union, some a, none => some a
  | .union, none, b => b
  | .intersect, some a, some b => some (preferLeft a b)
  | .intersect, _, _ => none
  | .difference, a, none => a
  | .difference, _, some _ => none

def CohortSource.leaf (source : CohortSource) (identifier : String) : String → Option String :=
  match source.read identifier with
  | .ok found => namesOf found.2.rows
  | .error _ => fun _ => none

/-- The meaning of a tree. -/
def denote (source : CohortSource) : ExprNode → String → Option String
  | .cohortRef identifier => source.leaf identifier
  | .binaryOp left right op => fun cik => combineNames op (denote source left cik) (denote source right cik)

section Rosters
variable {ints : BigintCast} {choice : Choice} {rows rows' left right : List RosterRow} {cik : String}

theorem padCik_inj (ints : BigintCast) {v w : Nat} (hv : ValidCik v) (hw : ValidCik w) (h : padCik v = padCik w) :
    v = w := by
  have hcast := congrArg ints.cast h
  rw [ints.cast_padCik v hv, ints.cast_padCik w hw, Option.some.injEq] at hcast
  exact Int.ofNat.inj hcast

theorem Canonical.nodup (ints : BigintCast) (h : Canonical rows) : (rows.map (·.cikPadded)).Nodup := by
  obtain ⟨values, hsorted, hvalid, hciks⟩ := h.ciks
  rw [hciks]
  refine (List.nodup_map_iff_inj_on (hsorted.imp ne_of_lt)).mpr ?_
  intro v hv w hw heq
  exact padCik_inj ints (hvalid v hv) (hvalid w hw) heq

theorem Canonical.valid (h : Canonical rows) {row : RosterRow} (hrow : row ∈ rows) :
    ∃ v, ValidCik v ∧ row.cikPadded = padCik v := by
  obtain ⟨values, -, hvalid, hciks⟩ := h.ciks
  have hmem : row.cikPadded ∈ values.map padCik := hciks ▸ List.mem_map_of_mem hrow
  obtain ⟨v, hv, heq⟩ := List.mem_map.mp hmem
  exact ⟨v, hvalid v hv, heq.symm⟩

/-- The rows of one CIK, and the name they give it. -/
theorem filter_cik (hnodup : (rows.map (·.cikPadded)).Nodup) (cik : String) :
    (rows.filter (fun row => row.cikPadded = cik) = [] ∧ namesOf rows cik = none) ∨
    ∃ row ∈ rows, row.cikPadded = cik ∧ rows.filter (fun row => row.cikPadded = cik) = [row] ∧
      namesOf rows cik = some row.name := by
  unfold namesOf
  cases hfind : rows.find? fun row => row.cikPadded = cik with
  | none =>
    left
    refine ⟨List.filter_eq_nil_iff.mpr ?_, rfl⟩
    exact List.find?_eq_none.mp hfind
  | some row =>
    have hmem : row ∈ rows := List.mem_of_find?_eq_some hfind
    have hcik : row.cikPadded = cik := by simpa using List.find?_some hfind
    refine Or.inr ⟨row, hmem, hcik, ?_, rfl⟩
    rw [← hcik]
    exact filter_key_eq_singleton hnodup hmem

theorem namesOf_eq_some_iff (hnodup : (rows.map (·.cikPadded)).Nodup) {name : String} :
    namesOf rows cik = some name ↔ ∃ row ∈ rows, row.cikPadded = cik ∧ row.name = name := by
  rcases filter_cik hnodup cik with ⟨hfilter, hnone⟩ | ⟨row, hrow, hcik, hfilter, hname⟩
  · rw [hnone]
    constructor
    · intro h
      cases h
    · intro ⟨row, hrow, hcik, _⟩
      exact absurd (decide_eq_true hcik) (List.filter_eq_nil_iff.mp hfilter row hrow)
  · rw [hname, Option.some.injEq]
    constructor
    · intro h
      exact ⟨row, hrow, hcik, h⟩
    · intro ⟨other, hother, hcik', hname'⟩
      have hin : other ∈ rows.filter fun row => row.cikPadded = cik :=
        List.mem_filter.mpr ⟨hother, decide_eq_true hcik'⟩
      rw [hfilter, List.mem_singleton] at hin
      rw [← hin, hname']

theorem hasCik_iff : hasCik rows cik = (namesOf rows cik).isSome := by
  rw [hasCik, namesOf, Option.isSome_map, List.isSome_find?]

/-- A canonical dataset is what it says of each CIK. -/
theorem Canonical.ext (ints : BigintCast) (h : Canonical rows) (h' : Canonical rows')
    (hnames : ∀ cik, namesOf rows cik = namesOf rows' cik) : rows = rows' := by
  have hlisted : ∀ {rows : List RosterRow} (h : Canonical rows) {values : List Nat},
      rows.map (·.cikPadded) = values.map padCik → ∀ v, (∀ v ∈ values, ValidCik v) → ValidCik v →
        (v ∈ values ↔ (namesOf rows (padCik v)).isSome = true) := by
    intro rows h values hciks v hvalid hv
    rw [← hasCik_iff, hasCik, List.any_eq_true]
    constructor
    · intro hin
      have hmem : padCik v ∈ rows.map (·.cikPadded) := hciks ▸ List.mem_map_of_mem hin
      obtain ⟨row, hrow, heq⟩ := List.mem_map.mp hmem
      exact ⟨row, hrow, decide_eq_true heq⟩
    · intro ⟨row, hrow, heq⟩
      have hmem : row.cikPadded ∈ values.map padCik := hciks ▸ List.mem_map_of_mem hrow
      obtain ⟨w, hw, hpad⟩ := List.mem_map.mp hmem
      have hvw : v = w := padCik_inj ints hv (hvalid w hw) ((of_decide_eq_true heq).symm.trans hpad.symm)
      rwa [hvw]
  obtain ⟨values, hsorted, hvalid, hciks⟩ := h.ciks
  obtain ⟨values', hsorted', hvalid', hciks'⟩ := h'.ciks
  have hvalues : values = values' := by
    have hperm : values.Perm values' := by
      refine (List.perm_ext_iff_of_nodup (hsorted.imp ne_of_lt) (hsorted'.imp ne_of_lt)).mpr fun v => ?_
      constructor
      · intro hv
        have hvv := hvalid v hv
        rw [hlisted h' hciks' v hvalid' hvv, ← hnames, ← hlisted h hciks v hvalid hvv]
        exact hv
      · intro hv
        have hvv := hvalid' v hv
        rw [hlisted h hciks v hvalid hvv, hnames, ← hlisted h' hciks' v hvalid' hvv]
        exact hv
    exact hperm.eq_of_pairwise (fun a b _ _ hab hba => absurd hab (not_lt.mpr hba.le)) hsorted hsorted'
  have hsame : rows.map (·.cikPadded) = rows'.map (·.cikPadded) := by rw [hciks, hciks', hvalues]
  have hlength : rows.length = rows'.length := by simpa using congrArg List.length hsame
  have hordinals : rows.map (·.ordinal) = rows'.map (·.ordinal) := by rw [h.ordinals, h'.ordinals, hlength]
  refine List.ext_getElem hlength fun i hi hi' => ?_
  have hcik : rows[i].cikPadded = rows'[i].cikPadded := by
    have hget := congrArg (fun l => l[i]?) hsame
    simpa [hi, hi'] using hget
  have hordinal : rows[i].ordinal = rows'[i].ordinal := by
    have hget := congrArg (fun l => l[i]?) hordinals
    simpa [hi, hi'] using hget
  have hname : rows[i].name = rows'[i].name := by
    have hleft := (namesOf_eq_some_iff (h.nodup ints)).mpr ⟨rows[i], List.getElem_mem hi, rfl, rfl⟩
    rw [hnames, hcik] at hleft
    have hright := (namesOf_eq_some_iff (h'.nodup ints)).mpr ⟨rows'[i], List.getElem_mem hi', rfl, rfl⟩
    exact Option.some.inj (hleft.symm.trans hright)
  cases hrow : rows[i]
  cases hrow' : rows'[i]
  simp_all

/-- Rows numbered in order are in the order of their ordinals. -/
theorem byOrdinal_of_canonical (choice : Choice) (h : Canonical rows) : byOrdinal choice rows = rows := by
  have horder : SortOrder fun a b : RosterRow => decide (a.ordinal ≤ b.ordinal) :=
    SortOrder.of_le.comap fun row : RosterRow => row.ordinal
  have hstrict : (rows.map (·.ordinal)).Pairwise (· < ·) := by
    rw [h.ordinals]
    exact List.pairwise_map.mpr (List.pairwise_lt_range.imp fun hab => Int.ofNat_lt.mpr hab)
  have hinj : ∀ a ∈ rows, ∀ b ∈ rows, a.ordinal = b.ordinal → a = b := fun a ha b hb =>
    List.inj_on_of_nodup_map (hstrict.imp ne_of_lt) ha hb
  have hperm : (byOrdinal choice rows).Perm rows := choice.sort_perm _ rows
  have hsorted := choice.pairwise_sort horder rows
  have hrows : rows.Pairwise fun a b => decide (a.ordinal ≤ b.ordinal) = true :=
    (List.pairwise_map.mp hstrict).imp fun hab => decide_eq_true hab.le
  refine hperm.eq_of_pairwise ?_ hsorted hrows
  intro a b ha hb hab hba
  have heq := le_antisymm (of_decide_eq_true hab) (of_decide_eq_true hba)
  exact hinj a (hperm.mem_iff.mp ha) b hb heq

end Rosters

/-! ## A set operation on two rosters -/

section Operation
variable {ints : BigintCast} {choice : Choice} {op : SetOpKind} {rows left right : List RosterRow} {cik : String}

theorem filter_selectSide (side : Nat) : (selectSide side rows).filter (fun row => row.cikPadded = cik) =
    selectSide side (rows.filter fun row => row.cikPadded = cik) := by
  rw [selectSide, List.filter_map]
  rfl

theorem filter_semiJoin (others : List RosterRow) : (semiJoin rows others).filter (fun row => row.cikPadded = cik) =
    if hasCik others cik then rows.filter fun row => row.cikPadded = cik else [] := by
  have hsame : (semiJoin rows others).filter (fun row => row.cikPadded = cik) =
      (rows.filter fun row => row.cikPadded = cik).filter fun _ => hasCik others cik := by
    rw [semiJoin, List.filter_comm]
    refine List.filter_congr fun row hrow => ?_
    rw [of_decide_eq_true (List.mem_filter.mp hrow).2]
  rw [hsame]
  cases hasCik others cik <;> simp

theorem filter_antiJoin (others : List RosterRow) : (antiJoin rows others).filter (fun row => row.cikPadded = cik) =
    if hasCik others cik then [] else rows.filter fun row => row.cikPadded = cik := by
  have hsame : (antiJoin rows others).filter (fun row => row.cikPadded = cik) =
      (rows.filter fun row => row.cikPadded = cik).filter fun _ => !hasCik others cik := by
    rw [antiJoin, List.filter_comm]
    refine List.filter_congr fun row hrow => ?_
    rw [of_decide_eq_true (List.mem_filter.mp hrow).2]
  rw [hsame]
  cases hasCik others cik <;> simp

theorem firstName_one (row : EligibleRow) : firstName choice [row] = row.name := by
  unfold firstName
  by_cases hempty : row.name = ""
  · simp [hempty]
  · simp [hempty, leading]

theorem firstName_two (c d a b : String) : firstName choice [⟨c, a, 0⟩, ⟨d, b, 1⟩] = preferLeft a b := by
  unfold firstName preferLeft
  by_cases ha : a = ""
  · by_cases hb : b = ""
    · simp [ha, hb]
    · simp [ha, hb, leading]
  · by_cases hb : b = ""
    · simp [ha, hb, leading]
    · simp [ha, hb, leading]

def eligibleOf (op : SetOpKind) (left right : List RosterRow) (cik : String) : List EligibleRow :=
  (eligible op left right).filter fun row => row.cikPadded = cik

theorem eligibleOf_eq : eligibleOf op left right cik =
    match op with
    | .union => selectSide 0 (left.filter fun row => row.cikPadded = cik) ++
        selectSide 1 (right.filter fun row => row.cikPadded = cik)
    | .intersect =>
      (if hasCik right cik then selectSide 0 (left.filter fun row => row.cikPadded = cik) else []) ++
        if hasCik left cik then selectSide 1 (right.filter fun row => row.cikPadded = cik) else []
    | .difference =>
      if hasCik right cik then [] else selectSide 0 (left.filter fun row => row.cikPadded = cik) := by
  unfold eligibleOf eligible
  cases op with
  | union =>
    rw [List.filter_append, filter_selectSide, filter_selectSide]
  | intersect =>
    rw [List.filter_append, filter_selectSide, filter_selectSide, filter_semiJoin, filter_semiJoin]
    cases hasCik right cik <;> cases hasCik left cik <;> rfl
  | difference =>
    rw [filter_selectSide, filter_antiJoin]
    cases hasCik right cik <;> rfl

/-- At most one row comes from either side, so no tie is left to the engine. -/
theorem name_of_eligible (hleft : (left.map (·.cikPadded)).Nodup) (hright : (right.map (·.cikPadded)).Nodup) :
    (if eligibleOf op left right cik = [] then none else some (firstName choice (eligibleOf op left right cik))) =
      combineNames op (namesOf left cik) (namesOf right cik) := by
  rw [eligibleOf_eq, hasCik_iff, hasCik_iff]
  rcases filter_cik hleft cik with ⟨hfl, hnl⟩ | ⟨a, -, -, hfl, hnl⟩ <;>
    rcases filter_cik hright cik with ⟨hfr, hnr⟩ | ⟨b, -, -, hfr, hnr⟩ <;>
    rw [hfl, hfr, hnl, hnr] <;> cases op <;>
    simp [selectSide, combineNames, firstName_one, firstName_two]

theorem map_fst_grouped (rows : List EligibleRow) : (grouped choice rows).map Prod.fst =
    choice.sort (fun _ _ => true) (rows.map (·.cikPadded)).dedup := by
  simp [grouped, List.map_map, Function.comp_def]

theorem mem_grouped {rows : List EligibleRow} {g : String × String} : g ∈ grouped choice rows ↔
    g.1 ∈ rows.map (·.cikPadded) ∧ g.2 = firstName choice (rows.filter fun row => row.cikPadded = g.1) := by
  unfold grouped
  rw [List.mem_map]
  constructor
  · rintro ⟨c, hc, rfl⟩
    exact ⟨List.mem_dedup.mp ((choice.sort_perm _ _).mem_iff.mp hc), rfl⟩
  · intro ⟨hc, hname⟩
    refine ⟨g.1, (choice.sort_perm _ _).mem_iff.mpr (List.mem_dedup.mpr hc), ?_⟩
    rw [← hname]

theorem sortOrder_castBefore : SortOrder (castBefore ints) where
  total a b := by
    unfold castBefore
    cases ints.cast a.1 <;> cases ints.cast b.1 <;> simp [le_total]
  trans {a b c} := by
    unfold castBefore
    cases ints.cast a.1 <;> cases ints.cast b.1 <;> cases ints.cast c.1 <;> simp
    exact fun hab hbc => hab.trans hbc

/-- The groups in the order of their numbers. -/
def ranked (ints : BigintCast) (choice : Choice) (op : SetOpKind) (left right : List RosterRow) :
    List (String × String) :=
  choice.sort (castBefore ints) (grouped choice (eligible op left right))

theorem ranked_perm : (ranked ints choice op left right).Perm (grouped choice (eligible op left right)) :=
  choice.sort_perm _ _

theorem map_cikPadded_numbered :
    (numbered ints choice op left right).map (·.cikPadded) = (ranked ints choice op left right).map Prod.fst := by
  rw [numbered, List.map_map]
  exact map_zipIdx_fst Prod.fst (ranked ints choice op left right)

theorem nodup_ranked : ((ranked ints choice op left right).map Prod.fst).Nodup := by
  rw [(ranked_perm.map Prod.fst).nodup_iff, map_fst_grouped, (choice.sort_perm _ _).nodup_iff]
  exact List.nodup_dedup _

theorem cik_of_eligible {row : EligibleRow} (h : row ∈ eligible op left right) :
    ∃ origin, (origin ∈ left ∨ origin ∈ right) ∧ origin.cikPadded = row.cikPadded := by
  have hside : ∀ {side : Nat} {rows : List RosterRow}, row ∈ selectSide side rows →
      ∃ origin ∈ rows, origin.cikPadded = row.cikPadded := by
    intro side rows hrow
    obtain ⟨origin, horigin, rfl⟩ := List.mem_map.mp hrow
    exact ⟨origin, horigin, rfl⟩
  cases op with
  | union =>
    rcases List.mem_append.mp h with h | h
    · obtain ⟨origin, hin, heq⟩ := hside h
      exact ⟨origin, Or.inl hin, heq⟩
    · obtain ⟨origin, hin, heq⟩ := hside h
      exact ⟨origin, Or.inr hin, heq⟩
  | intersect =>
    rcases List.mem_append.mp h with h | h
    · obtain ⟨origin, hin, heq⟩ := hside h
      exact ⟨origin, Or.inl (List.mem_filter.mp hin).1, heq⟩
    · obtain ⟨origin, hin, heq⟩ := hside h
      exact ⟨origin, Or.inr (List.mem_filter.mp hin).1, heq⟩
  | difference =>
    obtain ⟨origin, hin, heq⟩ := hside h
    exact ⟨origin, Or.inl (List.mem_filter.mp hin).1, heq⟩

theorem exists_values {ciks : List String} (h : ∀ c ∈ ciks, ∃ v, ValidCik v ∧ c = padCik v) :
    ∃ values : List Nat, (∀ v ∈ values, ValidCik v) ∧ ciks = values.map padCik := by
  induction ciks with
  | nil => exact ⟨[], by simp, rfl⟩
  | cons c ciks ih =>
    obtain ⟨v, hv, rfl⟩ := h c List.mem_cons_self
    obtain ⟨values, hvalid, rfl⟩ := ih fun d hd => h d (List.mem_cons_of_mem _ hd)
    refine ⟨v :: values, ?_, rfl⟩
    intro w hw
    rcases List.mem_cons.mp hw with rfl | hw
    · exact hv
    · exact hvalid w hw

/-- A set operation on canonical datasets leaves a canonical one. -/
theorem canonical_numbered (hleft : Canonical left) (hright : Canonical right) :
    Canonical (numbered ints choice op left right) := by
  constructor
  · have hpadded : ∀ c ∈ (ranked ints choice op left right).map Prod.fst, ∃ v, ValidCik v ∧ c = padCik v := by
      intro c hc
      obtain ⟨g, hg, rfl⟩ := List.mem_map.mp hc
      obtain ⟨row, hrow, heq⟩ := List.mem_map.mp (Iff.mp mem_grouped (ranked_perm.mem_iff.mp hg)).1
      obtain ⟨origin, hside, horigin⟩ := cik_of_eligible hrow
      rw [← heq, ← horigin]
      rcases hside with hin | hin
      · exact hleft.valid hin
      · exact hright.valid hin
    obtain ⟨values, hvalid, hvalues⟩ := exists_values hpadded
    refine ⟨values, ?_, hvalid, ?_⟩
    · have hsorted := choice.pairwise_sort (@sortOrder_castBefore ints) (grouped choice (eligible op left right))
      have hle : ((ranked ints choice op left right).map Prod.fst).Pairwise fun a b =>
          castBefore ints (a, "") (b, "") = true := List.pairwise_map.mpr hsorted
      have hne : ((ranked ints choice op left right).map Prod.fst).Pairwise (· ≠ ·) := nodup_ranked
      have hboth := hle.and hne
      rw [hvalues] at hboth
      refine (List.pairwise_map.mp hboth).imp_of_mem fun {v w} hv hw hvw => ?_
      have hcast : v ≤ w := by
        have hbefore := hvw.1
        simp only [castBefore, ints.cast_padCik v (hvalid v hv), ints.cast_padCik w (hvalid w hw)] at hbefore
        exact Int.ofNat_le.mp (of_decide_eq_true hbefore)
      exact lt_of_le_of_ne hcast fun heq => hvw.2 (congrArg padCik heq)
    · rw [map_cikPadded_numbered, hvalues]
  · rw [numbered, List.map_map, List.length_map, List.length_zipIdx]
    exact map_zipIdx_snd (ranked ints choice op left right)

theorem namesOf_numbered (hleft : Canonical left) (hright : Canonical right) (cik : String) :
    namesOf (numbered ints choice op left right) cik = combineNames op (namesOf left cik) (namesOf right cik) := by
  rw [← @name_of_eligible choice op left right cik (hleft.nodup ints) (hright.nodup ints)]
  have hmem : ∀ name, namesOf (numbered ints choice op left right) cik = some name ↔
      (cik, name) ∈ grouped choice (eligible op left right) := by
    intro name
    rw [namesOf_eq_some_iff ((canonical_numbered hleft hright).nodup ints), ← ranked_perm.mem_iff]
    constructor
    · rintro ⟨row, hrow, rfl, rfl⟩
      obtain ⟨g, hg, rfl⟩ := List.mem_map.mp hrow
      exact List.fst_mem_of_mem_zipIdx hg
    · intro hin
      obtain ⟨i, hi, hget⟩ := List.mem_iff_getElem.mp hin
      refine ⟨⟨i, cik, name⟩, ?_, rfl, rfl⟩
      refine List.mem_map.mpr ⟨((cik, name), i), ?_, rfl⟩
      exact List.mk_mem_zipIdx_iff_getElem?.mpr ((List.getElem?_eq_getElem hi).trans (congrArg some hget))
  have hlisted : cik ∈ (eligible op left right).map (·.cikPadded) ↔ eligibleOf op left right cik ≠ [] := by
    rw [eligibleOf, ne_eq, List.filter_eq_nil_iff]
    simp
  refine Option.ext fun name => ?_
  rw [hmem, mem_grouped, hlisted]
  split
  · rename_i hnil
    simp [hnil]
  · rename_i hne
    simp only [ne_eq, hne, not_false_eq_true, true_and, Option.some.injEq]
    exact eq_comm

end Operation

/-! ## The compiled query and the evaluation -/

theorem exprName_injective : Function.Injective exprName := by
  intro m n h
  have hlist := congrArg String.toList h
  simp only [exprName, String.toList_append, String.toList_ofList, List.append_right_inj] at hlist
  rw [← Nat.ofDigitChars_ten_toDigits (n := m), hlist, Nat.ofDigitChars_ten_toDigits]

section Compiling
variable {ints : BigintCast} {step whole : Choice} {source : CohortSource} {node : ExprNode}

theorem runDefinitions_append {first later : List (String × Body)} {tables : Tables} :
    runDefinitions ints whole source (first ++ later) tables =
      (runDefinitions ints whole source first tables).bind (runDefinitions ints whole source later) := by
  induction first generalizing tables with
  | nil => rfl
  | cons d first ih =>
    obtain ⟨name, body⟩ := d
    rw [List.cons_append, runDefinitions, runDefinitions]
    cases runBody ints whole source tables body with
    | none => rfl
    | some rows => exact ih

/-- Names taken from a stretch of the counter. -/
def NamedWithin (lo hi : Nat) (name : String) : Prop := ∃ n, lo ≤ n ∧ n < hi ∧ name = exprName n

def FreeWithin (lo hi : Nat) (tables : Tables) : Prop :=
  ∀ n, lo ≤ n → n < hi → tables.lookup (exprName n) = none

theorem lookup_of_named {tables added : Tables} {lo hi n : Nat} (hnames : ∀ t ∈ added, NamedWithin lo hi t.1)
    (hn : n < lo ∨ hi ≤ n) : (tables ++ added).lookup (exprName n) = tables.lookup (exprName n) := by
  rw [List.lookup_append]
  have hnone : added.lookup (exprName n) = none := by
    refine List.lookup_eq_none_iff.mpr fun t ht => ?_
    obtain ⟨m, hlo, hhi, heq⟩ := hnames t ht
    rw [heq, bne_iff_ne]
    exact fun hsame => by have := exprName_injective hsame; omega
  rw [hnone, Option.or_none]

/-- What a node adds to the query, and what running it adds to the tables. -/
structure Compiles (ints : BigintCast) (step whole : Choice) (source : CohortSource) (node : ExprNode)
    (lo hi : Nat) (added : List (String × Body)) (rows : List RosterRow) : Prop where
  lt : lo < hi
  evaluated : evaluate ints step source node = .ok rows
  canonical : Canonical rows
  meaning : ∀ cik, namesOf rows cik = denote source node cik
  run : ∀ tables : Tables, FreeWithin lo hi tables → ∃ tables', runDefinitions ints whole source added tables =
    some (tables ++ tables') ∧ (∀ t ∈ tables', NamedWithin lo hi t.1) ∧
      (tables ++ tables').lookup (exprName lo) = some rows

theorem compiles_ref {identifier path : String} {roster : Roster} {lo : Nat}
    (hread : source.read identifier = .ok (path, roster)) :
    Compiles ints step whole source (.cohortRef identifier) lo (lo + 1) [(exprName lo, .readParquet path)]
      roster.rows := by
  have hdataset : source.dataset path = some roster := by
    unfold CohortSource.read at hread
    obtain ⟨found, -, hread⟩ := bind_eq_ok.mp hread
    split at hread
    · cases hread
    · rename_i hfound
      cases hread
      exact hfound
  constructor
  · exact Nat.lt_succ_self lo
  · rw [evaluate, hread]
    rfl
  · exact roster.canonical
  · intro cik
    rw [denote, CohortSource.leaf, hread]
  · intro tables hfree
    refine ⟨[(exprName lo, roster.rows)], ?_, ?_, ?_⟩
    · rw [runDefinitions, runBody, hdataset]
      rfl
    · intro t ht
      rw [List.mem_singleton.mp ht]
      exact ⟨lo, le_rfl, Nat.lt_succ_self lo, rfl⟩
    · rw [List.lookup_append, hfree lo le_rfl (Nat.lt_succ_self lo), Option.none_or, List.lookup_cons_self]

theorem compiles_op {left right : ExprNode} {op : SetOpKind} {lo mid hi : Nat} {first later : List (String × Body)}
    {a b : List RosterRow} (hl : Compiles ints step whole source left (lo + 1) mid first a)
    (hr : Compiles ints step whole source right mid hi later b) :
    Compiles ints step whole source (.binaryOp left right op) lo hi
      (first ++ later ++ [(exprName lo, .combine op (exprName (lo + 1)) (exprName mid))])
      (numbered ints whole op a b) := by
  have hstep := @canonical_numbered ints step op a b hl.canonical hr.canonical
  have hwhole := @canonical_numbered ints whole op a b hl.canonical hr.canonical
  have hsame : numbered ints step op a b = numbered ints whole op a b :=
    hstep.ext ints hwhole fun cik => by
      rw [namesOf_numbered hl.canonical hr.canonical, namesOf_numbered hl.canonical hr.canonical]
  have hlt := hl.lt
  have hlt' := hr.lt
  constructor
  · omega
  · rw [evaluate, hl.evaluated, hr.evaluated]
    show Except.ok (byOrdinal step (numbered ints step op a b)) = _
    rw [byOrdinal_of_canonical step hstep, hsame]
  · exact hwhole
  · intro cik
    rw [namesOf_numbered hl.canonical hr.canonical, hl.meaning, hr.meaning, denote]
  · intro tables hfree
    obtain ⟨tl, hrunl, hnamesl, hfoundl⟩ := hl.run tables fun n hlo hhi => hfree n (by omega) (by omega)
    have hfreer : FreeWithin mid hi (tables ++ tl) := by
      intro n hlo hhi
      rw [lookup_of_named hnamesl (Or.inr hlo), hfree n (by omega) hhi]
    obtain ⟨tr, hrunr, hnamesr, hfoundr⟩ := hr.run (tables ++ tl) hfreer
    have hfoundl' : (tables ++ tl ++ tr).lookup (exprName (lo + 1)) = some a := by
      rw [lookup_of_named hnamesr (Or.inl (by omega)), hfoundl]
    refine ⟨tl ++ tr ++ [(exprName lo, numbered ints whole op a b)], ?_, ?_, ?_⟩
    · rw [runDefinitions_append, runDefinitions_append, hrunl, Option.bind_some, hrunr, Option.bind_some,
        runDefinitions, runBody, hfoundl', hfoundr]
      simp [runDefinitions]
    · intro t ht
      rw [List.append_assoc] at ht
      rcases List.mem_append.mp ht with ht | ht
      · obtain ⟨n, hlo, hhi, heq⟩ := hnamesl t ht
        exact ⟨n, by omega, by omega, heq⟩
      · rcases List.mem_append.mp ht with ht | ht
        · obtain ⟨n, hlo, hhi, heq⟩ := hnamesr t ht
          exact ⟨n, by omega, hhi, heq⟩
        · rw [List.mem_singleton.mp ht]
          exact ⟨lo, le_rfl, by omega, rfl⟩
    · have hnone : (tables ++ tl ++ tr).lookup (exprName lo) = none := by
        rw [lookup_of_named hnamesr (Or.inl (by omega)), lookup_of_named hnamesl (Or.inl (by omega)),
          hfree lo le_rfl (by omega)]
      rw [← List.append_assoc, ← List.append_assoc, List.lookup_append, hnone, Option.none_or,
        List.lookup_cons_self]

/-- By induction on the tree: names are taken in the order of the nodes, definitions come after those
of the operands. -/
theorem compileNode_spec {s s' : CompileState} {name : String} (h : compileNode source node s = .ok (name, s')) :
    name = exprName s.nextName ∧ ∃ added rows, s'.definitions = s.definitions ++ added ∧
      Compiles ints step whole source node s.nextName s'.nextName added rows := by
  induction node generalizing s s' name with
  | cohortRef identifier =>
    unfold compileNode at h
    split at h
    · cases h
    · obtain ⟨⟨path, roster⟩, hread, h⟩ := bind_eq_ok.mp h
      cases h
      exact ⟨rfl, _, _, rfl, compiles_ref hread⟩
  | binaryOp left right op ihl ihr =>
    unfold compileNode at h
    split at h
    · cases h
    · obtain ⟨⟨nameL, sl⟩, hl, h⟩ := bind_eq_ok.mp h
      obtain ⟨⟨nameR, sr⟩, hr, h⟩ := bind_eq_ok.mp h
      cases h
      obtain ⟨rfl, first, a, hfirst, hcompl⟩ := ihl hl
      obtain ⟨rfl, later, b, hlater, hcompr⟩ := ihr hr
      refine ⟨rfl, _, _, ?_, compiles_op hcompl hcompr⟩
      simp only [hlater, hfirst, List.append_assoc]

end Compiling

/-! ## Publishing what an expression gives

`publish_derived_cohort` ingests the dataset of a set operation once more. -/

theorem trimSpaces_of_solid {cs : List Char} (h : ∀ c ∈ cs, c ≠ ' ') : trimSpaces cs = cs := by
  have hkept : ∀ {l : List Char}, (∀ c ∈ l, c ≠ ' ') → l.dropWhile (· = ' ') = l := by
    intro l hl
    cases l with
    | nil => rfl
    | cons c l => simp [hl c List.mem_cons_self]
  rw [trimSpaces, hkept h, hkept fun c hc => h c (List.mem_reverse.mp hc), List.reverse_reverse]

/-- A padded CIK is read as its number. -/
theorem typedCik_padCik {value : Nat} (h : ValidCik value) : typedCik (padCik value).toList = some value := by
  have hlist : (padCik value).toList = (Nat.toDigits 10 value).leftpad 10 '0' := by
    rw [padCik, String.toList_ofList]
  have hshort : (Nat.toDigits 10 value).length ≤ 10 := by
    rw [Nat.length_toDigits_le_iff (by decide) (by decide)]
    exact Nat.lt_succ_of_le h.2
  have hlength : ((Nat.toDigits 10 value).leftpad 10 '0').length = 10 := by
    rw [List.length_leftpad]
    omega
  have hdigit : ∀ c ∈ (Nat.toDigits 10 value).leftpad 10 '0', c.isDigit = true := by
    intro c hc
    rw [List.leftpad] at hc
    rcases List.mem_append.mp hc with hin | hin
    · rw [List.eq_of_mem_replicate hin]
      rfl
    · exact Nat.isDigit_of_mem_toDigits (by decide) (by decide) hin
  have hvalue : Nat.ofDigitChars 10 ((Nat.toDigits 10 value).leftpad 10 '0') 0 = value := by
    rw [List.leftpad, Nat.ofDigitChars_append, Nat.ofDigitChars_replicate_zero, Nat.mul_zero,
      Nat.ofDigitChars_ten_toDigits]
  have hsolid : trimSpaces ((Nat.toDigits 10 value).leftpad 10 '0') = (Nat.toDigits 10 value).leftpad 10 '0' := by
    refine trimSpaces_of_solid fun c hc hblank => ?_
    have hno := hdigit c hc
    rw [hblank] at hno
    exact absurd hno (by decide)
  unfold typedCik
  dsimp only
  rw [hlist, hsolid, if_pos ⟨by omega, by omega, List.all_eq_true.mpr hdigit⟩, hvalue]
  exact if_pos h

/-- No name has a space at its ends. -/
def Trimmed (rows : List RosterRow) : Prop := ∀ row ∈ rows, trimSpaces row.name.toList = row.name.toList

def exported (rows : List RosterRow) : List (String × String) := rows.map fun row => (row.cikPadded, row.name)

theorem mem_typed_exported {rows : List RosterRow} (h : Canonical rows) (htrim : Trimmed rows) (e : Nat × List Char) :
    e ∈ (exported rows).filterMap (fun row =>
      (typedCik row.1.toList).map fun value => (value, trimSpaces row.2.toList)) ↔
    ∃ row ∈ rows, ValidCik e.1 ∧ row.cikPadded = padCik e.1 ∧ e.2 = row.name.toList := by
  rw [exported, List.filterMap_map, List.mem_filterMap]
  constructor
  · intro ⟨row, hrow, heq⟩
    obtain ⟨v, hv, hcik⟩ := h.valid hrow
    rw [Function.comp_apply, hcik, typedCik_padCik hv, Option.map_some, htrim row hrow] at heq
    rw [← Option.some.inj heq]
    exact ⟨row, hrow, hv, hcik, rfl⟩
  · intro ⟨row, hrow, hv, hcik, hname⟩
    refine ⟨row, hrow, ?_⟩
    rw [Function.comp_apply, hcik, typedCik_padCik hv, Option.map_some, htrim row hrow, ← hname]

/-- Ingesting a canonical dataset gives it back. -/
theorem canonicalQuery_exported (ints : BigintCast) (choice : Choice) {rows : List RosterRow} (h : Canonical rows)
    (htrim : Trimmed rows) : canonicalQuery choice (exported rows) = rows := by
  have hback := canonical_canonicalQuery choice (exported rows)
  refine hback.ext ints h fun cik => Option.ext fun name => ?_
  rw [namesOf_eq_some_iff (hback.nodup ints), namesOf_eq_some_iff (h.nodup ints)]
  have hmem := mem_typed_exported h htrim
  generalize htyped : ((exported rows).filterMap fun row =>
    (typedCik row.1.toList).map fun value => (value, trimSpaces row.2.toList)) = typed at hmem
  -- the name that is chosen for a CIK is the one of its row
  have hchosen : ∀ v, ∀ row ∈ rows, row.cikPadded = padCik v → ValidCik v →
      (((typed.find? fun e => e.1 = v ∧ e.2 ≠ []).map fun e => String.ofList e.2).getD "") = row.name := by
    intro v row hrow hcik hv
    cases hfind : typed.find? fun e => e.1 = v ∧ e.2 ≠ [] with
    | none =>
      have hnone := List.find?_eq_none.mp hfind (v, row.name.toList) ((hmem _).mpr ⟨row, hrow, hv, hcik, rfl⟩)
      have hempty : row.name.toList = [] := by simpa using hnone
      exact (String.toList_eq_nil_iff.mp hempty).symm
    | some e =>
      obtain ⟨other, hother, -, hpadded, hname⟩ := (hmem e).mp (List.mem_of_find?_eq_some hfind)
      have hvalue : e.1 = v := (by simpa using List.find?_some hfind : e.1 = v ∧ e.2 ≠ []).1
      have hsame : other = row := by
        refine List.inj_on_of_nodup_map (h.nodup ints) hother hrow ?_
        rw [hpadded, hcik, hvalue]
      rw [Option.map_some, Option.getD_some, hname, hsame, String.ofList_toList]
  have hvalues : ∀ v, v ∈ choice.sort (fun a b => decide (a ≤ b)) (typed.map (·.1)).dedup ↔
      ∃ row ∈ rows, ValidCik v ∧ row.cikPadded = padCik v := by
    intro v
    rw [(choice.sort_perm _ _).mem_iff, List.mem_dedup, List.mem_map]
    constructor
    · rintro ⟨e, he, rfl⟩
      obtain ⟨row, hrow, hv, hcik, -⟩ := (hmem e).mp he
      exact ⟨row, hrow, hv, hcik⟩
    · intro ⟨row, hrow, hv, hcik⟩
      exact ⟨(v, row.name.toList), (hmem _).mpr ⟨row, hrow, hv, hcik, rfl⟩, rfl⟩
  unfold canonicalQuery
  dsimp only
  rw [htyped]
  constructor
  · rintro ⟨row', hrow', rfl, rfl⟩
    obtain ⟨⟨v, i⟩, hg, rfl⟩ := List.mem_map.mp hrow'
    obtain ⟨row, hrow, hv, hcik⟩ := (hvalues v).mp (List.fst_mem_of_mem_zipIdx hg)
    exact ⟨row, hrow, hcik, (hchosen v row hrow hcik hv).symm⟩
  · rintro ⟨row, hrow, rfl, rfl⟩
    obtain ⟨v, hv, hcik⟩ := h.valid hrow
    obtain ⟨i, hi, hget⟩ := List.mem_iff_getElem.mp ((hvalues v).mpr ⟨row, hrow, hv, hcik⟩)
    refine ⟨⟨i, padCik v, _⟩, List.mem_map.mpr ⟨(v, i), ?_, rfl⟩, hcik.symm, hchosen v row hrow hcik hv⟩
    exact List.mk_mem_zipIdx_iff_getElem?.mpr ((List.getElem?_eq_getElem hi).trans (congrArg some hget))

/-- A name that a set operation gives stands on one of its sides. -/
theorem eq_some_of_combineNames {op : SetOpKind} {a b : Option String} {name : String}
    (h : combineNames op a b = some name) : a = some name ∨ b = some name := by
  cases a with
  | none =>
    cases b with
    | none => cases op <;> cases h
    | some b =>
      cases op with
      | union => exact Or.inr h
      | intersect => cases h
      | difference => cases h
  | some a =>
    cases b with
    | none =>
      cases op with
      | union => exact Or.inl h
      | intersect => cases h
      | difference => exact Or.inl h
    | some b =>
      have heither : some a = some (preferLeft a b) ∨ some b = some (preferLeft a b) := by
        unfold preferLeft
        split
        · exact Or.inr rfl
        · exact Or.inl rfl
      cases op with
      | union => exact heither.imp (fun he => he.trans h) fun he => he.trans h
      | intersect => exact heither.imp (fun he => he.trans h) fun he => he.trans h
      | difference => cases h

theorem trimmed_numbered {ints : BigintCast} {choice : Choice} {op : SetOpKind} {left right : List RosterRow}
    (hleft : Canonical left) (hright : Canonical right) (hl : Trimmed left) (hr : Trimmed right) :
    Trimmed (numbered ints choice op left right) := by
  intro row hrow
  have hname := (namesOf_eq_some_iff ((@canonical_numbered ints choice op left right hleft hright).nodup ints)).mpr
    ⟨row, hrow, rfl, rfl⟩
  rw [namesOf_numbered hleft hright] at hname
  rcases eq_some_of_combineNames hname with hside | hside
  · obtain ⟨origin, horigin, -, hsame⟩ := (namesOf_eq_some_iff (hleft.nodup ints)).mp hside
    exact hsame ▸ hl origin horigin
  · obtain ⟨origin, horigin, -, hsame⟩ := (namesOf_eq_some_iff (hright.nodup ints)).mp hside
    exact hsame ▸ hr origin horigin

/-- The evaluation of a tree over trimmed rosters is canonical and trimmed. -/
theorem canonical_evaluate {ints : BigintCast} {choice : Choice} {source : CohortSource} {node : ExprNode}
    (hsource : ∀ path roster, source.dataset path = some roster → Trimmed roster.rows) {rows : List RosterRow}
    (h : evaluate ints choice source node = .ok rows) : Canonical rows ∧ Trimmed rows := by
  induction node generalizing rows with
  | cohortRef identifier =>
    obtain ⟨⟨path, roster⟩, hread, rfl⟩ := map_eq_ok.mp h
    unfold CohortSource.read at hread
    obtain ⟨found, -, hread⟩ := bind_eq_ok.mp hread
    split at hread
    · cases hread
    · rename_i hfound
      cases hread
      exact ⟨roster.canonical, hsource _ _ hfound⟩
  | binaryOp left right op ihl ihr =>
    obtain ⟨a, ha, h⟩ := bind_eq_ok.mp h
    obtain ⟨b, hb, h⟩ := bind_eq_ok.mp h
    obtain ⟨hca, hta⟩ := ihl ha
    obtain ⟨hcb, htb⟩ := ihr hb
    have hcanonical := @canonical_numbered ints choice op a b hca hcb
    rw [← Except.ok.inj h, executeSetOperation, byOrdinal_of_canonical choice hcanonical]
    exact ⟨hcanonical, trimmed_numbered hca hcb hta htb⟩

/-- Publishing the result of an expression writes the rows of the result. -/
theorem published_eq_evaluated (ints : BigintCast) (choice again : Choice) {source : CohortSource} {node : ExprNode}
    (hsource : ∀ path roster, source.dataset path = some roster → Trimmed roster.rows) {rows : List RosterRow}
    (h : evaluate ints choice source node = .ok rows) : canonicalQuery again (exported rows) = rows := by
  obtain ⟨hcanonical, htrim⟩ := canonical_evaluate hsource h
  exact canonicalQuery_exported ints again hcanonical htrim

/-! ## Two rosters -/

/-- The number a text of digits is. -/
def decimalCast : BigintCast where
  cast s := some (Nat.ofDigitChars 10 s.toList 0 : Int)
  cast_padCik value _ := by
    rw [padCik, String.toList_ofList, List.leftpad, Nat.ofDigitChars_append, Nat.ofDigitChars_replicate_zero,
      Nat.mul_zero, Nat.ofDigitChars_ten_toDigits]

def ingested (rows : List (String × String)) : Roster := ⟨canonicalQuery .first rows, canonical_canonicalQuery _ _⟩

def twoRosters : CohortSource where
  resolve identifier := .ok (identifier ++ ".parquet")
  dataset path :=
    if path = "banks.parquet" then some (ingested [("320", ""), (" 19 ", "First"), ("0", "None")])
    else if path = "funds.parquet" then some (ingested [("320", "Second"), ("7", "Third")])
    else none

/-- `(banks + funds) - (banks & funds)` -/
def eitherRoster : ExprNode :=
  .binaryOp (.binaryOp (.cohortRef "banks") (.cohortRef "funds") .union)
    (.binaryOp (.cohortRef "banks") (.cohortRef "funds") .intersect) .difference

theorem published_eq_evaluated_either : ∃ rows, evaluate decimalCast .first twoRosters eitherRoster = .ok rows ∧
    canonicalQuery .first (exported rows) = rows := by
  have hevaluated : ∃ rows, evaluate decimalCast .first twoRosters eitherRoster = .ok rows := ⟨_, rfl⟩
  obtain ⟨rows, hrows⟩ := hevaluated
  refine ⟨rows, hrows, published_eq_evaluated decimalCast .first .first ?_ hrows⟩
  intro path roster hroster
  unfold twoRosters at hroster
  dsimp only at hroster
  split at hroster
  · rw [← Option.some.inj hroster]
    unfold Trimmed
    decide +kernel
  · split at hroster
    · rw [← Option.some.inj hroster]
      unfold Trimmed
      decide +kernel
    · cases hroster

end EdgarSec.Cohort
