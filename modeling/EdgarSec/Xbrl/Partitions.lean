import EdgarSec.Lib.Dict

/-! `classify_partitions`: how the filed members of an axis relate to the reported total.
Values are rationals, so that sums are exact. -/

namespace EdgarSec.Xbrl
open Lib

/-! ## Constants and records -/

inductive PartitionKind where
  | cleanPartition
  | overlappingPartitions
  | nestedMembers
  | incomplete
  | overUnexplained
  deriving DecidableEq, Repr

inductive Basis where
  | arcs
  | arcless
  deriving DecidableEq, Repr

def maxEnumMembers : Nat := 32
def maxEnumNodes : Nat := 10000000
def maxPartitions : Nat := 16
def maxCandidates : Nat := 64
def tolerance : ℚ := 1

abbrev Part := List String

structure PartitionClassification where
  kind : PartitionKind
  partitions : List Part := []
  subsumed : List String := []
  basis : Basis := .arcless
  enumerationCapped : Bool := false
  deriving DecidableEq, Repr

structure MemberSubsumption where
  frontier : String → List String → Option (List String)
  isSubsumed : String → String → String → Bool

/-- `identity_verified` of two values that are there. -/
def identityVerified (reported computed : ℚ) : Bool := |reported - computed| ≤ tolerance

/-- `tuple(dict.fromkeys(…))` -/
def fromKeys {α : Type} [DecidableEq α] : List α → List α
  | [] => []
  | a :: l => a :: (fromKeys l).filter (· ≠ a)

/-- `sorted` of names. -/
def sortedNames (names : List String) : List String := names.insertionSort (· ≤ ·)

/-! ## Partitions in order -/

/-- `(-len(part), part)` of the one is no later than of the other. -/
def finerFirst (p q : Part) : Prop := q.length < p.length ∨ p.length = q.length ∧ p ≤ q

instance : DecidableRel finerFirst := fun p q =>
  inferInstanceAs (Decidable (q.length < p.length ∨ p.length = q.length ∧ p ≤ q))

def sortedPartitions (found : List Part) : List Part := (fromKeys found).insertionSort finerFirst

def ordered (found : List Part) : List Part := (sortedPartitions found).take maxPartitions

/-- The loop of `_disjoint_family`. -/
def familyLoop : List String → List Part → List Part
  | _, [] => []
  | used, part :: parts =>
    if part.any (· ∈ used) then familyLoop used parts
    else part :: familyLoop (used ++ part) parts

def disjointFamily (partitions : List Part) : List Part := familyLoop [] (sortedPartitions partitions)

def hasDisjointPair (partitions : List Part) : Bool := 2 ≤ (disjointFamily partitions).length

section Values
variable (values : Dict String ℚ)

def value (member : String) : ℚ := (values.get? member).getD 0

def sumOf (members : List String) : ℚ := (members.map (value values)).sum

/-! ## The subset search -/

structure Search where
  nodes : Nat
  capped : Bool
  found : List Part

def suffix (members : List String) : ℚ := (members.map fun member => |value values member|).sum

section Visit
variable (total : ℚ) (want : Nat)

def Search.tick (s : Search) : Search :=
  { s with nodes := s.nodes + 1, capped := maxEnumNodes < s.nodes + 1 }

def Search.record (s : Search) (chosen : Part) (current : ℚ) : Search :=
  if chosen ≠ [] ∧ identityVerified total current = true ∧ sortedNames chosen ∉ s.found then
    { s with found := s.found ++ [sortedNames chosen] }
  else s

def visit : List String → Part → ℚ → Search → Search
  | members, chosen, current, s =>
    if s.capped = true ∨ want ≤ s.found.length then s
    else if s.tick.capped = true then s.tick
    else
      let s := s.tick.record total chosen current
      if want ≤ s.found.length then s
      else
        match members with
        | [] => s
        | member :: rest =>
          if |total - current| - suffix values (member :: rest) > tolerance then s
          else
            visit rest chosen current
              (visit rest (chosen ++ [member]) (current + value values member) s)

/-- `_collect_partitions`, on the budget that is left. -/
def collectPartitions (members : List String) (state : Search) : Search :=
  visit values total want members [] 0 { state with found := [] }

end Visit

/-- `key=lambda member: (-abs(values[member]), member)` -/
def largerFirst (a b : String) : Prop :=
  |value values b| < |value values a| ∨ |value values a| = |value values b| ∧ a ≤ b

instance : DecidableRel (largerFirst values) := fun a b =>
  inferInstanceAs (Decidable (|value values b| < |value values a| ∨
    |value values a| = |value values b| ∧ a ≤ b))

def enumeratePartitions (work : List String) (total : ℚ) : List Part × Bool :=
  let members := work.insertionSort (largerFirst values)
  if maxEnumMembers < members.length then ([], true)
  else
    let first := collectPartitions values total 1 members ⟨0, false, []⟩
    match first.found with
    | [] => ([], first.capped)
    | pivot :: _ =>
      let complement := members.filter (· ∉ pivot)
      let second := collectPartitions values total 1 complement first
      let rest := collectPartitions values total maxCandidates members second
      let capped := rest.capped || maxCandidates ≤ rest.found.length
      match second.found with
      | [] => (fromKeys rest.found, capped)
      | other :: _ => (fromKeys (pivot :: other :: rest.found), capped)

/-! ## The verdict -/

/-- `_unique_clean`; the signs of the nonzero members are one. -/
def uniqueClean (work : List String) (total workSum : ℚ) : Bool :=
  identityVerified total workSum &&
    (fromKeys ((work.filter fun member => value values member ≠ 0).map fun member =>
      decide (0 < value values member))).length = 1 &&
    work.all fun member => value values member ≠ 0

/-- `_level_partitions`; the ranks ascend, the members of each keep their order. -/
def levelPartitions (work : List String) (total : ℚ) (axis : Option String)
    (subsumption : Option MemberSubsumption) : List Part :=
  match subsumption, axis with
  | some subsumption, some axis =>
    let rank := fun member =>
      work.countP fun other => other ≠ member ∧ subsumption.isSubsumed axis member other
    let ranks := ((work.map rank).dedup).insertionSort (· ≤ ·)
    let groups := ranks.map fun r => sortedNames (work.filter fun member => rank member = r)
    groups.filter fun group => identityVerified total (sumOf values group)
  | _, _ => []

def verdictKind (work nonzero : List String) (total : ℚ) (partitions : List Part) (capped : Bool) :
    PartitionKind :=
  if hasDisjointPair partitions then .overlappingPartitions
  else if partitions.length = 1 ∧ (∀ part ∈ partitions, part.toFinset = nonzero.toFinset) ∧
      capped = false then .cleanPartition
  else if partitions ≠ [] then .overUnexplained
  else if sumOf values work < total - tolerance then .incomplete
  else .overUnexplained

def classifyWork (work : List String) (total : ℚ) (axis : Option String)
    (subsumption : Option MemberSubsumption) (subsumed : List String) (basis : Basis) :
    PartitionClassification :=
  let nonzero := work.filter fun member => value values member ≠ 0
  if uniqueClean values work total (sumOf values work) = true then
    ⟨.cleanPartition, [sortedNames work], subsumed, basis, false⟩
  else
    let (found, capped) := enumeratePartitions values nonzero total
    let found :=
      if capped = true ∧ hasDisjointPair found = false then
        found ++ levelPartitions values work total axis subsumption
      else found
    let partitions := (fromKeys (disjointFamily found ++ ordered found)).take maxPartitions
    ⟨verdictKind values work nonzero total partitions capped, partitions, subsumed, basis, capped⟩

def classifyPartitions (total : ℚ) (axis : Option String) (subsumption : Option MemberSubsumption) :
    PartitionClassification :=
  let filed := sortedNames values.keys
  let basis := if subsumption.isSome ∧ axis.isSome then Basis.arcs else Basis.arcless
  let frontier := subsumption.bind fun s => axis.bind fun a => s.frontier a filed
  let subsumed := match frontier with
    | none => []
    | some keep => filed.filter (· ∉ keep)
  if filed = [] then { kind := .incomplete, basis := basis }
  else
    match frontier with
    | none => classifyWork values filed total axis subsumption subsumed basis
    | some keep =>
      if subsumed ≠ [] ∧ identityVerified total (sumOf values keep) = true then
        ⟨.nestedMembers, [sortedNames keep], subsumed, basis, false⟩
      else classifyWork values keep total axis subsumption subsumed basis

end Values

example : (classifyPartitions ⟨[("x:A", 600), ("x:B", 400), ("x:C", 30)], by decide⟩ 1000 none none).kind =
    .overUnexplained := by decide +kernel

end EdgarSec.Xbrl
