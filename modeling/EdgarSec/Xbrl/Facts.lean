import EdgarSec.Lib.Chunks
import EdgarSec.Lib.Dict
import EdgarSec.Lib.Reach

/-! Facts of a filing and the arcs of its calculation linkbase. The figures are of any type. -/

namespace EdgarSec.Xbrl
open Lib

/-- `split_concept_qname(qname)[1]` -/
def qnameLocal (qname : String) : String :=
  match qname.toList.dropWhile (· ≠ ':') with
  | [] => qname
  | _ :: name => String.ofList name

structure CalculationArc (V : Type) where
  parentQname : String
  childQname : String
  weight : V
  order : Option V
deriving DecidableEq

/-- `float | str | None` -/
inductive FactValue (V : Type) where
  | number (v : V)
  | text (s : String)
  | missing
deriving DecidableEq

def FactValue.number? {V : Type} : FactValue V → Option V
  | .number v => some v
  | .text _ => none
  | .missing => none

structure XbrlFact (V : Type) where
  accession : String
  conceptQname : String
  value : FactValue V
  unit : Option String
  decimals : Option Int
  periodType : String
  startDate : Option String
  endDate : Option String
  instantDate : Option String
  dimensions : Dict String String
deriving DecidableEq

/-! ## What a concept reaches -/

section Arcs
variable {V : Type} (arcs : List (CalculationArc V))

def calcChildren (parent : String) : List String :=
  ((arcs.filter fun arc => arc.parentQname = parent).map CalculationArc.childQname).dedup

def reachSteps : Nat := 2 * arcs.length + 1

/-- `build_reachability_map(…)[node]` -/
def reachability (node : String) : List String :=
  search (calcChildren arcs) (reachSteps arcs) (calcChildren arcs node) []

variable {arcs} {a b : String}

theorem mem_calcChildren : b ∈ calcChildren arcs a ↔
    ∃ arc ∈ arcs, arc.parentQname = a ∧ arc.childQname = b := by
  simp [calcChildren, and_assoc]

theorem mem_reachability : b ∈ reachability arcs a ↔
    Relation.TransGen (Edge (calcChildren arcs)) a b := by
  have hclosed : ∀ x ∈ (arcs.map CalculationArc.childQname).dedup, ∀ y ∈ calcChildren arcs x,
      y ∈ (arcs.map CalculationArc.childQname).dedup := by
    intro x _ y hy
    obtain ⟨arc, harc, _, rfl⟩ := mem_calcChildren.mp hy
    exact List.mem_dedup.mpr (List.mem_map_of_mem harc)
  have hstart : ∀ x ∈ calcChildren arcs a, x ∈ (arcs.map CalculationArc.childQname).dedup := by
    intro x hx
    obtain ⟨arc, harc, _, rfl⟩ := mem_calcChildren.mp hx
    exact List.mem_dedup.mpr (List.mem_map_of_mem harc)
  have hchildren : ∀ x, (calcChildren arcs x).length ≤
      (arcs.filter fun arc => arc.parentQname = x).length := by
    intro x
    have hdedup := (List.dedup_sublist ((arcs.filter fun arc => arc.parentQname = x).map
      CalculationArc.childQname)).length_le
    rwa [List.length_map] at hdedup
  have hleft : edgesLeft (calcChildren arcs) (arcs.map CalculationArc.childQname).dedup [] ≤
      arcs.length := by
    have hrows := sum_length_filter_le CalculationArc.parentQname
      ((List.nodup_dedup (arcs.map CalculationArc.childQname)).filter (· ∉ ([] : List String))) arcs
    exact le_trans (List.sum_le_sum fun x _ => hchildren x) hrows
  have hstack : (calcChildren arcs a).length ≤ arcs.length :=
    (hchildren a).trans (List.length_filter_le _ _)
  rw [reachability, mem_search_iff (List.nodup_dedup _) hclosed hstart
    (fun x hx => absurd hx List.not_mem_nil) (by unfold reachSteps; omega), List.nil_append]
  constructor
  · intro h
    obtain ⟨x, hx, hxb⟩ := h
    exact Relation.TransGen.head' hx hxb
  · intro h
    obtain ⟨x, hx, hxb⟩ := Relation.TransGen.head'_iff.mp h
    exact ⟨x, hx, hxb⟩

end Arcs
end EdgarSec.Xbrl
