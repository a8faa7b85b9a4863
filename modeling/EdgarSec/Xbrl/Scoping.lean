import EdgarSec.Xbrl.FinerGroups

/-! Scopes of facts, and the amendments that supersede them. A scope filters by the unit too, which
is no part of the key that an amendment restates. -/

namespace EdgarSec.Xbrl
open Lib

/-! ## Keys and lineages -/

structure AmendmentLineage where
  cik : String
  form : String
  reportPeriod : String
  accessions : List String
deriving DecidableEq

structure FactKey where
  conceptQname : String
  periodType : String
  startDate : Option String
  endDate : Option String
  instantDate : Option String
  dimensions : List (String × String)
deriving DecidableEq

section Facts
variable {V : Type}

def factKey (fact : XbrlFact V) : FactKey where
  conceptQname := fact.conceptQname
  periodType := fact.periodType
  startDate := fact.startDate
  endDate := fact.endDate
  instantDate := fact.instantDate
  dimensions := (fact.dimensions.sortedBy CounterSolver.dimensionLe).items

/-- The entries of `ranks` in the order they are written. -/
def rankEntries (lineages : List AmendmentLineage) : List (String × Nat × Nat) :=
  lineages.zipIdx.flatMap fun lineage =>
    lineage.1.accessions.zipIdx.map fun accession => (accession.1, lineage.2, accession.2)

/-- `ranks.get(accession)`: the lineage and the rank in it; the last entry written counts. -/
def rankOf (lineages : List AmendmentLineage) (accession : String) : Option (Nat × Nat) :=
  (rankEntries lineages).reverse.lookup accession

def carriedRanks (lineages : List AmendmentLineage) (pool : List (XbrlFact V)) (group : Nat) (key : FactKey) :
    List Nat :=
  pool.filterMap fun fact =>
    match rankOf lineages fact.accession with
    | some (g, rank) => if g = group ∧ factKey fact = key then some rank else none
    | none => none

/-- `best[group, key]` after the loop over the pool. -/
def best (lineages : List AmendmentLineage) (pool : List (XbrlFact V)) (group : Nat) (key : FactKey) : Option Nat :=
  (carriedRanks lineages pool group key).max?

def survives (lineages : List AmendmentLineage) (pool : List (XbrlFact V)) (fact : XbrlFact V) : Bool :=
  match rankOf lineages fact.accession with
  | none => true
  | some (group, rank) => best lineages pool group (factKey fact) = some rank

def supersedeFacts (facts : List (XbrlFact V)) (lineages : List AmendmentLineage) : List (XbrlFact V) :=
  facts.filter (survives lineages facts)

/-! ## Scopes -/

/-- `bool(date)` -/
def given (date : Option String) : Bool := date.getD "" ≠ ""

structure FactScope where
  accession : Option String
  instantDate : Option String
  startDate : Option String
  endDate : Option String
  unit : Option String
  dimensions : Dict String String
  includeAllDimensions : Bool
  lineages : List AmendmentLineage
  span : startDate.isSome = endDate.isSome
  exclusive : ¬ (given instantDate ∧ (given startDate ∨ given endDate))

def sameEntries (d e : Dict String String) : Bool := d.items.isPerm e.items

namespace FactScope

def admits (scope : FactScope) (fact : XbrlFact V) : Bool :=
  (match scope.instantDate, scope.startDate with
    | some date, _ => fact.periodType = "instant" ∧ fact.instantDate = some date
    | none, some start => fact.periodType = "duration" ∧ fact.startDate = some start ∧ fact.endDate = scope.endDate
    | none, none => true) &&
  (scope.includeAllDimensions || sameEntries fact.dimensions scope.dimensions)

def inUnit (scope : FactScope) (fact : XbrlFact V) : Bool := scope.unit = none ∨ fact.unit = scope.unit

def isMatch (scope : FactScope) (fact : XbrlFact V) : Bool :=
  (¬ given scope.accession ∨ some fact.accession = scope.accession) && scope.inUnit fact && scope.admits fact

def select (scope : FactScope) (facts : List (XbrlFact V)) : List (XbrlFact V) :=
  if scope.lineages = [] then facts.filter scope.isMatch
  else supersedeFacts (facts.filter scope.isMatch) scope.lineages

def withLineages (scope : FactScope) (lineages : List AmendmentLineage) : FactScope :=
  { scope with lineages := lineages }

end FactScope

/-! ## What supersedes a fact -/

def Restates (lineages : List AmendmentLineage) (later fact : XbrlFact V) : Prop :=
  ∃ group rank rank', rankOf lineages fact.accession = some (group, rank) ∧
    rankOf lineages later.accession = some (group, rank') ∧ rank < rank' ∧ factKey later = factKey fact

section Supersede
variable {lineages : List AmendmentLineage} {pool : List (XbrlFact V)} {fact : XbrlFact V}

theorem mem_carriedRanks {group : Nat} {key : FactKey} {rank : Nat} :
    rank ∈ carriedRanks lineages pool group key ↔
      ∃ fact ∈ pool, rankOf lineages fact.accession = some (group, rank) ∧ factKey fact = key := by
  unfold carriedRanks
  rw [List.mem_filterMap]
  constructor
  · intro h
    obtain ⟨fact, hfact, hrank⟩ := h
    cases hfound : rankOf lineages fact.accession with
    | none =>
      rw [hfound] at hrank
      cases hrank
    | some found =>
      rw [hfound] at hrank
      dsimp only at hrank
      split_ifs at hrank with hkey
      cases hrank
      exact ⟨fact, hfact, by rw [hfound, ← hkey.1], hkey.2⟩
  · intro h
    obtain ⟨fact, hfact, hfound, hkey⟩ := h
    exact ⟨fact, hfact, by simp [hfound, hkey]⟩

theorem survives_iff (h : fact ∈ pool) :
    survives lineages pool fact = true ↔ ∀ later ∈ pool, ¬ Restates lineages later fact := by
  unfold survives
  cases hfound : rankOf lineages fact.accession with
  | none =>
    have hnever : ∀ later ∈ pool, ¬ Restates lineages later fact := by
      intro later _ hlater
      obtain ⟨group, rank, _, hrank, _⟩ := hlater
      rw [hfound] at hrank
      cases hrank
    exact iff_of_true rfl hnever
  | some found =>
    obtain ⟨group, rank⟩ := found
    have hown : rank ∈ carriedRanks lineages pool group (factKey fact) :=
      mem_carriedRanks.mpr ⟨fact, h, hfound, rfl⟩
    show decide (best lineages pool group (factKey fact) = some rank) = true ↔ _
    rw [decide_eq_true_iff, best, List.max?_eq_some_iff]
    constructor
    · intro hmax later hlater hrestates
      obtain ⟨group', rank', later', hrank, hrank', hlt, hkey⟩ := hrestates
      rw [hfound] at hrank
      cases hrank
      have hle := hmax.2 later' (mem_carriedRanks.mpr ⟨later, hlater, hrank', hkey⟩)
      omega
    · intro hnone
      refine ⟨hown, ?_⟩
      intro rank' hrank'
      obtain ⟨later, hlater, hfound', hkey⟩ := mem_carriedRanks.mp hrank'
      by_contra hlt
      exact hnone later hlater ⟨group, rank, rank', hfound, hfound', by omega, hkey⟩

theorem mem_supersedeFacts : fact ∈ supersedeFacts pool lineages ↔
    fact ∈ pool ∧ ∀ later ∈ pool, ¬ Restates lineages later fact := by
  rw [supersedeFacts, List.mem_filter]
  exact and_congr_right survives_iff

theorem supersedeFacts_nil : supersedeFacts pool [] = pool := by
  apply List.filter_eq_self.mpr
  intro fact _
  rfl

end Supersede

/-! ## Scoping and superseding -/

section Commute
variable {lineages : List AmendmentLineage} {pool : List (XbrlFact V)} {scope : FactScope} {fact fact' : XbrlFact V}

theorem dimensions_of_factKey (h : factKey fact = factKey fact') :
    fact.dimensions.items.Perm fact'.dimensions.items := by
  have hsorted : (fact.dimensions.sortedBy CounterSolver.dimensionLe).items =
      (fact'.dimensions.sortedBy CounterSolver.dimensionLe).items := congrArg FactKey.dimensions h
  have hperm : (fact.dimensions.sortedBy CounterSolver.dimensionLe).items.Perm fact.dimensions.items :=
    List.perm_insertionSort _ _
  have hperm' : (fact'.dimensions.sortedBy CounterSolver.dimensionLe).items.Perm fact'.dimensions.items :=
    List.perm_insertionSort _ _
  rw [hsorted] at hperm
  exact hperm.symm.trans hperm'

theorem sameEntries_of_perm {d e : Dict String String} (h : d.items.Perm e.items) (dimensions : Dict String String) :
    sameEntries d dimensions = sameEntries e dimensions := by
  rw [sameEntries, sameEntries, Bool.eq_iff_iff, List.isPerm_iff, List.isPerm_iff]
  exact ⟨fun hd => h.symm.trans hd, fun he => h.trans he⟩

theorem admits_of_factKey (h : factKey fact = factKey fact') : scope.admits fact = scope.admits fact' := by
  have htype : fact.periodType = fact'.periodType := congrArg FactKey.periodType h
  have hstart : fact.startDate = fact'.startDate := congrArg FactKey.startDate h
  have hend : fact.endDate = fact'.endDate := congrArg FactKey.endDate h
  have hinstant : fact.instantDate = fact'.instantDate := congrArg FactKey.instantDate h
  have hdimensions := sameEntries_of_perm (dimensions_of_factKey h) scope.dimensions
  simp only [FactScope.admits, htype, hstart, hend, hinstant, hdimensions]

theorem isMatch_iff (hscope : ¬ given scope.accession) :
    scope.isMatch fact = true ↔ (scope.unit = none ∨ fact.unit = scope.unit) ∧ scope.admits fact = true := by
  simp [FactScope.isMatch, FactScope.inUnit, hscope]

theorem select_withLineages : (scope.withLineages lineages).select pool =
    supersedeFacts (pool.filter scope.isMatch) lineages := by
  unfold FactScope.select
  split_ifs with h
  · have hnil : lineages = [] := h
    rw [hnil, supersedeFacts_nil]
    rfl
  · rfl

structure Commutes (pool : List (XbrlFact V)) (lineages : List AmendmentLineage) (scope : FactScope) : Prop where
  same : (scope.withLineages lineages).select pool =
    (scope.withLineages []).select (supersedeFacts pool lineages)
  current : ∀ fact ∈ (scope.withLineages lineages).select pool, ∀ later ∈ pool, ¬ Restates lineages later fact

/-- A fact of the scope that some later filing restates is restated in the unit of the scope too. -/
def UnitKept (pool : List (XbrlFact V)) (lineages : List AmendmentLineage) (scope : FactScope) : Prop :=
  scope.unit = none ∨ ∀ fact ∈ pool, scope.isMatch fact = true → (∃ later ∈ pool, Restates lineages later fact) →
    ∃ later ∈ pool, Restates lineages later fact ∧ later.unit = scope.unit

theorem restated_in_scope (hscope : ¬ given scope.accession) (h : UnitKept pool lineages scope) (hfact : fact ∈ pool)
    (hmatch : scope.isMatch fact = true) {later : XbrlFact V} (hlater : later ∈ pool)
    (hrestates : Restates lineages later fact) :
    ∃ later ∈ pool, scope.isMatch later = true ∧ Restates lineages later fact := by
  have hadmits : ∀ later, Restates lineages later fact → scope.admits later = true := by
    intro later hrestates
    obtain ⟨_, _, _, _, _, _, hkey⟩ := hrestates
    rw [admits_of_factKey hkey]
    exact ((isMatch_iff hscope).mp hmatch).2
  cases h with
  | inl hnone => exact ⟨later, hlater, (isMatch_iff hscope).mpr ⟨Or.inl hnone, hadmits later hrestates⟩, hrestates⟩
  | inr hkept =>
    obtain ⟨later', hlater', hrestates', hunit⟩ := hkept fact hfact hmatch ⟨later, hlater, hrestates⟩
    exact ⟨later', hlater', (isMatch_iff hscope).mpr ⟨Or.inr hunit, hadmits later' hrestates'⟩, hrestates'⟩

/-- A scope commutes with superseding exactly where the unit it asks for hides no restatement. -/
theorem select_commutes_iff (pool : List (XbrlFact V)) (lineages : List AmendmentLineage) {scope : FactScope}
    (hscope : ¬ given scope.accession) : Commutes pool lineages scope ↔ UnitKept pool lineages scope := by
  have hright : (scope.withLineages []).select (supersedeFacts pool lineages) =
      (supersedeFacts pool lineages).filter scope.isMatch := rfl
  constructor
  · intro h
    by_cases hunit : scope.unit = none
    · exact Or.inl hunit
    right
    intro fact hfact hmatch hrestated
    -- A fact that no later filing restates in the unit is selected, although it is restated.
    by_contra hnone
    have hselected : fact ∈ (scope.withLineages lineages).select pool := by
      rw [select_withLineages, mem_supersedeFacts, List.mem_filter]
      refine ⟨⟨hfact, hmatch⟩, ?_⟩
      intro later hlater hrestates
      obtain ⟨hmem, hlatermatch⟩ := List.mem_filter.mp hlater
      have hin := ((isMatch_iff hscope).mp hlatermatch).1.resolve_left hunit
      exact hnone ⟨later, hmem, hrestates, hin⟩
    obtain ⟨later, hlater, hrestates⟩ := hrestated
    exact h.current fact hselected later hlater hrestates
  · intro h
    have hcurrent : ∀ fact ∈ pool, scope.isMatch fact = true →
        ((∀ later ∈ pool.filter scope.isMatch, ¬ Restates lineages later fact) ↔
          ∀ later ∈ pool, ¬ Restates lineages later fact) := by
      intro fact hfact hmatch
      constructor
      · intro hnone later hlater hrestates
        obtain ⟨later', hlater', hmatch', hrestates'⟩ :=
          restated_in_scope hscope h hfact hmatch hlater hrestates
        exact hnone later' (List.mem_filter.mpr ⟨hlater', hmatch'⟩) hrestates'
      · intro hnone later hlater
        exact hnone later (List.mem_of_mem_filter hlater)
    constructor
    · rw [select_withLineages, hright, supersedeFacts, supersedeFacts, List.filter_filter, List.filter_filter]
      apply List.filter_congr
      intro fact hfact
      by_cases hmatch : scope.isMatch fact = true
      · have hmem : fact ∈ pool.filter scope.isMatch := List.mem_filter.mpr ⟨hfact, hmatch⟩
        rw [Bool.eq_iff_iff, Bool.and_eq_true, Bool.and_eq_true, survives_iff hmem, survives_iff hfact,
          hcurrent fact hfact hmatch]
        exact and_comm
      · rw [Bool.not_eq_true] at hmatch
        rw [hmatch, Bool.and_false, Bool.false_and]
    · intro fact hselected
      rw [select_withLineages, mem_supersedeFacts, List.mem_filter] at hselected
      obtain ⟨⟨hfact, hmatch⟩, hnone⟩ := hselected
      exact (hcurrent fact hfact hmatch).mp hnone

def revenue (accession unit : String) (value : ℚ) : XbrlFact ℚ where
  accession := accession
  conceptQname := "us-gaap:Revenues"
  value := .number value
  unit := some unit
  decimals := some 0
  periodType := "duration"
  startDate := some "2023-01-01"
  endDate := some "2023-12-31"
  instantDate := none
  dimensions := ⟨[], List.nodup_nil⟩

def amended : AmendmentLineage := ⟨"0000320193", "10-K", "2023-12-31", ["0000320193-24-000001", "0000320193-24-000009"]⟩

def unitScope (unit : Option String) : FactScope where
  accession := none
  instantDate := none
  startDate := some "2023-01-01"
  endDate := some "2023-12-31"
  unit := unit
  dimensions := ⟨[], List.nodup_nil⟩
  includeAllDimensions := false
  lineages := []
  span := rfl
  exclusive := by decide

theorem select_commutes_restated :
    ¬ given (unitScope (some "USD")).accession ∧
      (Commutes [revenue "0000320193-24-000001" "USD" 90, revenue "0000320193-24-000009" "USD" 95] [amended]
          (unitScope (some "USD")) ↔
        UnitKept [revenue "0000320193-24-000001" "USD" 90, revenue "0000320193-24-000009" "USD" 95] [amended]
          (unitScope (some "USD"))) :=
  ⟨by decide, select_commutes_iff _ _ (by decide)⟩

/-- The amendment restates the revenue in euros; a query in dollars answers from the original. -/
theorem select_not_commutes :
    ¬ given (unitScope (some "USD")).accession ∧
      ¬ Commutes [revenue "0000320193-24-000001" "USD" 90, revenue "0000320193-24-000009" "EUR" 95] [amended]
        (unitScope (some "USD")) := by
  refine ⟨by decide, ?_⟩
  intro h
  have hcount := congrArg List.length h.same
  revert hcount
  decide +kernel

end Commute
end Facts
end EdgarSec.Xbrl
