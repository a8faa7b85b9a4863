import EdgarSec.Xbrl.GroupOrder
import EdgarSec.Xbrl.Identities

/-! A fact that is filed twice, in two contexts that say the same. The identities collapse values
through sets and do not see it; the roll-up of members and the breakdown on an axis count it twice. -/

namespace EdgarSec.Xbrl
open Lib Foundation CounterSolver

/-! ## Lists with the same elements -/

def SameElements {α : Type} (l l' : List α) : Prop := ∀ a, a ∈ l ↔ a ∈ l'

section Elements
variable {α β : Type} {l l' : List α}

theorem SameElements.filter (h : SameElements l l') (p : α → Bool) : SameElements (l.filter p) (l'.filter p) := by
  intro a
  rw [List.mem_filter, List.mem_filter, h a]

theorem SameElements.filterMap (h : SameElements l l') (f : α → Option β) :
    SameElements (l.filterMap f) (l'.filterMap f) := by
  intro b
  simp only [List.mem_filterMap, h _]

theorem SameElements.map (h : SameElements l l') (f : α → β) : SameElements (l.map f) (l'.map f) := by
  intro b
  simp only [List.mem_map, h _]

theorem SameElements.nil_iff (h : SameElements l l') : l = [] ↔ l' = [] := by
  rw [List.eq_nil_iff_forall_not_mem, List.eq_nil_iff_forall_not_mem]
  exact forall_congr' fun a => not_congr (h a)

theorem SameElements.max? {l l' : List Nat} (h : SameElements l l') : l.max? = l'.max? := by
  apply Option.ext
  intro n
  rw [List.max?_eq_some_iff, List.max?_eq_some_iff, h n]
  exact and_congr_right fun _ => forall_congr' fun m => imp_congr_left (h m)

theorem SameElements.min? {l l' : List Nat} (h : SameElements l l') : l.min? = l'.min? := by
  apply Option.ext
  intro n
  rw [List.min?_eq_some_iff, List.min?_eq_some_iff, h n]
  exact and_congr_right fun _ => forall_congr' fun m => imp_congr_left (h m)

theorem SameElements.onlyValue [DecidableEq α] (h : SameElements l l') : onlyValue l = onlyValue l' := by
  have hdedup : l.dedup.Perm l'.dedup := by
    apply (List.perm_ext_iff_of_nodup (List.nodup_dedup l) (List.nodup_dedup l')).mpr
    intro a
    rw [List.mem_dedup, List.mem_dedup, h a]
  have hvalue := onlyValue_perm hdedup
  simpa only [CounterSolver.onlyValue, List.dedup_idem] using hvalue

theorem sameElements_insert {pre post : List α} {a : α} (h : a ∈ pre ++ post) :
    SameElements (pre ++ a :: post) (pre ++ post) := by
  intro b
  rw [List.mem_append] at h
  simp only [List.mem_append, List.mem_cons]
  constructor
  · intro hb
    obtain hpre | rfl | hpost := hb
    · exact Or.inl hpre
    · exact h
    · exact Or.inr hpost
  · intro hb
    exact hb.imp_right Or.inr

end Elements

/-! ## The identities -/

section Identities
variable {u : UpperCase} (d : Decomposer u) {l l' : List (XbrlFact ℚ)}

theorem uniqueValue_congr (h : SameElements l l') : uniqueValue l = uniqueValue l' := by
  rw [uniqueValue, uniqueValue, (h.map factContext).onlyValue, (h.filterMap _).onlyValue]

theorem slotMatches_congr (h : SameElements l l') (slot : Slot u) (periodType : Option String) :
    SameElements (slotMatches d l slot periodType) (slotMatches d l' slot periodType) := (h.filter _).filter _

theorem cleanestFacts_congr (h : SameElements l l') : SameElements (cleanestFacts d l) (cleanestFacts d l') := by
  have hleast := (h.map fun f => d.intentResidualsOf f.conceptQname).min?
  rw [cleanestFacts, cleanestFacts, hleast]
  exact h.filter _

theorem slotCleanest_congr (h : SameElements l l') (slot : Slot u) (periodType : Option String) :
    SameElements (slotCleanest d l slot periodType) (slotCleanest d l' slot periodType) :=
  cleanestFacts_congr d (slotMatches_congr d h slot periodType)

theorem findSlotValue_congr (h : SameElements l l') : findSlotValue d l = findSlotValue d l' := by
  funext slot periodType
  exact uniqueValue_congr (slotCleanest_congr d h slot periodType)

theorem findFactValue_congr (h : SameElements l l') : findFactValue l = findFactValue l' := by
  funext conceptQname periodType
  exact uniqueValue_congr (h.filter _)

theorem numeratorFactsOf_congr (h : SameElements l l') (diluted : Bool) (tier : Slot u) :
    SameElements (numeratorFactsOf d l diluted tier) (numeratorFactsOf d l' diluted tier) := by
  have hfound := slotMatches_congr d h tier (some "duration")
  have hsame := hfound.filter fun fact => decide (variantModifier diluted ∈ (d.atomOf fact.conceptQname).modifiers)
  unfold numeratorFactsOf
  dsimp only
  by_cases hnil : (slotMatches d l tier (some "duration")).filter
      (fun fact => decide (variantModifier diluted ∈ (d.atomOf fact.conceptQname).modifiers)) = []
  · rw [if_pos hnil, if_pos (hsame.nil_iff.mp hnil)]
    exact cleanestFacts_congr d hfound
  · rw [if_neg hnil, if_neg (mt hsame.nil_iff.mpr hnil)]
    exact cleanestFacts_congr d hsame

def EpsLegs.values (legs : EpsLegs) : ℚ × ℚ := (legs.numeratorValue, legs.sharesValue)

theorem epsIdentityLegs_congr (h : SameElements l l') (diluted : Bool) :
    (epsIdentityLegs d l diluted).map EpsLegs.values = (epsIdentityLegs d l' diluted).map EpsLegs.values := by
  have hshares := uniqueValue_congr (slotCleanest_congr d h (slotShares u diluted) (some "duration"))
  unfold epsIdentityLegs
  simp only [Option.bind_eq_bind, hshares]
  cases uniqueValue (slotCleanest d l' (slotShares u diluted) (some "duration")) with
  | none => rfl
  | some shares =>
    simp only [Option.bind_some]
    split_ifs
    · rfl
    rw [List.map_findSome?, List.map_findSome?]
    apply congrArg (fun f => (numeratorTiers u).findSome? f)
    funext tier
    have hnumerator := uniqueValue_congr (numeratorFactsOf_congr d h diluted tier)
    simp only [Function.comp_apply, Option.map_map, hnumerator]
    rfl

theorem printedTolerance_congr (h : SameElements l l') : printedTolerance l = printedTolerance l' := by
  have hdecimals := ((h.filterMap XbrlFact.decimals).filter fun n => 0 ≤ n).onlyValue
  rw [printedTolerance, printedTolerance, hdecimals]

theorem verifyEpsIdentity_congr (h : SameElements l l') (tolerance : Option ℚ) (diluted : Bool) :
    verifyEpsIdentity d l tolerance diluted = verifyEpsIdentity d l' tolerance diluted := by
  have hmatches := slotCleanest_congr d h (slotEps u diluted) (some "duration")
  have hlegs := epsIdentityLegs_congr d h diluted
  unfold verifyEpsIdentity
  simp only [Option.bind_eq_bind, uniqueValue_congr hmatches, printedTolerance_congr hmatches]
  apply congrArg (fun f => (uniqueValue (slotCleanest d l' (slotEps u diluted) (some "duration"))).bind f)
  funext eps
  cases hl : epsIdentityLegs d l diluted with
  | none =>
    rw [hl] at hlegs
    rw [Option.map_eq_none_iff.mp hlegs.symm]
  | some legs =>
    rw [hl] at hlegs
    obtain ⟨legs', hl', hvalues⟩ := Option.map_eq_some_iff.mp hlegs.symm
    have hnumerator : legs'.numeratorValue = legs.numeratorValue := congrArg Prod.fst hvalues
    have hshares : legs'.sharesValue = legs.sharesValue := congrArg Prod.snd hvalues
    rw [hl', Option.bind_some, Option.bind_some, hnumerator, hshares]

end Identities

/-! ## Selection -/

section Selection
variable {u : UpperCase} (d : Decomposer u) (scope : Option FactScope) {l l' : List (XbrlFact ℚ)}

def kept (scope : Option FactScope) (facts : List (XbrlFact ℚ)) (fact : XbrlFact ℚ) : Bool :=
  match scope with
  | none => true
  | some scope => survives scope.lineages (facts.filter scope.isMatch) fact && scope.isMatch fact

theorem selectedFacts_eq_filter (facts : List (XbrlFact ℚ)) :
    selectedFacts scope facts = facts.filter (kept scope facts) := by
  cases scope with
  | none =>
    rw [show kept none facts = fun _ => true from rfl, List.filter_true]
    rfl
  | some scope =>
    have hkept : (facts.filter scope.isMatch).filter (survives scope.lineages (facts.filter scope.isMatch)) =
        facts.filter (kept (some scope) facts) := List.filter_filter
    rw [← hkept, selectedFacts]
    show scope.select facts = supersedeFacts (facts.filter scope.isMatch) scope.lineages
    unfold FactScope.select
    split_ifs with h
    · rw [h, supersedeFacts_nil]
    · rfl

theorem survives_congr (h : SameElements l l') (lineages : List AmendmentLineage) :
    survives lineages l = survives lineages l' := by
  have hbest : best lineages l = best lineages l' := by
    funext group key
    apply SameElements.max?
    intro rank
    rw [mem_carriedRanks, mem_carriedRanks]
    simp only [h _]
  funext fact
  rw [survives, survives, hbest]

theorem kept_congr (h : SameElements l l') : kept scope l = kept scope l' := by
  funext fact
  cases scope with
  | none => rfl
  | some scope => rw [kept, kept, survives_congr (h.filter scope.isMatch)]

theorem selectedFacts_congr (h : SameElements l l') :
    SameElements (selectedFacts scope l) (selectedFacts scope l') := by
  rw [selectedFacts_eq_filter, selectedFacts_eq_filter, kept_congr scope h]
  exact h.filter _

theorem verifyAllAccountingIdentities_congr (h : SameElements l l') (tolerance : ℚ) :
    verifyAllAccountingIdentities d l tolerance scope = verifyAllAccountingIdentities d l' tolerance scope := by
  have hselected := selectedFacts_congr scope h
  simp only [verifyAllAccountingIdentities, verifyBalanceSheetIdentity, verifyGrossProfitIdentity,
    verifyOperatingIncomeIdentity, opexTotal, findSlotValue_congr d hselected, verifyEpsIdentity_congr d hselected]

end Selection

/-! ## The roll-up -/

section Rollup
variable (scope : Option FactScope) (totalQname axisQname : String) (tolerance : ℚ)
variable {pre post : List (XbrlFact ℚ)} {g : XbrlFact ℚ}

def memberSum (facts : List (XbrlFact ℚ)) : ℚ :=
  ((selectedFacts scope facts).filterMap (memberValue totalQname axisQname)).sum

def addedValue (facts : List (XbrlFact ℚ)) (g : XbrlFact ℚ) : ℚ :=
  if g ∈ selectedFacts scope facts then (memberValue totalQname axisQname g).getD 0 else 0

theorem memberSum_insert (h : g ∈ pre ++ post) : memberSum scope totalQname axisQname (pre ++ g :: post) =
    memberSum scope totalQname axisQname (pre ++ post) + addedValue scope totalQname axisQname (pre ++ post) g := by
  have hkept := kept_congr scope (sameElements_insert h)
  have hmem : g ∈ selectedFacts scope (pre ++ post) ↔ kept scope (pre ++ post) g = true := by
    rw [selectedFacts_eq_filter, List.mem_filter]
    exact and_iff_right h
  unfold memberSum addedValue
  rw [selectedFacts_eq_filter, hkept, List.filter_append, List.filter_cons]
  by_cases hg : kept scope (pre ++ post) g = true
  · rw [if_pos hg, if_pos (hmem.mpr hg), selectedFacts_eq_filter, List.filter_append, List.filterMap_append,
      List.filterMap_append, List.sum_append, List.sum_append, List.filterMap_cons]
    cases memberValue totalQname axisQname g with
    | none => simp
    | some value =>
      simp only [List.sum_cons, Option.getD_some]
      ring
  · rw [if_neg hg, if_neg (mt hmem.mp hg), selectedFacts_eq_filter, List.filter_append, add_zero]

/-- The members summed do not show the value added, nor does the difference to the total. -/
def RollupKept (facts : List (XbrlFact ℚ)) (g : XbrlFact ℚ) : Prop :=
  ∀ totalVal, findFactValue (selectedFacts scope facts) totalQname none = some totalVal →
    round4 (memberSum scope totalQname axisQname facts + addedValue scope totalQname axisQname facts g) =
      round4 (memberSum scope totalQname axisQname facts) ∧
    round4 (totalVal - (memberSum scope totalQname axisQname facts + addedValue scope totalQname axisQname facts g)) =
      round4 (totalVal - memberSum scope totalQname axisQname facts)

theorem verifyDimensionalRollup_eq (facts : List (XbrlFact ℚ)) :
    verifyDimensionalRollup facts totalQname axisQname tolerance scope =
      if (selectedFacts scope facts).filterMap (memberValue totalQname axisQname) = [] then none
      else (findFactValue (selectedFacts scope facts) totalQname none).map fun totalVal =>
        compareSides ("ID_DIM_ROLLUP_" ++ lastPart totalQname)
          ("Total(" ++ totalQname ++ ") == Sum(" ++ axisQname ++ " members)") totalVal
          (memberSum scope totalQname axisQname facts) tolerance := by
  unfold verifyDimensionalRollup memberSum
  dsimp only
  cases findFactValue (selectedFacts scope facts) totalQname none with
  | none => simp
  | some totalVal =>
    cases (selectedFacts scope facts).filterMap (memberValue totalQname axisQname) with
    | nil => rfl
    | cons value more => rfl

theorem compareSides_eq_iff {identityName formula : String} {lhs rhs rhs' tolerance : ℚ} :
    compareSides identityName formula lhs rhs tolerance = compareSides identityName formula lhs rhs' tolerance ↔
      round4 rhs = round4 rhs' ∧ round4 (lhs - rhs) = round4 (lhs - rhs') := by
  constructor
  · intro h
    exact ⟨congrArg IdentityVerification.rhsValue h, congrArg IdentityVerification.discrepancy h⟩
  · intro h
    rw [compareSides, compareSides, h.1, h.2]

theorem rollup_insert_iff (h : g ∈ pre ++ post) :
    verifyDimensionalRollup (pre ++ g :: post) totalQname axisQname tolerance scope =
      verifyDimensionalRollup (pre ++ post) totalQname axisQname tolerance scope ↔
    RollupKept scope totalQname axisQname (pre ++ post) g := by
  have hselected := selectedFacts_congr scope (sameElements_insert h)
  have hmembers := hselected.filterMap (memberValue totalQname axisQname)
  rw [verifyDimensionalRollup_eq, verifyDimensionalRollup_eq, findFactValue_congr hselected, memberSum_insert _ _ _ h]
  unfold RollupKept
  by_cases hnil : (selectedFacts scope (pre ++ post)).filterMap (memberValue totalQname axisQname) = []
  · -- Without members nothing is added.
    have hadded : addedValue scope totalQname axisQname (pre ++ post) g = 0 := by
      unfold addedValue
      split_ifs with hg
      · have hnone : memberValue totalQname axisQname g = none := List.filterMap_eq_nil_iff.mp hnil g hg
        rw [hnone]
        rfl
      · rfl
    rw [if_pos hnil, if_pos (hmembers.nil_iff.mpr hnil), hadded]
    simp
  · rw [if_neg hnil, if_neg (mt hmembers.nil_iff.mp hnil)]
    cases findFactValue (selectedFacts scope (pre ++ post)) totalQname none with
    | none => simp
    | some totalVal =>
      rw [Option.map_some, Option.map_some, Option.some.injEq, compareSides_eq_iff]
      simp

end Rollup

/-! ## The breakdown on an axis -/

section Breakdown
variable (edges : List GeoHierarchyEdge) {pre post : List (XbrlFact ℚ)} {g : XbrlFact ℚ}

def keptComponents (all components : List GranularComponent) : List GranularComponent :=
  if all.filter (unsubsumed edges all) = [] then components else components.filter (unsubsumed edges all)

theorem keptComponents_append (all components components' : List GranularComponent) :
    keptComponents edges all (components ++ components') =
      keptComponents edges all components ++ keptComponents edges all components' := by
  unfold keptComponents
  split_ifs
  · rfl
  · exact List.filter_append _ _

theorem unsubsumed_congr {all all' : List GranularComponent} (h : SameElements all all') :
    unsubsumed edges all = unsubsumed edges all' := by
  funext component
  rw [unsubsumed, unsubsumed, Bool.eq_iff_iff, Bool.not_eq_true', Bool.not_eq_true', List.any_eq_false,
    List.any_eq_false]
  exact forall_congr' fun other => imp_congr_left (h other)

theorem keptComponents_congr {all all' : List GranularComponent} (h : SameElements all all') :
    keptComponents edges all = keptComponents edges all' := by
  have hnil := (h.filter (unsubsumed edges all')).nil_iff
  funext components
  simp only [keptComponents, unsubsumed_congr edges h, hnil]

theorem breakdownOf_eq_iff {target : String} {components components' : List GranularComponent}
    {top top' : Option ℚ} :
    breakdownOf target components top = breakdownOf target components' top' ↔ components = components' ∧ top = top' := by
  constructor
  · intro h
    exact ⟨congrArg ConceptBreakdown.components h, congrArg ConceptBreakdown.totalValue h⟩
  · intro h
    rw [h.1, h.2]

variable (targetConcept axis : String) (periodKey : Option PeriodKey)

def componentsOf (facts : List (XbrlFact ℚ)) : List GranularComponent :=
  (facts.filter (inPeriod periodKey)).flatMap (axisComponents (qnameLocal targetConcept) (qnameLocal axis))

def topOf (facts : List (XbrlFact ℚ)) : Option ℚ :=
  (facts.filter (inPeriod periodKey)).findSome? (topCandidate (qnameLocal targetConcept))

theorem componentsOf_append (facts facts' : List (XbrlFact ℚ)) :
    componentsOf targetConcept axis periodKey (facts ++ facts') =
      componentsOf targetConcept axis periodKey facts ++ componentsOf targetConcept axis periodKey facts' := by
  rw [componentsOf, List.filter_append, List.flatMap_append]
  rfl

theorem topOf_append (facts facts' : List (XbrlFact ℚ)) : topOf targetConcept periodKey (facts ++ facts') =
    (topOf targetConcept periodKey facts).or (topOf targetConcept periodKey facts') := by
  rw [topOf, List.filter_append, List.findSome?_append]
  rfl

theorem componentsOf_congr {l l' : List (XbrlFact ℚ)} (h : SameElements l l') :
    SameElements (componentsOf targetConcept axis periodKey l) (componentsOf targetConcept axis periodKey l') := by
  intro component
  simp only [componentsOf, List.mem_flatMap, List.mem_filter, h _]

/-- The components of the fact are all subsumed by others, or it has none. -/
def ComponentsKept (facts : List (XbrlFact ℚ)) (g : XbrlFact ℚ) : Prop :=
  keptComponents edges (componentsOf targetConcept axis periodKey facts)
    (componentsOf targetConcept axis periodKey [g]) = []

/-- The fact is no total, or comes behind one, or before one of the same number. -/
def TopKept (pre post : List (XbrlFact ℚ)) (g : XbrlFact ℚ) : Prop :=
  topOf targetConcept periodKey [g] = none ∨ (topOf targetConcept periodKey pre).isSome ∨
    topOf targetConcept periodKey post = topOf targetConcept periodKey [g]

theorem breakdown_insert_iff (h : g ∈ pre ++ post) :
    breakdownOnAxis edges targetConcept (pre ++ g :: post) axis periodKey =
      breakdownOnAxis edges targetConcept (pre ++ post) axis periodKey ↔
    ComponentsKept edges targetConcept axis periodKey (pre ++ post) g ∧ TopKept targetConcept periodKey pre post g := by
  have hsplit : pre ++ g :: post = pre ++ ([g] ++ post) := rfl
  have hsame := componentsOf_congr targetConcept axis periodKey (sameElements_insert h)
  have hbreakdown : ∀ facts, breakdownOnAxis edges targetConcept facts axis periodKey =
      breakdownOf targetConcept (keptComponents edges (componentsOf targetConcept axis periodKey facts)
        (componentsOf targetConcept axis periodKey facts)) (topOf targetConcept periodKey facts) := fun _ => rfl
  rw [hbreakdown, hbreakdown, breakdownOf_eq_iff, keptComponents_congr edges hsame]
  apply and_congr
  · rw [hsplit, componentsOf_append, componentsOf_append, keptComponents_append, keptComponents_append,
      componentsOf_append, keptComponents_append, ← componentsOf_append]
    unfold ComponentsKept
    constructor
    · intro heq
      have hlength := congrArg List.length heq
      simp only [List.length_append] at hlength
      apply List.eq_nil_of_length_eq_zero
      omega
    · intro hnil
      rw [hnil, List.nil_append]
  · rw [hsplit, topOf_append, topOf_append, topOf_append]
    unfold TopKept
    cases topOf targetConcept periodKey pre with
    | some top => simp
    | none =>
      cases topOf targetConcept periodKey [g] with
      | none => simp
      | some top =>
        simp only [Option.none_or, Option.some_or, Option.isSome_none, Bool.false_eq_true, false_or, reduceCtorEq]
        exact eq_comm

end Breakdown

/-! ## All checks -/

structure Checks (u : UpperCase) where
  decomposer : Decomposer u
  edges : List GeoHierarchyEdge
  tolerance : ℚ
  scope : Option FactScope
  totalQname : String
  axisQname : String
  targetConcept : String
  axis : String
  periodKey : Option PeriodKey

section Checks
variable {u : UpperCase} (c : Checks u) {pre post : List (XbrlFact ℚ)} {g : XbrlFact ℚ}

/-- The same fact filed once more, between `pre` and `post`, changes no outcome. -/
structure IgnoresDuplicate (pre post : List (XbrlFact ℚ)) (g : XbrlFact ℚ) : Prop where
  identities : verifyAllAccountingIdentities c.decomposer (pre ++ g :: post) c.tolerance c.scope =
    verifyAllAccountingIdentities c.decomposer (pre ++ post) c.tolerance c.scope
  rollup : verifyDimensionalRollup (pre ++ g :: post) c.totalQname c.axisQname c.tolerance c.scope =
    verifyDimensionalRollup (pre ++ post) c.totalQname c.axisQname c.tolerance c.scope
  breakdown : breakdownOnAxis c.edges c.targetConcept (pre ++ g :: post) c.axis c.periodKey =
    breakdownOnAxis c.edges c.targetConcept (pre ++ post) c.axis c.periodKey

end Checks

def segmentRevenue (value : ℚ) (dimensions : Dict String String) : XbrlFact ℚ where
  accession := "0000950170-24-087843"
  conceptQname := "us-gaap:Revenues"
  value := .number value
  unit := some "USD"
  decimals := some 0
  periodType := "duration"
  startDate := some "2023-07-01"
  endDate := some "2024-06-30"
  instantDate := none
  dimensions := dimensions

def inSegment (member : String) : Dict String String := ⟨[("srt:SegmentAxis", member)], List.nodup_singleton _⟩

def allRevenue : XbrlFact ℚ := segmentRevenue 100 ⟨[], List.nodup_nil⟩
def cloudRevenue : XbrlFact ℚ := segmentRevenue 60 (inSegment "msft:Cloud")
def deviceRevenue : XbrlFact ℚ := segmentRevenue 40 (inSegment "msft:Devices")

theorem plain_upper_upper (c : Char) (hc : isAscii c = false) (d : Char) (hd : d ∈ [c]) :
    (if isAscii d then [d.toUpper] else [d]) = [d] := by
  rw [List.mem_singleton.mp hd, hc]
  rfl

theorem plain_upper_space (c : Char) (_ : isAscii c = false) (hspace : isPySpace c = false) (d : Char) (hd : d ∈ [c]) :
    isPySpace d = false := by
  rw [List.mem_singleton.mp hd, hspace]

def plainCase : UpperCase where
  casefold c := [c]
  lower _ _ c := [c]
  upper c := [c]
  decimal _ := none
  isDigit _ := false
  nfkc text := text
  decimal_space := no_decimal_space
  upper_ne_nil c _ := List.cons_ne_nil c []
  upper_upper := plain_upper_upper
  upper_space := plain_upper_space

def segmentChecks : Checks plainCase where
  decomposer := ⟨fun _ => Atom.new plainCase "H_REVENUE" ∅, fun _ => 0⟩
  edges := []
  tolerance := 15 / 100
  scope := none
  totalQname := "us-gaap:Revenues"
  axisQname := "srt:SegmentAxis"
  targetConcept := "us-gaap:Revenues"
  axis := "srt:SegmentAxis"
  periodKey := none

end EdgarSec.Xbrl
