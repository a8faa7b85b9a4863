import EdgarSec.Xbrl.Prospects

/-! When the keys that the targets consume do not depend on the order of the facts and arcs. -/

namespace EdgarSec.Xbrl.CounterSolver
open Lib

/-! ## The order of facts and arcs -/

section Order
variable {fs fs' : List Figure} {arcs arcs' : List (CalculationArc ℚ)}

theorem Settling.add_swap (sum : Settling) (weight weight' : ℚ) (child child' : Settling) :
    (sum.add weight child).add weight' child' = (sum.add weight' child').add weight child := by
  cases sum <;> cases child <;> cases child' <;> try rfl
  rename_i p c c'
  have hfigures : Finset.image₂ (fun x y : ℚ × ℚ => (x.1 + y.1 * weight', x.2 + |weight'| * y.2))
      (Finset.image₂ (fun x y => (x.1 + y.1 * weight, x.2 + |weight| * y.2)) p.figures c.figures) c'.figures =
      Finset.image₂ (fun x y => (x.1 + y.1 * weight, x.2 + |weight| * y.2))
        (Finset.image₂ (fun x y => (x.1 + y.1 * weight', x.2 + |weight'| * y.2)) p.figures c'.figures) c.figures := by
    apply Finset.image₂_right_comm
    intro x y z
    exact Prod.ext (add_right_comm _ _ _) (add_right_comm _ _ _)
  have hkeys : p.keys ∪ c.keys ∪ c'.keys = p.keys ∪ c'.keys ∪ c.keys := Finset.union_right_comm _ _ _
  show Settling.ready ⟨_, _, _⟩ = Settling.ready ⟨_, _, _⟩
  rw [hfigures, hkeys]

theorem settleChildren_perm (child : String → Settling) (h : arcs.Perm arcs') :
    settleChildren child arcs = settleChildren child arcs' := by
  apply h.foldl_eq'
  intro x _ y _ sum
  exact sum.add_swap _ _ _ _

theorem eq_nil_iff_of_perm {α : Type} {l l' : List α} (h : l.Perm l') : l = [] ↔ l' = [] := by
  rw [← List.length_eq_zero_iff, ← List.length_eq_zero_iff, h.length_eq]

theorem arcsByParent_perm (h : arcs.Perm arcs') (parent : String) :
    (arcsByParent arcs parent).Perm (arcsByParent arcs' parent) := h.filter _

theorem localParent_perm (h : arcs.Perm arcs') : localParent arcs = localParent arcs' := by
  funext name
  apply onlyValue_perm
  exact (h.map _).filter _

theorem childArcs_perm (h : arcs.Perm arcs') (concept : String) (qname : Option String) :
    (childArcs arcs concept qname).Perm (childArcs arcs' concept qname) := by
  have hnil : ∀ parent, arcsByParent arcs parent ≠ [] ↔ arcsByParent arcs' parent ≠ [] :=
    fun parent => not_congr (eq_nil_iff_of_perm (arcsByParent_perm h parent))
  simp only [childArcs, hnil]
  split_ifs
  · exact arcsByParent_perm h _
  · exact arcsByParent_perm h _
  · rw [arcsByLocal, arcsByLocal, localParent_perm h]
    cases localParent arcs' (qnameLocal concept) with
    | none => exact List.Perm.refl _
    | some parent => exact arcsByParent_perm h parent

theorem hasArcs_perm (h : arcs.Perm arcs') (target : String) : HasArcs arcs target ↔ HasArcs arcs' target := by
  rw [HasArcs, HasArcs, Ne, Ne, eq_nil_iff_of_perm (arcsByParent_perm h target), localParent_perm h]

theorem contextsOf_perm (h : fs.Perm fs') (target : String) : contextsOf fs target = contextsOf fs' target := by
  rw [contextsOf, contextsOf, onlyFigure_perm h]
  apply List.toFinset_eq_of_perm
  exact ((distinctKeys_perm h).filter _).map _

theorem reportOf_perm (h : fs.Perm fs') : reportOf fs = reportOf fs' := by
  funext context concept
  simp only [reportOf, filedName, values_perm h, qnameByLocal_perm h]

theorem settleAggregate_perm (h : fs.Perm fs') (context : ContextKey) (concept : String) :
    settleAggregate fs context concept = settleAggregate fs' context concept := by
  have hgroups := finerGroups_perm h concept context
  unfold settleAggregate
  cases hgs : finerGroups fs concept context with
  | none =>
    cases hgs' : finerGroups fs' concept context with
    | none => rfl
    | some groups' =>
      rw [hgs, hgs'] at hgroups
      cases hgroups
  | some groups =>
    cases hgs' : finerGroups fs' concept context with
    | none =>
      rw [hgs, hgs'] at hgroups
      cases hgroups
    | some groups' =>
      rw [hgs, hgs'] at hgroups
      cases hgroups with
      | some hperm => exact settleGroups_perm hperm

variable (hfs : fs.Perm fs') (harcs : arcs.Perm arcs') (context : ContextKey)
include hfs

theorem tolerance_perm (report : Report) : report.tolerance fs context = report.tolerance fs' context := by
  rw [Report.tolerance, Report.tolerance, finest_perm hfs]

theorem settleUnsummed_perm (concept : String) (report : Report) (balanced : Bool) :
    settleUnsummed fs context concept report balanced = settleUnsummed fs' context concept report balanced := by
  rw [settleUnsummed, settleUnsummed, tolerance_perm hfs, settleAggregate_perm hfs]

theorem settleBalance_perm (report : Report) (sum : Prospect) :
    settleBalance fs context report sum = settleBalance fs' context report sum := by
  simp only [settleBalance, tolerance_perm hfs]

include harcs

theorem settleFrom_perm (child : String → Settling) (concept : String) :
    settleFrom fs arcs context child concept = settleFrom fs' arcs' context child concept := by
  unfold settleFrom
  rw [reportOf_perm hfs]
  cases reportOf fs' context concept with
  | none => rfl
  | some report =>
    have hchildren := childArcs_perm harcs concept report.qname
    have hempty : (childArcs arcs concept report.qname).isEmpty = (childArcs arcs' concept report.qname).isEmpty := by
      rw [Bool.eq_iff_iff, List.isEmpty_iff, List.isEmpty_iff, eq_nil_iff_of_perm hchildren]
    simp only [hempty, settleChildren_perm child hchildren, settleUnsummed_perm hfs, settleBalance_perm hfs]

theorem settle_perm (n : Nat) (visited : Finset String) (concept : String) :
    settle fs arcs context n visited concept = settle fs' arcs' context n visited concept := by
  induction n generalizing visited concept with
  | zero => rfl
  | succ n ih =>
    have hchild : settle fs arcs context n (insert concept visited) =
        settle fs' arcs' context n (insert concept visited) := funext (ih _)
    rw [settle, settle, hchild, settleFrom_perm hfs harcs]

end Order

/-! ## Groups that are consumed -/

section Agree
variable {fs : List Figure} {arcs : List (CalculationArc ℚ)} {context : ContextKey}

def Agreed (fs : List Figure) (context : ContextKey) (key : SemanticKey) : Prop :=
  key.context = context ∨ AgreePairwise (groupsOf fs context key.qname)

theorem qname_of_mem_groupKeys {qname : String} {key : SemanticKey}
    (h : key ∈ groupKeys (groupsOf fs context qname)) : key.qname = qname := by
  obtain ⟨group, hgroup, hkey⟩ := Finset.mem_biUnion.mp h
  obtain ⟨axes, _, rfl⟩ := List.mem_map.mp (List.mem_toFinset.mp hgroup)
  obtain ⟨entry, hentry, rfl⟩ := List.mem_map.mp (List.mem_toFinset.mp hkey)
  have hmem : entry ∈ entriesOf fs context qname := List.mem_of_mem_filter hentry
  exact of_decide_eq_true (List.mem_filter.mp hmem).2

theorem keys_of_settleGroups {groups : List Group} {p : Prospect} (h : settleGroups groups = .ready p) :
    AgreePairwise groups ∧ p.keys = groupKeys groups := by
  unfold settleGroups at h
  split_ifs at h with hagree
  have hp := Settling.ready.inj h
  exact ⟨hagree.2, by rw [← hp]⟩

def Settling.AllAgreed (fs : List Figure) (context : ContextKey) : Settling → Prop
  | .ready p => ∀ key ∈ p.keys, Agreed fs context key
  | _ => True

theorem agreed_aggregate (concept : String) : (settleAggregate fs context concept).AllAgreed fs context := by
  cases h : settleAggregate fs context concept with
  | unsettled => exact True.intro
  | failed => exact True.intro
  | ready p =>
    intro key hkey
    unfold settleAggregate at h
    cases hgroups : finerGroups fs concept context with
    | none =>
      rw [hgroups] at h
      cases h
    | some groups =>
      rw [hgroups] at h
      obtain ⟨hagree, hkeys⟩ := keys_of_settleGroups h
      obtain ⟨qname, _, hsome⟩ := Option.bind_eq_some_iff.mp hgroups
      have heq : groupsOf fs context qname = groups := by
        split_ifs at hsome
        exact Option.some.inj hsome
      rw [hkeys, ← heq] at hkey
      right
      rw [qname_of_mem_groupKeys hkey, heq]
      exact hagree

theorem agreed_report {report : Report} {key : SemanticKey} (hkey : key ∈ report.keys context) :
    Agreed fs context key := by
  left
  unfold Report.keys at hkey
  cases hqname : report.qname with
  | none => simp [hqname] at hkey
  | some qname =>
    cases hreported : report.reported with
    | none => simp [hqname, hreported] at hkey
    | some value =>
      simp only [hqname, hreported, Finset.mem_singleton] at hkey
      rw [hkey]

theorem agreed_unsummed (concept : String) (report : Report) (balanced : Bool) :
    (settleUnsummed fs context concept report balanced).AllAgreed fs context := by
  unfold settleUnsummed
  cases report.reported with
  | some value => exact fun key hkey => agreed_report hkey
  | none => exact agreed_aggregate concept

theorem agreed_add {sum child : Settling} (hsum : sum.AllAgreed fs context) (hchild : child.AllAgreed fs context)
    (weight : ℚ) : (sum.add weight child).AllAgreed fs context := by
  cases sum <;> cases child <;> try exact True.intro
  intro key hkey
  cases Finset.mem_union.mp hkey with
  | inl h => exact hsum key h
  | inr h => exact hchild key h

theorem agreed_children {child : String → Settling} (h : ∀ concept, (child concept).AllAgreed fs context)
    (l : List (CalculationArc ℚ)) : (settleChildren child l).AllAgreed fs context := by
  have hfold : ∀ (l : List (CalculationArc ℚ)) (sum : Settling), sum.AllAgreed fs context →
      (l.foldl (fun sum arc => sum.add arc.weight (child arc.childQname)) sum).AllAgreed fs context := by
    intro l
    induction l with
    | nil => exact fun _ hsum => hsum
    | cons arc l ih => exact fun _ hsum => ih _ (agreed_add hsum (h arc.childQname) arc.weight)
  apply hfold
  intro key hkey
  exact absurd hkey (Finset.notMem_empty key)

theorem agreed_balance {sum : Prospect} (h : ∀ key ∈ sum.keys, Agreed fs context key) (report : Report) :
    (settleBalance fs context report sum).AllAgreed fs context := by
  unfold settleBalance
  cases report.reported with
  | none => exact h
  | some value =>
    dsimp only
    split_ifs
    · intro key hkey
      cases Finset.mem_union.mp hkey with
      | inl hown => exact agreed_report hown
      | inr hsum => exact h key hsum
    · exact fun key hkey => agreed_report hkey
    · exact True.intro

theorem agreed_settle (n : Nat) (visited : Finset String) (concept : String) :
    (settle fs arcs context n visited concept).AllAgreed fs context := by
  induction n generalizing visited concept with
  | zero => exact True.intro
  | succ n ih =>
    rw [settle]
    split_ifs
    · exact True.intro
    unfold settleFrom
    cases reportOf fs context concept with
    | none => exact True.intro
    | some report =>
      dsimp only
      split_ifs
      · exact agreed_unsummed concept report true
      have hsum := agreed_children (ih (insert concept visited)) (childArcs arcs concept report.qname)
      cases hs : settleChildren (settle fs arcs context n (insert concept visited))
          (childArcs arcs concept report.qname) with
      | unsettled => exact True.intro
      | failed => exact agreed_unsummed concept report false
      | ready sum =>
        rw [hs] at hsum
        exact agreed_balance hsum report

theorem agreed_consumed {settling : Settling} (h : settling.AllAgreed fs context) {key : SemanticKey}
    (hkey : key ∈ settling.consumed) : Agreed fs context key := by
  cases settling with
  | unsettled => exact absurd hkey (Finset.notMem_empty key)
  | failed => exact absurd hkey (Finset.notMem_empty key)
  | ready p =>
    unfold Settling.consumed at hkey
    dsimp only at hkey
    split_ifs at hkey
    · exact h key hkey
    · exact absurd hkey (Finset.notMem_empty key)

end Agree

/-! ## Consumption -/

/-- No context of a target meets finer groups that some orders accept and others do not, nor a
filed value that balances with the sum for some choices of the first group only. -/
def Settled (facts : List (XbrlFact ℚ)) (targets : List String) (arcs : List (CalculationArc ℚ)) : Prop :=
  ∀ target ∈ targets, HasArcs arcs target → ∀ context ∈ contextsOf (figures facts) target,
    settle (figures facts) arcs context (resolveSteps arcs) ∅ target ≠ .unsettled

instance (facts : List (XbrlFact ℚ)) (targets : List String) (arcs : List (CalculationArc ℚ)) :
    Decidable (Settled facts targets arcs) := by
  unfold Settled
  infer_instance

/-- The keys consumed do not depend on the order, and finer groups are consumed only where they
agree pairwise. -/
structure OrderFree (facts : List (XbrlFact ℚ)) (targets : List String) (arcs : List (CalculationArc ℚ)) :
    Prop where
  same_keys : ∀ facts' arcs', facts.Perm facts' → arcs.Perm arcs' →
    dimensionalConsumedKeys facts' targets arcs' = dimensionalConsumedKeys facts targets arcs
  agree : ∀ target ∈ targets, HasArcs arcs target → ∀ context ∈ contextsOf (figures facts) target,
    ∀ key ∈ consumedAt (figures facts) arcs context target, key.context ≠ context →
      AgreePairwise (groupsOf (figures facts) context key.qname)

/-- Where the order of the groups decides nothing, the order of the facts and arcs does not. -/
theorem consumption_order_free {facts : List (XbrlFact ℚ)} {targets : List String}
    {arcs : List (CalculationArc ℚ)} (h : Settled facts targets arcs) : OrderFree facts targets arcs where
  same_keys := by
    intro facts' arcs' hfacts harcs
    have hfs := figures_perm hfacts
    have hskipped : targets.toFinset.filter (HasArcs arcs') = targets.toFinset.filter (HasArcs arcs) :=
      Finset.filter_congr fun target _ => (hasArcs_perm harcs target).symm
    unfold dimensionalConsumedKeys
    rw [hskipped]
    apply Finset.biUnion_congr rfl
    intro target htarget
    obtain ⟨hmem, hasArcs⟩ := Finset.mem_filter.mp htarget
    apply Finset.biUnion_congr (contextsOf_perm hfs target).symm
    intro context hcontext
    rw [← contextsOf_perm hfs] at hcontext
    have hsettled := h target (List.mem_toFinset.mp hmem) hasArcs context hcontext
    have hsteps : resolveSteps arcs' = resolveSteps arcs := by
      rw [resolveSteps, resolveSteps, harcs.length_eq]
    have hsame := settle_perm hfs harcs context (resolveSteps arcs) ∅ target
    have hsettled' : settle (figures facts') arcs' context (resolveSteps arcs') ∅ target ≠ .unsettled := by
      rw [hsteps, ← hsame]
      exact hsettled
    rw [consumedAt_of_settled hsettled', consumedAt_of_settled hsettled, hsteps, hsame]
  agree := by
    intro target htarget hasArcs context hcontext key hkey hne
    rw [consumedAt_of_settled (h target htarget hasArcs context hcontext)] at hkey
    have hagreed := agreed_consumed (agreed_settle (resolveSteps arcs) ∅ target) hkey
    exact hagreed.resolve_left hne

/-! ## Three breakdowns of one total -/

def dollars (concept : String) (value : ℚ) (dimensions : Dict String String) : XbrlFact ℚ where
  accession := "0000000001-24-000001"
  conceptQname := concept
  value := .number value
  unit := some "USD"
  decimals := some 0
  periodType := "instant"
  startDate := none
  endDate := none
  instantDate := some "2023-12-31"
  dimensions := dimensions

def segmentTotal : XbrlFact ℚ := dollars "us-gaap:Assets" 0 ⟨[("us-gaap:SegmentAxis", "us-gaap:Retail")], by decide⟩

def breakdown (axis : String) (h : (["us-gaap:SegmentAxis", axis] : List String).Nodup) (value : ℚ) : XbrlFact ℚ :=
  dollars "us-gaap:AssetsNet" value
    ⟨[("us-gaap:SegmentAxis", "us-gaap:Retail"), (axis, "us-gaap:Part")], h⟩

def byProduct : XbrlFact ℚ := breakdown "us-gaap:ProductAxis" (by decide) 0
def byRegion : XbrlFact ℚ := breakdown "us-gaap:RegionAxis" (by decide) 1
def byCustomer : XbrlFact ℚ := breakdown "us-gaap:CustomerAxis" (by decide) 2

def assetsArc : CalculationArc ℚ := ⟨"us-gaap:Assets", "us-gaap:AssetsNet", 1, none⟩

theorem consumption_order_free_two :
    Settled [segmentTotal, byProduct, byRegion] ["us-gaap:Assets"] [assetsArc] ∧
      OrderFree [segmentTotal, byProduct, byRegion] ["us-gaap:Assets"] [assetsArc] :=
  ⟨by decide +kernel, consumption_order_free (by decide +kernel)⟩

/-- The breakdowns of 0, 1 and 2, each within a half, are all consumed in this order, though the
first and the last do not agree, and none of them where the last one comes second. -/
theorem consumption_depends_on_order :
    ¬ OrderFree [segmentTotal, byProduct, byRegion, byCustomer] ["us-gaap:Assets"] [assetsArc] := by
  intro h
  have hperm : [segmentTotal, byProduct, byRegion, byCustomer].Perm
      [segmentTotal, byProduct, byCustomer, byRegion] :=
    ((List.Perm.swap byCustomer byRegion []).cons byProduct).cons segmentTotal
  have hsame := h.same_keys _ [assetsArc] hperm (List.Perm.refl _)
  have hall : (dimensionalConsumedKeys [segmentTotal, byProduct, byRegion, byCustomer] ["us-gaap:Assets"]
      [assetsArc]).card = 4 := by decide +kernel
  have hnone : (dimensionalConsumedKeys [segmentTotal, byProduct, byCustomer, byRegion] ["us-gaap:Assets"]
      [assetsArc]).card = 0 := by decide +kernel
  rw [← hsame, hnone] at hall
  cases hall

end EdgarSec.Xbrl.CounterSolver
