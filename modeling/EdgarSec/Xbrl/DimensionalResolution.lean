import EdgarSec.Xbrl.FinerGroups

/-! A concept resolved in one context from the calculation arcs alone, and the keys that the
balanced contexts of the targets consume. -/

namespace EdgarSec.Xbrl.CounterSolver

def roundHalfEven (q : ℚ) : ℤ :=
  let n := q.floor
  if q - n < 1 / 2 then n
  else if 1 / 2 < q - n then n + 1
  else if n % 2 = 0 then n
  else n + 1

/-- `round(…, 4)` -/
def round4 (q : ℚ) : ℚ := roundHalfEven (q * 10000) / 10000

/-! ## Arcs -/

section Arcs
variable (arcs : List (CalculationArc ℚ))

def arcsByParent (parent : String) : List (CalculationArc ℚ) := arcs.filter fun arc => arc.parentQname = parent

def localParent (name : String) : Option String :=
  onlyValue ((arcs.map CalculationArc.parentQname).filter fun parent => qnameLocal parent = name)

def arcsByLocal (name : String) : List (CalculationArc ℚ) :=
  match localParent arcs name with
  | some parent => arcsByParent arcs parent
  | none => []

def childArcs (concept : String) (qname : Option String) : List (CalculationArc ℚ) :=
  if arcsByParent arcs concept ≠ [] then arcsByParent arcs concept
  else if arcsByParent arcs (qname.getD "") ≠ [] then arcsByParent arcs (qname.getD "")
  else arcsByLocal arcs (qnameLocal concept)

end Arcs

/-! ## One concept -/

section Resolve
variable (fs : List Figure) (arcs : List (CalculationArc ℚ)) (context : ContextKey)

structure Report where
  qname : Option String
  reported : Option ℚ

def filedName (concept : String) : Option String :=
  if (values fs concept context).isSome then some concept
  else qnameByLocal fs (qnameLocal concept) context

def reportOf (concept : String) : Option Report :=
  match filedName fs context concept with
  | none => some ⟨none, none⟩
  | some qname =>
    match values fs qname context with
    | some (some value) => some ⟨some qname, some value⟩
    | some none => none
    | none => some ⟨some qname, none⟩

/-- `own` -/
def Report.keys (report : Report) : Finset SemanticKey :=
  match report.qname, report.reported with
  | some qname, some value => {⟨qname, context, value⟩}
  | _, _ => ∅

/-- `own_tolerance` -/
def Report.tolerance (report : Report) : ℚ :=
  match report.qname with
  | some qname => finest fs qname context
  | none => 0

structure Summed where
  total : ℚ
  spread : ℚ
  keys : Finset SemanticKey

def addChildren (child : String → Option Resolution) :
    Summed → List (CalculationArc ℚ) → Option Summed
  | sum, [] => some sum
  | sum, arc :: arcs =>
    match child arc.childQname with
    | none => none
    | some resolved => addChildren child
        ⟨sum.total + resolved.value * arc.weight, sum.spread + |arc.weight| * resolved.spread,
          sum.keys ∪ resolved.keys⟩ arcs

def unsummed (concept : String) (report : Report) (balanced : Bool) : Option Resolution :=
  match report.reported with
  | some value => some ⟨value, report.keys context, balanced, report.tolerance fs context⟩
  | none => finerAggregate fs concept context

def balance (report : Report) (sum : Summed) : Resolution :=
  match report.reported with
  | none => ⟨round4 sum.total, sum.keys, true, sum.spread⟩
  | some value =>
    if |sum.total - value| ≤ report.tolerance fs context + sum.spread then
      ⟨value, report.keys context ∪ sum.keys, true, report.tolerance fs context⟩
    else ⟨value, report.keys context, false, report.tolerance fs context⟩

def resolveFrom (child : String → Option Resolution) (concept : String) : Option Resolution :=
  match reportOf fs context concept with
  | none => none
  | some report =>
    if (childArcs arcs concept report.qname).isEmpty then unsummed fs context concept report true
    else
      match addChildren child ⟨0, 0, ∅⟩ (childArcs arcs concept report.qname) with
      | some sum => some (balance fs context report sum)
      | none => unsummed fs context concept report false

/-- `_resolve_dimensional`, with a bound on the depth. -/
def resolve : Nat → Finset String → String → Option Resolution
  | 0, _, _ => none
  | n + 1, visited, concept =>
    if concept ∈ visited then none
    else resolveFrom fs arcs context (resolve n (insert concept visited)) concept

def resolveSteps : Nat := arcs.length + 2

def consumedAt (target : String) : Finset SemanticKey :=
  match resolve fs arcs context (resolveSteps arcs) ∅ target with
  | some resolved => if resolved.balanced then resolved.keys else ∅
  | none => ∅

end Resolve

/-! ## All targets -/

def contextsOf (fs : List Figure) (target : String) : Finset ContextKey :=
  (((distinctKeys fs).filter fun key => key.2.dimensions ≠ [] ∧ (onlyFigure fs key.1 key.2).isSome ∧
    (key.1 = target ∨ qnameLocal key.1 = qnameLocal target)).map Prod.snd).toFinset

def HasArcs (arcs : List (CalculationArc ℚ)) (target : String) : Prop :=
  arcsByParent arcs target ≠ [] ∨ (localParent arcs (qnameLocal target)).isSome

instance (arcs : List (CalculationArc ℚ)) (target : String) : Decidable (HasArcs arcs target) :=
  inferInstanceAs (Decidable (_ ∨ _))

def dimensionalConsumedKeys (facts : List (XbrlFact ℚ)) (targets : List String)
    (arcs : List (CalculationArc ℚ)) : Finset SemanticKey :=
  (targets.toFinset.filter (HasArcs arcs)).biUnion fun target =>
    (contextsOf (figures facts) target).biUnion fun context => consumedAt (figures facts) arcs context target

/-! ## The bound on the depth -/

section Steps
variable {fs : List Figure} {arcs : List (CalculationArc ℚ)} {context : ContextKey}

theorem childArcs_subset {concept : String} {qname : Option String} {arc : CalculationArc ℚ}
    (h : arc ∈ childArcs arcs concept qname) : arc ∈ arcs := by
  have hparent : ∀ parent, arc ∈ arcsByParent arcs parent → arc ∈ arcs :=
    fun parent h => List.mem_of_mem_filter h
  unfold childArcs at h
  split_ifs at h
  · exact hparent _ h
  · exact hparent _ h
  · unfold arcsByLocal at h
    cases hlocal : localParent arcs (qnameLocal concept) with
    | none => simp [hlocal] at h
    | some parent =>
      rw [hlocal] at h
      exact hparent parent h

theorem addChildren_congr {child child' : String → Option Resolution} {l : List (CalculationArc ℚ)}
    (h : ∀ arc ∈ l, child arc.childQname = child' arc.childQname) (sum : Summed) :
    addChildren child sum l = addChildren child' sum l := by
  induction l generalizing sum with
  | nil => rfl
  | cons arc l ih =>
    have htail := ih fun a ha => h a (List.mem_cons_of_mem arc ha)
    simp only [addChildren, h arc List.mem_cons_self, htail]

theorem resolveFrom_congr {child child' : String → Option Resolution}
    (h : ∀ arc ∈ arcs, child arc.childQname = child' arc.childQname) (concept : String) :
    resolveFrom fs arcs context child concept = resolveFrom fs arcs context child' concept := by
  unfold resolveFrom
  cases reportOf fs context concept with
  | none => rfl
  | some report =>
    have hchild : ∀ arc ∈ childArcs arcs concept report.qname, child arc.childQname = child' arc.childQname :=
      fun arc harc => h arc (childArcs_subset harc)
    have hsum := addChildren_congr hchild ⟨0, 0, ∅⟩
    simp only [hsum]

theorem resolve_succ {nodes : Finset String} (hchildren : ∀ arc ∈ arcs, arc.childQname ∈ nodes) (n : Nat)
    {visited : Finset String} (hvisited : visited ⊆ nodes) {concept : String} (hconcept : concept ∈ nodes)
    (hn : nodes.card < n + visited.card) :
    resolve fs arcs context (n + 1) visited concept = resolve fs arcs context n visited concept := by
  induction n generalizing visited concept with
  | zero =>
    have hcard := Finset.card_le_card hvisited
    omega
  | succ n ih =>
    rw [resolve, resolve]
    by_cases hmem : concept ∈ visited
    · rw [if_pos hmem, if_pos hmem]
    rw [if_neg hmem, if_neg hmem]
    apply resolveFrom_congr
    intro arc harc
    have hsub : insert concept visited ⊆ nodes := Finset.insert_subset hconcept hvisited
    apply ih hsub (hchildren arc harc)
    rw [Finset.card_insert_of_notMem hmem]
    omega

theorem resolve_of_le {n : Nat} (hn : resolveSteps arcs ≤ n) (target : String) :
    resolve fs arcs context n ∅ target = resolve fs arcs context (resolveSteps arcs) ∅ target := by
  have hcard : (insert target (arcs.map CalculationArc.childQname).toFinset).card < resolveSteps arcs := by
    have hinsert := Finset.card_insert_le target (arcs.map CalculationArc.childQname).toFinset
    have hchildren := List.toFinset_card_le (arcs.map CalculationArc.childQname)
    rw [List.length_map] at hchildren
    unfold resolveSteps
    omega
  have hnodes : ∀ arc ∈ arcs, arc.childQname ∈ insert target (arcs.map CalculationArc.childQname).toFinset := by
    intro arc harc
    apply Finset.mem_insert_of_mem
    exact List.mem_toFinset.mpr (List.mem_map_of_mem harc)
  induction n, hn using Nat.le_induction with
  | base => rfl
  | succ n hle ih =>
    rw [← ih]
    apply resolve_succ hnodes n (Finset.empty_subset _) (Finset.mem_insert_self target _)
    rw [Finset.card_empty]
    omega

end Steps
end EdgarSec.Xbrl.CounterSolver
