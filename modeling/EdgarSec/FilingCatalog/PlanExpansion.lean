import EdgarSec.FilingCatalog.PlanPublication
import EdgarSec.Foundation.Strings
import EdgarSec.Lib.Outcome

/-! Expansion of a published policy plan into a child that is to keep every locator of its
parent. -/

namespace EdgarSec.FilingCatalog
open Foundation Lib Bundle

structure SelectionPolicy (β π : Type) where
  corpusId : String
  forms : List String
  documentSuffixes : List String
  eraBands : List β
  baseContentUnits : Nat
  level : Nat
  parentPlanId : Option String
  parentPlanFingerprint : Option String
  settings : π

/-- The fields of a `plan.json`; a field that is absent reads as empty. -/
structure PlanMeta (β π : Type) where
  planSchemaVersion : String
  planId : String
  catalogId : String
  scope : String
  policyCorpus : String
  seedFingerprint : String
  planFingerprint : String
  level : Nat
  forms : List String
  selectionPolicy : Option (SelectionPolicy β π)
  uniqueLocatorsCount : Nat
  parentPlanId : Option String
  parentPlanFingerprint : Option String

structure ExpansionLineage where
  parentPlanId : String
  parentPlanFingerprint : String
  targetUnits : Nat
  parentLocatorCount : Nat
  childLocatorCount : Nat
  deriving DecidableEq

/-- A published plan: what its `plan.json` says, its files, the keys of its locator groups, and
the lineage record of an expansion. The recorded count is the number of its keys. -/
structure PlanDirectory (β π : Type) where
  document : Option (PlanMeta β π)
  bundle : Bundle
  locatorKeys : List String
  lineage : Option ExpansionLineage
  count_eq : ∀ published, document = some published → published.uniqueLocatorsCount = locatorKeys.length

structure PlanRequest where
  catalogId : String
  rowGroupSize : Nat
  policyFingerprint : String
  seedFingerprint : String
  familyIndexId : String

section
variable {β π : Type} [DecidableEq β] [DecidableEq π]

/-- What the planner calls: the catalog and its feature snapshot, the family index, the phases
of the selection after the parent's keys, and the relations it writes. -/
structure Planner (β π : Type) where
  sha256 : Bytes → String
  rowGroupSize : Nat
  normalizeSuffixes : List String → List String
  policyFingerprint : SelectionPolicy β π → String
  planFingerprint : PlanMeta β π → List String → String
  planIdentity : PlanRequest → String
  resolveCatalog : String → Except String String
  resolveEraBands : String → SelectionPolicy β π → Except String (List β)
  familyIndexId : Except String String
  locatorRelation : String → SelectionPolicy β π → Except String (List String)
  laterPhases : SelectionPolicy β π → List String → Except String (List String)
  body : String → List String → Except String PlanBody

def isBlank (text : String) : Bool := text.toList.all isPySpace

def requiredParentFields (parent : PlanMeta β π) : List (String × String) :=
  [("plan_id", parent.planId), ("catalog_id", parent.catalogId), ("policy_corpus", parent.policyCorpus),
    ("seed_fingerprint", parent.seedFingerprint), ("plan_fingerprint", parent.planFingerprint)]

def validateParentSchema (parent : PlanMeta β π) : Except String Unit := do
  ensure (parent.planSchemaVersion = targetPlanSchemaVersion) ("parent plan schema is " ++
    pyRepr parent.planSchemaVersion ++ ", this build expands " ++ pyRepr targetPlanSchemaVersion ++
    " plans only; republish the parent plan")
  let missing := (requiredParentFields parent).filter fun (_, value) => isBlank value
  ensure (missing = []) ("parent plan is missing required " ++ targetPlanSchemaVersion ++ " fields " ++
    pyReprList (missing.map Prod.fst) ++ ": republish the parent plan")

/-- `_inherited_policy_fields`, without the bands where the child derives them. -/
def inheritsResolution (parent child : SelectionPolicy β π) : Bool :=
  parent.corpusId = child.corpusId && parent.forms = child.forms &&
    parent.documentSuffixes = child.documentSuffixes && parent.settings = child.settings &&
    (child.eraBands = [] || parent.eraBands = child.eraBands)

def upper (text : String) : String := String.ofList (text.toList.map Char.toUpper)

def validateParent (parent : PlanMeta β π) (policy : SelectionPolicy β π) (catalogId seedFingerprint : String) :
    Except String Unit := do
  ensure (parent.scope = "policy") "plan expansion requires a policy-driven parent plan"
  ensure (parent.catalogId = catalogId) "parent and child plans must use the same catalog"
  ensure (parent.policyCorpus = policy.corpusId) "parent and child plans must use the same policy corpus"
  ensure (parent.seedFingerprint = seedFingerprint) "parent and child plans must use the same seed CIK set"
  ensure (parent.forms = [] ∨ (parent.forms.map upper).toFinset = (policy.forms.map upper).toFinset)
    "parent and child plans must use the same forms"
  ensure (parent.selectionPolicy.all fun embedded => inheritsResolution embedded policy)
    "child selection policy differs from the parent outside base_content_units"

def childPolicy (policy base : SelectionPolicy β π) (targetUnits : Nat) (parent : PlanMeta β π) :
    SelectionPolicy β π :=
  { base with
    baseContentUnits := targetUnits
    level := max policy.level (parent.level + 1)
    parentPlanId := some parent.planId
    parentPlanFingerprint := some parent.planFingerprint }

/-- `expand` up to the planner: the child's policy. -/
def prepareExpansion (planner : Planner β π) (parent : PlanDirectory β π) (seedFingerprint : Except String String)
    (targetUnits : Nat) : Except String (PlanMeta β π × SelectionPolicy β π × String) := do
  ensure (1 ≤ targetUnits) "target_units must be positive"
  match parent.document with
  | none => .error "parent plan has no plan.json"
  | some published =>
    ensure (published.scope = "policy") "plan expansion requires a policy-driven parent plan"
    validateParentSchema published
    match published.selectionPolicy with
    | none => .error "parent plan does not record its selection policy; it cannot be expanded"
    | some policy =>
      let seeds ← seedFingerprint
      ensure (parent.locatorKeys.length ≤ targetUnits)
        "expanded target_units cannot be smaller than the parent selection"
      ensure (planner.planFingerprint published (parent.locatorKeys.insertionSort (· ≤ ·)) = published.planFingerprint)
        ("parent plan fingerprint does not match its published selection; the bundle was modified" ++
          " after publication")
      let child := childPolicy policy policy targetUnits published
      validateParent published child published.catalogId seeds
      .ok (published, { child with documentSuffixes := planner.normalizeSuffixes policy.documentSuffixes }, seeds)

def reuseExistingPlan (planner : Planner β π) (final : PlanDirectory β π) (planId : String) :
    Except String (PlanMeta β π) :=
  match final.document with
  | none => .error "plan bundle has no readable plan.json"
  | some published => do
    ensure (published.planId = planId ∧ published.scope = "policy")
      "plan bundle describes a different request; remove it or publish under a different plan id"
    ensure (planBundleComplete planner.sha256 .policy final.bundle)
      "incomplete plan bundle; remove it and rerun to republish"
    ensure (published.planFingerprint ≠ "") "plan bundle records no selection fingerprint"
    ensure (planner.planFingerprint published (final.locatorKeys.insertionSort (· ≤ ·)) = published.planFingerprint)
      "plan bundle no longer matches its selection fingerprint; remove it and republish"
    .ok published

/-- `DeficitSelector.select`: the parent's keys, then what the later phases add. -/
def select (planner : Planner β π) (policy : SelectionPolicy β π) (locators parentKeys : List String) :
    Except String (List String) := do
  ensure parentKeys.Nodup "parent selection contains duplicate locator keys"
  ensure (∀ key ∈ parentKeys, key ∈ locators)
    "parent plan references locator keys absent from the selection snapshot"
  let added ← planner.laterPhases policy parentKeys
  .ok (parentKeys ++ added)

def joinKeys (locators active : List String) : List String :=
  locators.flatMap fun key => active.filter (· = key)

/-- The directory that a planner stages: its files and its `plan.json`. -/
def stagePlan (planner : Planner β π) (catalog planId seedFingerprint : String) (policy : SelectionPolicy β π)
    (keys : List String) : Except String (PlanMeta β π × PlanDirectory β π) := do
  let body ← planner.body catalog keys
  match runOps planner.sha256 (body.ops .policy) fresh [] with
  | none => .error "plan forms collide in target partition names"
  | some (bundle, _) =>
    let unstamped : PlanMeta β π := ⟨targetPlanSchemaVersion, planId, catalog, "policy", policy.corpusId,
      seedFingerprint, "", policy.level, policy.forms, some policy, keys.length, policy.parentPlanId, none⟩
    let published := { unstamped with
      planFingerprint := planner.planFingerprint unstamped (keys.insertionSort (· ≤ ·)) }
    .ok (published, ⟨some published, bundle, keys, none, fun _ h => Option.some.inj h ▸ rfl⟩)

def planRequest (planner : Planner β π) (catalog : String) (policy : SelectionPolicy β π) (seedFingerprint : String) :
    Except String (String × String × SelectionPolicy β π) := do
  ensure (policy.forms ≠ []) "policy must configure at least one form"
  let catalog ← planner.resolveCatalog catalog
  let bands ← if policy.eraBands = [] then planner.resolveEraBands catalog policy else .ok policy.eraBands
  let policy := { policy with eraBands := bands }
  let familyIndexId ← planner.familyIndexId
  .ok (planner.planIdentity ⟨catalog, planner.rowGroupSize, planner.policyFingerprint policy, seedFingerprint,
    familyIndexId⟩, catalog, policy)

def planKeys (planner : Planner β π) (catalog : String) (policy : SelectionPolicy β π) (parentKeys : List String) :
    Except String (List String) := do
  let locators ← planner.locatorRelation catalog policy
  let active ← select planner policy locators parentKeys
  .ok (joinKeys locators active)

/-- What `plan_policy` returns, and the plan directories after it. -/
def planPolicy (planner : Planner β π) (plans : Dict String (PlanDirectory β π)) (catalog : String)
    (policy : SelectionPolicy β π) (seedFingerprint : String) (parentKeys : List String) :
    Except String (PlanMeta β π) × Dict String (PlanDirectory β π) :=
  match planRequest planner catalog policy seedFingerprint with
  | .error e => (.error e, plans)
  | .ok (planId, catalog, policy) =>
    match plans.get? planId with
    | some final => (reuseExistingPlan planner final planId, plans)
    | none =>
      match planKeys planner catalog policy parentKeys with
      | .error e => (.error e, plans)
      | .ok keys =>
        match stagePlan planner catalog planId seedFingerprint policy keys with
        | .error e => (.error e, plans)
        | .ok (published, directory) => (.ok published, plans.set planId directory)

def validateTarget (selectedCount targetUnits : Nat) : Except String Unit :=
  ensure (targetUnits ≤ selectedCount) "expanded selection could not reach target_units; no child plan was published"

def PlanMeta.withParent (child parent : PlanMeta β π) : PlanMeta β π :=
  { child with parentPlanId := some parent.planId, parentPlanFingerprint := some parent.planFingerprint }

/-- The child's directory with its lineage recorded and its `plan.json` rewritten. -/
def recordLineage (directory : PlanDirectory β π) (parent : PlanMeta β π) (lineage : ExpansionLineage) :
    PlanDirectory β π where
  document := directory.document.map fun child => child.withParent parent
  bundle := directory.bundle
  locatorKeys := directory.locatorKeys
  lineage := some lineage
  count_eq published h := by
    obtain ⟨child, hchild, rfl⟩ := Option.map_eq_some_iff.mp h
    exact directory.count_eq child hchild

def concludeExpansion (parent : PlanDirectory β π) (published child : PlanMeta β π) (targetUnits : Nat)
    (lineageFault : Option String) (plans : Dict String (PlanDirectory β π)) :
    Except String (PlanMeta β π) × Dict String (PlanDirectory β π) :=
  match validateTarget child.uniqueLocatorsCount targetUnits with
  | .error e => (.error e, plans)
  | .ok () =>
    match lineageFault with
    | some e => (.error e, plans)
    | none =>
      let lineage : ExpansionLineage := ⟨published.planId, published.planFingerprint, targetUnits,
        parent.locatorKeys.length, child.uniqueLocatorsCount⟩
      match plans.get? child.planId with
      | none => (.error "child plan directory is missing", plans)
      | some directory =>
        (.ok (child.withParent published), plans.set child.planId (recordLineage directory published lineage))

/-- What `expand` does with what the planner has returned. -/
def continueExpansion (parent : PlanDirectory β π) (published : PlanMeta β π) (targetUnits : Nat)
    (lineageFault : Option String) :
    Except String (PlanMeta β π) × Dict String (PlanDirectory β π) →
      Except String (PlanMeta β π) × Dict String (PlanDirectory β π)
  | (.error e, plans) => (.error e, plans)
  | (.ok child, plans) => concludeExpansion parent published child targetUnits lineageFault plans

/-- `expand`, where `lineageFault` is an error of the two writes into the child's directory. -/
def expand (planner : Planner β π) (plans : Dict String (PlanDirectory β π)) (parent : PlanDirectory β π)
    (seedFingerprint : Except String String) (targetUnits : Nat) (lineageFault : Option String) :
    Except String (PlanMeta β π) × Dict String (PlanDirectory β π) :=
  match prepareExpansion planner parent seedFingerprint targetUnits with
  | .error e => (.error e, plans)
  | .ok (published, policy, seeds) =>
    continueExpansion parent published targetUnits lineageFault
      (planPolicy planner plans published.catalogId policy seeds parent.locatorKeys)

/-! ## When an expansion keeps its promise -/

/-- An error leaves the plan directories there are; a return leaves a child with the parent's
locators and the units asked for. -/
def KeepsPromise (plans : Dict String (PlanDirectory β π)) (parent : PlanDirectory β π) (targetUnits : Nat) :
    Except String (PlanMeta β π) × Dict String (PlanDirectory β π) → Prop
  | (.error _, plans') => plans'.keys = plans.keys
  | (.ok child, plans') => ∃ directory, plans'.get? child.planId = some directory ∧
      parent.locatorKeys ⊆ directory.locatorKeys ∧ targetUnits ≤ directory.locatorKeys.length

/-- What is asked of a child that is there already, and of one that is selected now. -/
def ChildFits (planner : Planner β π) (plans : Dict String (PlanDirectory β π)) (parent : PlanDirectory β π)
    (targetUnits : Nat) (lineageFault : Option String) (planId catalog seeds : String)
    (policy : SelectionPolicy β π) : Prop :=
  match plans.get? planId with
  | some final => (∃ published, reuseExistingPlan planner final planId = .ok published) →
      targetUnits ≤ final.locatorKeys.length → lineageFault = none → parent.locatorKeys ⊆ final.locatorKeys
  | none => ∀ keys, planKeys planner catalog policy parent.locatorKeys = .ok keys →
      (∃ staged, stagePlan planner catalog planId seeds policy keys = .ok staged) →
      targetUnits ≤ keys.length ∧ lineageFault = none

variable {planner : Planner β π} {plans plans' : Dict String (PlanDirectory β π)} {parent : PlanDirectory β π}
  {targetUnits : Nat} {lineageFault : Option String} {planId catalog seeds : String}
  {policy : SelectionPolicy β π} {keys : List String}

theorem reuseExistingPlan_eq_ok {final : PlanDirectory β π} {published : PlanMeta β π}
    (h : reuseExistingPlan planner final planId = .ok published) :
    final.document = some published ∧ published.planId = planId := by
  unfold reuseExistingPlan at h
  cases hdocument : final.document with
  | none => simp [hdocument] at h
  | some document =>
    rw [hdocument] at h
    obtain ⟨_, hrequest, h⟩ := bind_eq_ok.mp h
    obtain ⟨_, -, h⟩ := bind_eq_ok.mp h
    obtain ⟨_, -, h⟩ := bind_eq_ok.mp h
    obtain ⟨_, -, h⟩ := bind_eq_ok.mp h
    obtain rfl := Except.ok.inj h
    exact ⟨rfl, (ensure_eq_ok.mp hrequest).1⟩

theorem subset_planKeys {parentKeys : List String} (h : planKeys planner catalog policy parentKeys = .ok keys) :
    parentKeys ⊆ keys := by
  obtain ⟨locators, -, h⟩ := bind_eq_ok.mp h
  obtain ⟨active, hactive, h⟩ := bind_eq_ok.mp h
  obtain ⟨_, -, hactive⟩ := bind_eq_ok.mp hactive
  obtain ⟨_, hthere, hactive⟩ := bind_eq_ok.mp hactive
  obtain ⟨added, -, hactive⟩ := bind_eq_ok.mp hactive
  obtain rfl := Except.ok.inj hactive
  obtain rfl := Except.ok.inj h
  intro key hkey
  apply List.mem_flatMap.mpr
  refine ⟨key, ensure_eq_ok.mp hthere key hkey, List.mem_filter.mpr ⟨?_, decide_eq_true rfl⟩⟩
  exact List.mem_append_left _ hkey

theorem stagePlan_eq_ok {published : PlanMeta β π} {directory : PlanDirectory β π}
    (h : stagePlan planner catalog planId seeds policy keys = .ok (published, directory)) :
    directory.locatorKeys = keys ∧ published.planId = planId ∧ published.uniqueLocatorsCount = keys.length := by
  obtain ⟨body, -, h⟩ := bind_eq_ok.mp h
  cases hops : runOps planner.sha256 (body.ops .policy) fresh [] with
  | none => simp [hops] at h
  | some staged =>
    rw [hops] at h
    obtain ⟨rfl, rfl⟩ := Prod.mk.inj (Except.ok.inj h)
    exact ⟨rfl, rfl, rfl⟩

theorem keepsPromise_conclude {published child : PlanMeta β π} {directory : PlanDirectory β π}
    (hchild : plans'.get? child.planId = some directory)
    (hcount : child.uniqueLocatorsCount = directory.locatorKeys.length) :
    KeepsPromise plans parent targetUnits
        (concludeExpansion parent published child targetUnits lineageFault plans') ↔
      if targetUnits ≤ directory.locatorKeys.length ∧ lineageFault = none then
        parent.locatorKeys ⊆ directory.locatorKeys
      else plans'.keys = plans.keys := by
  unfold concludeExpansion validateTarget ensure
  rw [hcount]
  by_cases hreached : targetUnits ≤ directory.locatorKeys.length
  · rw [if_pos hreached]
    cases lineageFault with
    | some e =>
      rw [if_neg (by simp)]
      exact Iff.rfl
    | none =>
      rw [if_pos ⟨hreached, rfl⟩]
      simp only [hchild]
      have hset : ∀ recorded, (plans'.set child.planId recorded).get? child.planId = some recorded :=
        fun recorded => (Dict.get?_set _ _ _ _).trans (if_pos rfl)
      constructor
      · rintro ⟨directory', hget, hkeys, -⟩
        obtain rfl := Option.some.inj ((hset _).symm.trans hget)
        exact hkeys
      · intro hkeys
        exact ⟨_, hset _, hkeys, hreached⟩
  · rw [if_neg hreached, if_neg fun h => hreached h.1]
    exact Iff.rfl

section
variable {published child : PlanMeta β π} {asked : SelectionPolicy β π}
  (hrequest : planRequest planner published.catalogId policy seeds = .ok (planId, catalog, asked))
include hrequest

theorem keepsPromise_reused {final : PlanDirectory β π} (hthere : plans.get? planId = some final) :
    let planned := planPolicy planner plans published.catalogId policy seeds parent.locatorKeys
    KeepsPromise plans parent targetUnits (continueExpansion parent published targetUnits lineageFault planned) ↔
      ChildFits planner plans parent targetUnits lineageFault planId catalog seeds asked := by
  intro planned
  have hplanned : planned = (reuseExistingPlan planner final planId, plans) := by
    simp only [planned, planPolicy, hrequest, hthere]
  unfold ChildFits
  simp only [hplanned, hthere]
  cases hreuse : reuseExistingPlan planner final planId with
  | error e => simp [continueExpansion, KeepsPromise]
  | ok child =>
    obtain ⟨hdocument, hid⟩ := reuseExistingPlan_eq_ok hreuse
    rw [← hid] at hthere
    apply (keepsPromise_conclude hthere (final.count_eq child hdocument)).trans
    split
    · rename_i hreached
      simp [hreached]
    · rename_i hshort
      simp only [true_iff]
      intro _ hunits hfault
      exact absurd ⟨hunits, hfault⟩ hshort

theorem keepsPromise_selected (hthere : plans.get? planId = none) :
    let planned := planPolicy planner plans published.catalogId policy seeds parent.locatorKeys
    KeepsPromise plans parent targetUnits (continueExpansion parent published targetUnits lineageFault planned) ↔
      ChildFits planner plans parent targetUnits lineageFault planId catalog seeds asked := by
  intro planned
  unfold ChildFits
  simp only [hthere]
  cases hkeys : planKeys planner catalog asked parent.locatorKeys with
  | error e =>
    have hplanned : planned = (.error e, plans) := by
      simp only [planned, planPolicy, hrequest, hthere, hkeys]
    rw [hplanned]
    simp [continueExpansion, KeepsPromise]
  | ok keys =>
    cases hstaged : stagePlan planner catalog planId seeds asked keys with
    | error e =>
      have hplanned : planned = (.error e, plans) := by
        simp only [planned, planPolicy, hrequest, hthere, hkeys, hstaged]
      rw [hplanned]
      simp [continueExpansion, KeepsPromise, hstaged]
    | ok staged =>
      obtain ⟨child, directory⟩ := staged
      have hplanned : planned = (.ok child, plans.set planId directory) := by
        simp only [planned, planPolicy, hrequest, hthere, hkeys, hstaged]
      obtain ⟨hdirectory, hid, hcount⟩ := stagePlan_eq_ok hstaged
      have hset : (plans.set planId directory).get? child.planId = some directory := by
        rw [hid, Dict.get?_set, if_pos rfl]
      -- the directory is there from now on, whatever follows
      have hnew : (plans.set planId directory).keys ≠ plans.keys := by
        unfold Dict.keys
        rw [Dict.items_set_of_not_mem (Dict.get?_eq_none_iff.mp hthere)]
        simp
      have hkept : parent.locatorKeys ⊆ directory.locatorKeys := hdirectory ▸ subset_planKeys hkeys
      rw [hplanned]
      apply (keepsPromise_conclude hset (hdirectory ▸ hcount)).trans
      rw [hdirectory] at hkept ⊢
      split
      · rename_i hreached
        simp [hreached, hkept]
      · rename_i hshort
        simp only [hnew, false_iff]
        intro hfits
        exact hshort (hfits keys rfl ⟨_, hstaged⟩)

theorem keepsPromise_planned :
    let planned := planPolicy planner plans published.catalogId policy seeds parent.locatorKeys
    KeepsPromise plans parent targetUnits (continueExpansion parent published targetUnits lineageFault planned) ↔
      ChildFits planner plans parent targetUnits lineageFault planId catalog seeds asked := by
  cases hthere : plans.get? planId with
  | some final => exact keepsPromise_reused hrequest hthere
  | none => exact keepsPromise_selected hrequest hthere

end

/-- An expansion keeps its promise just when the planning raises, or the child that is there already
is refused or has the parent's locators, or the child that is selected now reaches the units asked
for and its lineage can be recorded. -/
theorem expand_keepsPromise_iff (planner : Planner β π) (plans : Dict String (PlanDirectory β π))
    (parent : PlanDirectory β π) (seedFingerprint : Except String String) (targetUnits : Nat)
    (lineageFault : Option String) :
    KeepsPromise plans parent targetUnits
        (expand planner plans parent seedFingerprint targetUnits lineageFault) ↔
      ∀ published policy seeds, prepareExpansion planner parent seedFingerprint targetUnits =
          .ok (published, policy, seeds) →
        ∀ planId catalog policy', planRequest planner published.catalogId policy seeds =
          .ok (planId, catalog, policy') →
        ChildFits planner plans parent targetUnits lineageFault planId catalog seeds policy' := by
  unfold expand
  cases hprepare : prepareExpansion planner parent seedFingerprint targetUnits with
  | error e => simp [KeepsPromise]
  | ok prepared =>
    obtain ⟨published, policy, seeds⟩ := prepared
    cases hrequest : planRequest planner published.catalogId policy seeds with
    | error e =>
      have hplanned : planPolicy planner plans published.catalogId policy seeds parent.locatorKeys =
          (.error e, plans) := by
        simp only [planPolicy, hrequest]
      simp [hplanned, continueExpansion, KeepsPromise, hrequest]
    | ok request =>
      obtain ⟨planId, catalog, asked⟩ := request
      apply (keepsPromise_planned hrequest).trans
      constructor
      · intro hfits published' policy' seeds' heq planId' catalog' asked' hrequest'
        obtain ⟨rfl, rfl, rfl⟩ : published = published' ∧ policy = policy' ∧ seeds = seeds' := by
          simpa using heq
        obtain ⟨rfl, rfl, rfl⟩ : planId = planId' ∧ catalog = catalog' ∧ asked = asked' := by
          simpa using hrequest.symm.trans hrequest'
        exact hfits
      · intro hfits
        exact hfits published policy seeds rfl planId catalog asked hrequest

end

def oneLocator : Planner Unit Unit where
  sha256 := sha256Hex
  rowGroupSize := 100
  normalizeSuffixes := id
  policyFingerprint policy := sha256Hex (utf8 (toString policy.baseContentUnits ++ "/" ++ toString policy.level))
  planFingerprint _ keys := sha256Hex (keys.flatMap utf8)
  planIdentity request := "pol_" ++ request.policyFingerprint
  resolveCatalog := .ok
  resolveEraBands _ _ := .ok [()]
  familyIndexId := .ok "families"
  locatorRelation _ _ := .ok ["locator"]
  laterPhases _ _ := .ok []
  body _ _ := .ok (onePart ⟨0, Nat.zero_lt_two⟩)

def rootPolicy : SelectionPolicy Unit Unit := ⟨"corpus", ["10-K"], [".htm"], [()], 1, 0, none, none, ()⟩

def rootPlan : PlanDirectory Unit Unit where
  document := some ⟨targetPlanSchemaVersion, "pol_root", "catalog", "policy", "corpus", "seeds",
    sha256Hex (utf8 "locator"), 0, ["10-K"], some rootPolicy, 1, none, none⟩
  bundle := fresh
  locatorKeys := ["locator"]
  lineage := none
  count_eq published h := Option.some.inj h ▸ rfl

def onlyRoot : Dict String (PlanDirectory Unit Unit) := Dict.empty.set "pol_root" rootPlan

/-- The root plan is to be doubled where there is nothing to add: the expansion raises, saying that
no child plan was published, and there is one directory more. -/
theorem expand_publishes_short_child :
    (fun result => (result.1.map PlanMeta.planId, result.2.keys.length))
        (expand oneLocator onlyRoot rootPlan (.ok "seeds") 2 none) =
      (.error "expanded selection could not reach target_units; no child plan was published", 2) ∧
    ¬ KeepsPromise onlyRoot rootPlan 2 (expand oneLocator onlyRoot rootPlan (.ok "seeds") 2 none) := by
  have hrun : (fun result => (result.1.map PlanMeta.planId, result.2.keys.length))
        (expand oneLocator onlyRoot rootPlan (.ok "seeds") 2 none) =
      (.error "expanded selection could not reach target_units; no child plan was published", 2) := by
    decide +kernel
  refine ⟨hrun, ?_⟩
  rcases hresult : expand oneLocator onlyRoot rootPlan (.ok "seeds") 2 none with ⟨outcome, plans⟩
  rw [hresult] at hrun
  obtain ⟨houtcome, hcount⟩ := Prod.mk.inj hrun
  cases outcome with
  | ok child => cases houtcome
  | error e =>
    intro hkept
    have hone : onlyRoot.keys.length = 1 := by decide +kernel
    have htwo : plans.keys.length = onlyRoot.keys.length := congrArg List.length hkept
    exact absurd (hcount.symm.trans (htwo.trans hone)) (by decide)

end EdgarSec.FilingCatalog
