import EdgarSec.Xbrl.Evaluation

/-! `evaluate_goal` ends, also over formulas that lead back to their own terms: below a term every
derivation that is entered marks one more of the finitely many keys of the formulas. -/

namespace EdgarSec.Xbrl
open Lib Foundation

variable {u : UpperCase} {kb : KnowledgeBase u} {facts : List (XbrlFact ℚ)} {arcs : List (CalculationArc ℚ)}

/-! ## Formulas -/

def IsTerm (relations : List (FormulaEdge u)) (atom : Atom u) : Prop :=
  ∃ edge ∈ relations, atom = edge.source ∨ atom = edge.target

section Formulas
variable {relations : List (FormulaEdge u)} {target : Atom u} {formula : Formula u} {edge : FormulaEdge u}

theorem mem_of_mem_edges (hformula : formula ∈ completeFormulas relations) (hedge : edge ∈ formula.edges) :
    edge ∈ relations := by
  unfold completeFormulas at hformula
  obtain ⟨key, _, hsome⟩ := List.mem_filterMap.mp hformula
  cases hgroup : (relations.filter isFormulaEdge).filter fun edge => formulaKey edge = key with
  | nil =>
    rw [hgroup] at hsome
    cases hsome
  | cons first others =>
    rw [hgroup] at hsome
    cases others with
    | nil => cases hsome
    | cons second more =>
      cases hsome
      have hmem : edge ∈ (relations.filter isFormulaEdge).filter fun edge => formulaKey edge = key := by
        rw [hgroup]
        exact hedge
      exact List.mem_of_mem_filter (List.mem_of_mem_filter hmem)

theorem isTerm_source (hformula : formula ∈ completeFormulas relations) (hedge : edge ∈ formula.edges) :
    IsTerm relations edge.source := ⟨edge, mem_of_mem_edges hformula hedge, Or.inl rfl⟩

theorem isTerm_target (hformula : formula ∈ completeFormulas relations) : IsTerm relations formula.first.target :=
  ⟨formula.first, mem_of_mem_edges hformula List.mem_cons_self, Or.inr rfl⟩

theorem mem_of_mem_inverseCandidates {formulas : List (Formula u)}
    (h : (formula, edge) ∈ inverseCandidates target formulas) : formula ∈ formulas := by
  have hcandidate := List.mem_of_mem_filter h
  obtain ⟨formula', hformula', hsome⟩ := List.mem_filterMap.mp hcandidate
  obtain ⟨_, _, heq⟩ := Option.map_eq_some_iff.mp hsome
  cases heq
  exact hformula'

end Formulas

/-! ## More depth changes no result -/

section Below
variable {σ : Type} {resolve resolve' : Resolver u σ}

def Below (resolve resolve' : Resolver u σ) : Prop :=
  ∀ atom excluded preferred s r, resolve atom excluded preferred s = some r →
    resolve' atom excluded preferred s = some r

theorem resolveTerms_below (h : Below resolve resolve') (preferred : List String) (edges : List (FormulaEdge u))
    {consumed : List String} {s : σ} {r : Option (List (Resolved u)) × σ}
    (hr : resolveTerms facts resolve preferred edges consumed s = some r) :
    resolveTerms facts resolve' preferred edges consumed s = some r := by
  induction edges generalizing consumed s r with
  | nil => exact hr
  | cons edge rest ih =>
    rw [resolveTerms] at hr ⊢
    cases hfirst : resolve edge.source consumed preferred s with
    | none =>
      rw [hfirst] at hr
      cases hr
    | some found =>
      rw [h _ _ _ _ _ hfirst]
      rw [hfirst] at hr
      obtain ⟨value, s⟩ := found
      cases value with
      | none => exact hr
      | some value =>
        obtain ⟨value, identifier⟩ := value
        dsimp only at hr ⊢
        cases hmore : resolveTerms facts resolve preferred rest
            (if identifier ∈ factQnames facts then identifier :: consumed else consumed) s with
        | none =>
          rw [hmore] at hr
          cases hr
        | some more =>
          rw [hmore] at hr
          rw [ih hmore]
          exact hr

theorem forwardAttempts_below (h : Below resolve resolve') (preferred : List String) (formulas : List (Formula u))
    {s : σ} {r : List (Attempt u) × σ}
    (hr : forwardAttempts kb facts arcs resolve preferred formulas s = some r) :
    forwardAttempts kb facts arcs resolve' preferred formulas s = some r := by
  induction formulas generalizing s r with
  | nil => exact hr
  | cons formula rest ih =>
    rw [forwardAttempts] at hr ⊢
    cases hterms : resolveTerms facts resolve preferred formula.edges [] s with
    | none =>
      rw [hterms] at hr
      cases hr
    | some found =>
      rw [resolveTerms_below h _ _ hterms]
      rw [hterms] at hr
      obtain ⟨resolved, s⟩ := found
      dsimp only at hr ⊢
      cases hmore : forwardAttempts kb facts arcs resolve preferred rest s with
      | none =>
        rw [hmore] at hr
        cases hr
      | some more =>
        rw [hmore] at hr
        rw [ih hmore]
        exact hr

theorem inverseAttempts_below (h : Below resolve resolve') (target : Atom u) (targetConcept : String)
    (candidates : List (Formula u × FormulaEdge u)) {s : σ} {r : List (Attempt u) × σ}
    (hr : inverseAttempts kb facts arcs resolve target targetConcept candidates s = some r) :
    inverseAttempts kb facts arcs resolve' target targetConcept candidates s = some r := by
  induction candidates generalizing s r with
  | nil => exact hr
  | cons candidate rest ih =>
    obtain ⟨formula, edge⟩ := candidate
    rw [inverseAttempts] at hr ⊢
    cases htotal : resolve formula.first.target [] [] s with
    | none =>
      rw [htotal] at hr
      cases hr
    | some found =>
      rw [h _ _ _ _ _ htotal]
      rw [htotal] at hr
      obtain ⟨total, s⟩ := found
      cases total with
      | none => exact ih hr
      | some total =>
        obtain ⟨totalValue, totalId⟩ := total
        dsimp only at hr ⊢
        by_cases hsolvable : solvable kb facts arcs target targetConcept totalId = true
        · rw [if_pos hsolvable] at hr ⊢
          cases hterms : resolveTerms facts resolve (childQnames arcs totalId)
              (formula.edges.filter fun other => ¬ target.isA other.source) [totalId] s with
          | none =>
            rw [hterms] at hr
            cases hr
          | some found =>
            rw [resolveTerms_below h _ _ hterms]
            rw [hterms] at hr
            obtain ⟨others, s⟩ := found
            dsimp only at hr ⊢
            cases hmore : inverseAttempts kb facts arcs resolve target targetConcept rest s with
            | none =>
              rw [hmore] at hr
              cases hr
            | some more =>
              rw [hmore] at hr
              rw [ih hmore]
              exact hr
        · rw [if_neg hsolvable] at hr ⊢
          exact ih hr

theorem deriveWith_below (h : Below resolve resolve') {target : Atom u} {ask : Ask} {s : σ}
    {r : Option (AggregateFact u) × σ} (hr : deriveWith kb facts arcs resolve target ask s = some r) :
    deriveWith kb facts arcs resolve' target ask s = some r := by
  unfold deriveWith at hr ⊢
  cases hrelations : kb.atomRelations with
  | none =>
    rw [hrelations] at hr
    exact hr
  | some relations =>
    rw [hrelations] at hr
    cases hlexicon : kb.hasLexicon with
    | false =>
      rw [hlexicon] at hr
      exact hr
    | true =>
      rw [hlexicon] at hr
      dsimp only at hr ⊢
      cases hforward : forwardAttempts kb facts arcs resolve (childQnames arcs ask.measureId)
          (forwardFormulas target (completeFormulas relations)) s with
      | none =>
        rw [hforward] at hr
        cases hr
      | some found =>
        rw [forwardAttempts_below h _ _ hforward]
        rw [hforward] at hr
        obtain ⟨forward, s⟩ := found
        dsimp only at hr ⊢
        cases hinverse : inverseAttempts kb facts arcs resolve target ask.measureId
            (inverseCandidates target (completeFormulas relations)) s with
        | none =>
          rw [hinverse] at hr
          cases hr
        | some found =>
          rw [inverseAttempts_below h _ _ _ hinverse]
          rw [hinverse] at hr
          exact hr

end Below

theorem resolveAtomValue_below
    {derive derive' : Atom u → Ask → Trail u → Option (Option (AggregateFact u) × Trail u)}
    (h : ∀ target ask trail r, derive target ask trail = some r → derive' target ask trail = some r) :
    Below (resolveAtomValue kb facts derive) (resolveAtomValue kb facts derive') := by
  intro atom excluded preferred trail r hr
  unfold resolveAtomValue at hr ⊢
  by_cases hlexicon : kb.hasLexicon = true
  · rw [if_pos hlexicon] at hr ⊢
    cases hnearest : nearestFact kb facts atom excluded preferred with
    | some found =>
      rw [hnearest] at hr
      exact hr
    | none =>
      rw [hnearest] at hr
      dsimp only at hr ⊢
      by_cases hvisited : atom.str ∈ trail.visited
      · rw [if_pos hvisited] at hr ⊢
        exact hr
      · rw [if_neg hvisited] at hr ⊢
        cases hderive : derive atom ⟨atom.str, "", "", "USD"⟩
            ⟨trail.visited ++ [atom.str], trail.entered ++ [atom]⟩ with
        | none =>
          rw [hderive] at hr
          cases hr
        | some found =>
          rw [h _ _ _ _ hderive]
          rw [hderive] at hr
          exact hr
  · rw [if_neg hlexicon] at hr ⊢
    exact hr

theorem deriveAtom_succ (n : Nat) {target : Atom u} {ask : Ask} {trail : Trail u}
    {r : Option (AggregateFact u) × Trail u} (hr : deriveAtom kb facts arcs n target ask trail = some r) :
    deriveAtom kb facts arcs (n + 1) target ask trail = some r := by
  induction n generalizing target ask trail r with
  | zero => cases hr
  | succ n ih =>
    rw [deriveAtom] at hr ⊢
    apply deriveWith_below _ hr
    apply resolveAtomValue_below
    intro target ask trail r hr
    exact ih hr

theorem resolver_succ (n : Nat) : Below (resolveAtomValue kb facts (deriveAtom kb facts arcs n))
    (resolveAtomValue kb facts (deriveAtom kb facts arcs (n + 1))) := by
  apply resolveAtomValue_below
  intro target ask trail r hr
  exact deriveAtom_succ n hr

/-! ## Enough depth -/

def Runs {σ : Type} (terms : Atom u → Prop) (Fine : σ → Prop) (resolve : Resolver u σ) : Prop :=
  ∀ atom excluded preferred s, terms atom → Fine s → ∃ r t, resolve atom excluded preferred s = some (r, t) ∧ Fine t

section Runs
variable {σ : Type} {resolve : Resolver u σ} {terms : Atom u → Prop} {Fine : σ → Prop}

theorem resolveTerms_runs (h : Runs terms Fine resolve) (facts : List (XbrlFact ℚ)) (preferred : List String)
    (edges : List (FormulaEdge u)) (hedges : ∀ edge ∈ edges, terms edge.source) (consumed : List String) {s : σ}
    (hs : Fine s) : ∃ r t, resolveTerms facts resolve preferred edges consumed s = some (r, t) ∧ Fine t := by
  induction edges generalizing consumed s with
  | nil => exact ⟨_, s, rfl, hs⟩
  | cons edge rest ih =>
    obtain ⟨value, s', hfirst, hs'⟩ := h edge.source consumed preferred s (hedges edge List.mem_cons_self) hs
    rw [resolveTerms, hfirst]
    cases value with
    | none => exact ⟨none, s', rfl, hs'⟩
    | some value =>
      obtain ⟨value, identifier⟩ := value
      have hrest : ∀ edge ∈ rest, terms edge.source := fun edge hedge => hedges edge (List.mem_cons_of_mem _ hedge)
      obtain ⟨more, t, hmore, ht⟩ :=
        ih hrest (if identifier ∈ factQnames facts then identifier :: consumed else consumed) hs'
      dsimp only
      rw [hmore]
      exact ⟨_, t, rfl, ht⟩

theorem forwardAttempts_runs (h : Runs terms Fine resolve) (kb : KnowledgeBase u) (facts : List (XbrlFact ℚ))
    (arcs : List (CalculationArc ℚ)) (preferred : List String) (formulas : List (Formula u))
    (hformulas : ∀ formula ∈ formulas, ∀ edge ∈ formula.edges, terms edge.source) {s : σ} (hs : Fine s) :
    ∃ r t, forwardAttempts kb facts arcs resolve preferred formulas s = some (r, t) ∧ Fine t := by
  induction formulas generalizing s with
  | nil => exact ⟨_, s, rfl, hs⟩
  | cons formula rest ih =>
    obtain ⟨resolved, s', hterms, hs'⟩ :=
      resolveTerms_runs h facts preferred formula.edges (hformulas formula List.mem_cons_self) [] hs
    have hrest : ∀ formula ∈ rest, ∀ edge ∈ formula.edges, terms edge.source :=
      fun formula hformula => hformulas formula (List.mem_cons_of_mem _ hformula)
    obtain ⟨more, t, hmore, ht⟩ := ih hrest hs'
    rw [forwardAttempts, hterms]
    dsimp only
    rw [hmore]
    exact ⟨_, t, rfl, ht⟩

theorem inverseAttempts_runs (h : Runs terms Fine resolve) (kb : KnowledgeBase u) (facts : List (XbrlFact ℚ))
    (arcs : List (CalculationArc ℚ)) (target : Atom u) (targetConcept : String)
    (candidates : List (Formula u × FormulaEdge u))
    (hcandidates : ∀ candidate ∈ candidates, terms candidate.1.first.target ∧
      ∀ edge ∈ candidate.1.edges, terms edge.source) {s : σ} (hs : Fine s) :
    ∃ r t, inverseAttempts kb facts arcs resolve target targetConcept candidates s = some (r, t) ∧ Fine t := by
  induction candidates generalizing s with
  | nil => exact ⟨_, s, rfl, hs⟩
  | cons candidate rest ih =>
    obtain ⟨formula, edge⟩ := candidate
    obtain ⟨htarget, hedges⟩ := hcandidates _ List.mem_cons_self
    have hrest : ∀ candidate ∈ rest, terms candidate.1.first.target ∧ ∀ edge ∈ candidate.1.edges, terms edge.source :=
      fun candidate hcandidate => hcandidates candidate (List.mem_cons_of_mem _ hcandidate)
    obtain ⟨total, s', htotal, hs'⟩ := h formula.first.target [] [] s htarget hs
    rw [inverseAttempts, htotal]
    cases total with
    | none => exact ih hrest hs'
    | some total =>
      obtain ⟨totalValue, totalId⟩ := total
      dsimp only
      by_cases hsolvable : solvable kb facts arcs target targetConcept totalId = true
      · rw [if_pos hsolvable]
        have hothers : ∀ other ∈ formula.edges.filter (fun other => ¬ target.isA other.source), terms other.source :=
          fun other hother => hedges other (List.mem_of_mem_filter hother)
        obtain ⟨others, s'', hterms, hs''⟩ :=
          resolveTerms_runs h facts (childQnames arcs totalId) _ hothers [totalId] hs'
        obtain ⟨more, t, hmore, ht⟩ := ih hrest hs''
        rw [hterms]
        dsimp only
        rw [hmore]
        exact ⟨_, t, rfl, ht⟩
      · rw [if_neg hsolvable]
        exact ih hrest hs'

theorem deriveWith_runs {relations : List (FormulaEdge u)} (hrelations : kb.atomRelations = some relations)
    (h : Runs (IsTerm relations) Fine resolve) (target : Atom u) (ask : Ask) {s : σ} (hs : Fine s) :
    ∃ r t, deriveWith kb facts arcs resolve target ask s = some (r, t) ∧ Fine t := by
  unfold deriveWith
  rw [hrelations]
  cases kb.hasLexicon with
  | false => exact ⟨none, s, rfl, hs⟩
  | true =>
    have hforward : ∀ formula ∈ forwardFormulas target (completeFormulas relations), ∀ edge ∈ formula.edges,
        IsTerm relations edge.source := by
      intro formula hformula edge hedge
      exact isTerm_source (List.mem_of_mem_filter (List.mem_of_mem_filter hformula)) hedge
    have hinverse : ∀ candidate ∈ inverseCandidates target (completeFormulas relations),
        IsTerm relations candidate.1.first.target ∧ ∀ edge ∈ candidate.1.edges, IsTerm relations edge.source := by
      intro candidate hcandidate
      have hformula := mem_of_mem_inverseCandidates hcandidate
      exact ⟨isTerm_target hformula, fun edge hedge => isTerm_source hformula hedge⟩
    obtain ⟨forward, s', hfound, hs'⟩ :=
      forwardAttempts_runs h kb facts arcs (childQnames arcs ask.measureId) _ hforward hs
    obtain ⟨inverse, t, hfound', ht⟩ := inverseAttempts_runs h kb facts arcs target ask.measureId _ hinverse hs'
    dsimp only
    rw [hfound]
    dsimp only
    rw [hfound']
    exact ⟨_, t, rfl, ht⟩

end Runs

/-! ## Trails -/

section Trails
variable (relations : List (FormulaEdge u))

def formulaKeys : Finset String := (relations.flatMap fun edge => [edge.source.str, edge.target.str]).toFinset

structure Fine (n : Nat) (trail : Trail u) : Prop where
  left : (formulaKeys relations \ trail.visited.toFinset).card < n
  nodup : trail.entered.Nodup
  marked : ∀ atom ∈ trail.entered, atom.str ∈ trail.visited

variable {relations}

theorem Fine.succ {n : Nat} {trail : Trail u} (h : Fine relations n trail) : Fine relations (n + 1) trail :=
  ⟨h.left.trans (Nat.lt_succ_self n), h.nodup, h.marked⟩

theorem str_mem_formulaKeys {atom : Atom u} (h : IsTerm relations atom) : atom.str ∈ formulaKeys relations := by
  obtain ⟨edge, hedge, hatom⟩ := h
  apply List.mem_toFinset.mpr
  apply List.mem_flatMap.mpr
  refine ⟨edge, hedge, ?_⟩
  cases hatom with
  | inl hsource =>
    rw [hsource]
    exact List.mem_cons_self
  | inr htarget =>
    rw [htarget]
    exact List.mem_cons_of_mem _ List.mem_cons_self

theorem Fine.enter {n : Nat} {trail : Trail u} (h : Fine relations (n + 1) trail) {atom : Atom u}
    (hterm : IsTerm relations atom) (hnew : atom.str ∉ trail.visited) :
    Fine relations n ⟨trail.visited ++ [atom.str], trail.entered ++ [atom]⟩ := by
  have hlt : (formulaKeys relations \ (trail.visited ++ [atom.str]).toFinset).card <
      (formulaKeys relations \ trail.visited.toFinset).card := by
    apply Finset.card_lt_card
    rw [Finset.ssubset_iff_of_subset]
    · refine ⟨atom.str, ?_, ?_⟩
      · exact Finset.mem_sdiff.mpr ⟨str_mem_formulaKeys hterm, by simpa using hnew⟩
      · simp
    · intro key hkey
      simp only [Finset.mem_sdiff, List.mem_toFinset, List.mem_append] at hkey ⊢
      exact ⟨hkey.1, fun hvisited => hkey.2 (Or.inl hvisited)⟩
  refine ⟨hlt.trans_le (Nat.lt_succ_iff.mp h.left), ?_, ?_⟩
  · -- An atom that was entered before has its key in the set.
    apply List.nodup_append.mpr
    refine ⟨h.nodup, List.nodup_singleton _, ?_⟩
    intro a ha b hb heq
    rw [List.mem_singleton.mp hb] at heq
    exact hnew (heq ▸ h.marked a ha)
  · intro a ha
    cases List.mem_append.mp ha with
    | inl hold => exact List.mem_append_left _ (h.marked a hold)
    | inr hlast =>
      rw [List.mem_singleton.mp hlast]
      exact List.mem_append_right _ List.mem_cons_self

theorem resolveAtomValue_runs {n : Nat}
    {derive : Atom u → Ask → Trail u → Option (Option (AggregateFact u) × Trail u)}
    (h : ∀ target ask trail, Fine relations n trail →
      ∃ r trail', derive target ask trail = some (r, trail') ∧ Fine relations n trail') :
    Runs (IsTerm relations) (Fine relations (n + 1)) (resolveAtomValue kb facts derive) := by
  intro atom excluded preferred trail hterm hfine
  unfold resolveAtomValue
  by_cases hlexicon : kb.hasLexicon = true
  · rw [if_pos hlexicon]
    cases nearestFact kb facts atom excluded preferred with
    | some found => exact ⟨_, trail, rfl, hfine⟩
    | none =>
      dsimp only
      by_cases hvisited : atom.str ∈ trail.visited
      · rw [if_pos hvisited]
        exact ⟨none, trail, rfl, hfine⟩
      · obtain ⟨r, trail', hderive, hfine'⟩ :=
          h atom ⟨atom.str, "", "", "USD"⟩ _ (hfine.enter hterm hvisited)
        rw [if_neg hvisited, hderive]
        exact ⟨_, trail', rfl, hfine'.succ⟩
  · rw [if_neg hlexicon]
    exact ⟨none, trail, rfl, hfine⟩

theorem deriveAtom_runs (hrelations : kb.atomRelations = some relations) (n : Nat) (target : Atom u) (ask : Ask)
    (trail : Trail u) (hfine : Fine relations n trail) :
    ∃ r trail', deriveAtom kb facts arcs n target ask trail = some (r, trail') ∧ Fine relations n trail' := by
  induction n generalizing target ask trail with
  | zero => exact absurd hfine.left (Nat.not_lt_zero _)
  | succ n ih => exact deriveWith_runs hrelations (resolveAtomValue_runs ih) target ask hfine

end Trails

/-! ## Goals -/

def evaluationSteps (kb : KnowledgeBase u) : Nat := 2 * (kb.atomRelations.getD []).length + 1

theorem fine_start {relations : List (FormulaEdge u)} (hrelations : kb.atomRelations = some relations)
    (visited : List String) : Fine relations (evaluationSteps kb) ⟨visited, []⟩ := by
  refine ⟨?_, List.nodup_nil, fun atom hatom => absurd hatom List.not_mem_nil⟩
  have hsub := Finset.card_le_card (Finset.sdiff_subset (s := formulaKeys relations) (t := visited.toFinset))
  have hkeys : (formulaKeys relations).card ≤ 2 * relations.length := by
    have hlength := List.toFinset_card_le (relations.flatMap fun edge => [edge.source.str, edge.target.str])
    have htwo : (relations.flatMap fun edge => [edge.source.str, edge.target.str]).length = 2 * relations.length := by
      simp [List.length_flatMap, Nat.mul_comm]
    rwa [htwo] at hlength
  rw [evaluationSteps, hrelations]
  exact Nat.lt_succ_iff.mpr (hsub.trans hkeys)

theorem termResolver_runs {relations : List (FormulaEdge u)} (hrelations : kb.atomRelations = some relations) :
    Runs (IsTerm relations) (Fine relations (evaluationSteps kb + 1))
      (resolveAtomValue kb facts (deriveAtom kb facts arcs (evaluationSteps kb))) :=
  resolveAtomValue_runs fun target ask trail hfine => deriveAtom_runs hrelations _ target ask trail hfine

theorem topResolver_runs {relations : List (FormulaEdge u)} (hrelations : kb.atomRelations = some relations) :
    Runs (IsTerm relations) (fun trails : List (Trail u) => ∀ trail ∈ trails, trail.entered.Nodup)
      (topResolver kb facts arcs (evaluationSteps kb)) := by
  intro atom excluded preferred trails hterm hnodup
  have hruns : Runs (IsTerm relations) (Fine relations (evaluationSteps kb + 1))
      (resolveAtomValue kb facts (deriveAtom kb facts arcs (evaluationSteps kb))) := termResolver_runs hrelations
  obtain ⟨r, trail, hresolve, hfine⟩ := hruns atom excluded preferred ⟨[], []⟩ hterm (fine_start hrelations []).succ
  refine ⟨r, trails ++ [trail], ?_, ?_⟩
  · rw [topResolver, hresolve]
  · intro t ht
    cases List.mem_append.mp ht with
    | inl hold => exact hnodup t hold
    | inr hlast =>
      rw [List.mem_singleton.mp hlast]
      exact hfine.nodup

theorem deriveGoal_enough (kb : KnowledgeBase u) (facts : List (XbrlFact ℚ)) (arcs : List (CalculationArc ℚ))
    (target : Atom u) (ask : Ask) (visited : Option (List String)) :
    ∃ r trails, deriveGoal kb facts arcs (evaluationSteps kb) target ask visited = some (r, trails) ∧
      ∀ trail ∈ trails, trail.entered.Nodup := by
  cases hrelations : kb.atomRelations with
  | none =>
    unfold deriveGoal deriveWith
    rw [hrelations]
    cases visited with
    | none => exact ⟨none, [], rfl, fun trail htrail => absurd htrail List.not_mem_nil⟩
    | some visited =>
      refine ⟨none, [⟨visited, []⟩], rfl, ?_⟩
      intro trail htrail
      rw [List.mem_singleton.mp htrail]
      exact List.nodup_nil
  | some relations =>
    unfold deriveGoal
    cases visited with
    | none =>
      exact deriveWith_runs hrelations (topResolver_runs hrelations) target ask
        (fun trail htrail => absurd htrail List.not_mem_nil)
    | some visited =>
      have hruns : Runs (IsTerm relations) (Fine relations (evaluationSteps kb + 1))
          (resolveAtomValue kb facts (deriveAtom kb facts arcs (evaluationSteps kb))) := termResolver_runs hrelations
      obtain ⟨r, trail, hderive, hfine⟩ : ∃ r trail, deriveWith kb facts arcs _ target ask ⟨visited, []⟩ =
          some (r, trail) ∧ Fine relations (evaluationSteps kb + 1) trail :=
        deriveWith_runs hrelations hruns target ask (fine_start hrelations visited).succ
      refine ⟨r, [trail], ?_, ?_⟩
      · dsimp only
        rw [hderive]
      · intro t ht
        rw [List.mem_singleton.mp ht]
        exact hfine.nodup

theorem deriveGoal_succ (n : Nat) {target : Atom u} {ask : Ask} {visited : Option (List String)}
    {r : Option (AggregateFact u) × List (Trail u)} (hr : deriveGoal kb facts arcs n target ask visited = some r) :
    deriveGoal kb facts arcs (n + 1) target ask visited = some r := by
  have hresolver : Below (resolveAtomValue kb facts (deriveAtom kb facts arcs n))
      (resolveAtomValue kb facts (deriveAtom kb facts arcs (n + 1))) := resolver_succ n
  unfold deriveGoal at hr ⊢
  cases visited with
  | none =>
    apply deriveWith_below _ hr
    intro atom excluded preferred trails r hr
    unfold topResolver at hr ⊢
    cases hresolve : resolveAtomValue kb facts (deriveAtom kb facts arcs n) atom excluded preferred ⟨[], []⟩ with
    | none =>
      rw [hresolve] at hr
      cases hr
    | some found =>
      rw [hresolve] at hr
      rw [hresolver _ _ _ _ _ hresolve]
      exact hr
  | some visited =>
    dsimp only at hr ⊢
    cases hderive : deriveWith kb facts arcs (resolveAtomValue kb facts (deriveAtom kb facts arcs n)) target ask
        ⟨visited, []⟩ with
    | none =>
      rw [hderive] at hr
      cases hr
    | some found =>
      rw [hderive] at hr
      rw [deriveWith_below hresolver hderive]
      exact hr

/-- Every goal has a result at a depth that the number of edges gives, and the same result at every
greater depth; below one term no atom's derivation is entered twice. -/
theorem evaluateGoal_ends (kb : KnowledgeBase u) (facts : List (XbrlFact ℚ)) (arcs : List (CalculationArc ℚ))
    (ask : Ask) (axisFilter : Option String) (visited : Option (List String)) :
    ∃ fact trails, (∀ n, evaluationSteps kb ≤ n →
        evaluateGoal kb facts arcs n ask axisFilter visited = some (fact, trails)) ∧
      ∀ trail ∈ trails, trail.entered.Nodup := by
  have hnone : ∀ trail ∈ ([] : List (Trail u)), trail.entered.Nodup := fun trail h => absurd h List.not_mem_nil
  unfold evaluateGoal
  cases filedGoal kb facts arcs ask axisFilter with
  | some fact => exact ⟨fact, [], fun _ _ => rfl, hnone⟩
  | none =>
    dsimp only
    by_cases hlexicon : kb.hasLexicon = true
    · simp only [if_pos hlexicon]
      obtain ⟨derived, trails, hderive, hnodup⟩ := deriveGoal_enough kb facts arcs
        (kb.decomposer.atomOf ask.measureId) ask visited
      refine ⟨(derived.or (epsGoal kb facts ask (kb.decomposer.atomOf ask.measureId))).getD (unresolvedGoal ask),
        trails, ?_, hnodup⟩
      intro n hn
      have hsame : deriveGoal kb facts arcs n (kb.decomposer.atomOf ask.measureId) ask visited =
          some (derived, trails) := by
        induction n, hn using Nat.le_induction with
        | base => exact hderive
        | succ n _ ih => exact deriveGoal_succ n ih
      rw [hsame]
    · simp only [if_neg hlexicon]
      exact ⟨_, [], fun _ _ => rfl, hnone⟩

end EdgarSec.Xbrl
