import EdgarSec.Lexical.Evidence

/-! What the early exits of `score_tokens` do to its verdict. -/

namespace EdgarSec.Lexical
open Lib Foundation

/-! ## Every tier evaluated -/

section Full
variable (hitsOf : CompiledTier → List EvidenceHit)

def Satisfied (tier : CompiledTier) : Prop := tier.minDistinctHits ≤ (hitsOf tier).length

instance (tier : CompiledTier) : Decidable (Satisfied hitsOf tier) := by
  unfold Satisfied
  infer_instance

def PartlySatisfied (tier : CompiledTier) : Prop :=
  ¬ Satisfied hitsOf tier ∧ hitsOf tier ≠ [] ∧ 2 ≤ tier.value ∧ tier.support = false

instance (tier : CompiledTier) : Decidable (PartlySatisfied hitsOf tier) := by
  unfold PartlySatisfied
  infer_instance

def primaryValue (tiers : List CompiledTier) : Nat :=
  ((tiers.filter fun tier => Satisfied hitsOf tier ∧ tier.support = false).map (·.value)).foldr max 0

def satisfiedSupports (tiers : List CompiledTier) : Nat :=
  (tiers.filter fun tier => Satisfied hitsOf tier ∧ tier.support = true).length

def fullScore (tiers : List CompiledTier) : Nat :=
  let primary := primaryValue hitsOf tiers
  let strongest := if primary = 0 ∧ tiers.any (fun tier => PartlySatisfied hitsOf tier) then 1 else primary
  min 3 (strongest + satisfiedSupports hitsOf tiers)

def Decisive (tier : CompiledTier) : Prop := Satisfied hitsOf tier ∧ (tier.support = true ∨ 2 ≤ tier.value)

def WeakBandDone (tiers : List CompiledTier) (tier : CompiledTier) : Prop :=
  Satisfied hitsOf tier ∧ tier.support = false ∧ ∀ other ∈ tiers, other.priority = tier.priority → other.value ≤ 1

/-- A weak band is done before the first decisive tier, and there is one behind it. -/
def Overtaken (tiers : List CompiledTier) : Prop :=
  ∃ before tier after, tiers = before ++ tier :: after ∧ WeakBandDone hitsOf tiers tier ∧
    (∀ other ∈ before, ¬ Decisive hitsOf other) ∧ ∃ other ∈ after, Decisive hitsOf other

end Full

def fullClassification (u : LetterCase) (tokens : List Token) (compiled : CompiledEvidencePack)
    (context : EvidenceContext) : Classification :=
  if context.eligible = false ∨ (tokens.length : Int) < context.minWords then .noMatch
  else classificationOf (fullScore (tierHits u compiled.automaton tokens) compiled.tiers)

variable {hitsOf : CompiledTier → List EvidenceHit} {t : Tally} {tier : CompiledTier} {later : List CompiledTier}

/-! ## One tier -/

@[simp] theorem score_enter : (t.enter tier).score = t.score := by
  unfold Tally.enter
  split <;> rfl

@[simp] theorem supportScore_enter : (t.enter tier).supportScore = t.supportScore := by
  unfold Tally.enter
  split <;> rfl

@[simp] theorem partlyStrong_enter : (t.enter tier).partlyStrong = t.partlyStrong := by
  unfold Tally.enter
  split <;> rfl

structure Counted (hitsOf : CompiledTier → List EvidenceHit) (t : Tally) (tier : CompiledTier) (t' : Tally) : Prop where
  score : t'.score = if Satisfied hitsOf tier ∧ tier.support = false then max t.score tier.value else t.score
  supportScore : t'.supportScore = t.supportScore + if Satisfied hitsOf tier ∧ tier.support = true then 1 else 0
  partlyStrong : t'.partlyStrong = (t.partlyStrong || decide (PartlySatisfied hitsOf tier))
  bandPriority : t'.bandPriority = t.bandPriority
  bandMax : t'.bandMax = t.bandMax

theorem counted_count : Counted hitsOf t tier (t.count tier (hitsOf tier)) := by
  unfold Tally.count
  by_cases hsat : Satisfied hitsOf tier
  · have hnot : ¬ PartlySatisfied hitsOf tier := fun h => h.1 hsat
    have hsat' : tier.minDistinctHits ≤ (hitsOf tier).length := hsat
    cases hsupport : tier.support with
    | true =>
      have hvalue := tier.value_of_support hsupport
      refine ⟨?_, ?_, ?_, ?_, ?_⟩ <;> simp [hsat, hsat', hnot, hvalue, hsupport]
    | false =>
      by_cases hlt : t.score < tier.value
      · refine ⟨?_, ?_, ?_, ?_, ?_⟩ <;> simp [hsat, hsat', hnot, hlt, Nat.le_of_lt hlt, hsupport]
      · refine ⟨?_, ?_, ?_, ?_, ?_⟩ <;> simp [hsat, hsat', hnot, hlt, Nat.not_lt.mp hlt, hsupport]
  · have hsat' : ¬ tier.minDistinctHits ≤ (hitsOf tier).length := hsat
    by_cases hpartly : ¬ hitsOf tier = [] ∧ 2 ≤ tier.value ∧ tier.support = false
    · have hyes : PartlySatisfied hitsOf tier := ⟨hsat, hpartly⟩
      refine ⟨?_, ?_, ?_, ?_, ?_⟩ <;> simp [hsat, hsat', hyes, hpartly]
    · have hno : ¬ PartlySatisfied hitsOf tier := fun h => hpartly h.2
      refine ⟨?_, ?_, ?_, ?_, ?_⟩ <;> simp [hsat, hsat', hno, hpartly]

def Tally.after (hitsOf : CompiledTier → List EvidenceHit) (t : Tally) (tier : CompiledTier) : Tally :=
  (t.enter tier).count tier (hitsOf tier)

theorem counted_after : Counted hitsOf (t.enter tier) tier (t.after hitsOf tier) := counted_count

theorem score_after : (t.after hitsOf tier).score =
    if Satisfied hitsOf tier ∧ tier.support = false then max t.score tier.value else t.score := by
  have h := (@counted_after hitsOf t tier).score
  rwa [score_enter] at h

theorem supportScore_after : (t.after hitsOf tier).supportScore =
    t.supportScore + if Satisfied hitsOf tier ∧ tier.support = true then 1 else 0 := by
  have h := (@counted_after hitsOf t tier).supportScore
  rwa [supportScore_enter] at h

theorem partlyStrong_after : (t.after hitsOf tier).partlyStrong =
    (t.partlyStrong || decide (PartlySatisfied hitsOf tier)) := by
  have h := (@counted_after hitsOf t tier).partlyStrong
  rwa [partlyStrong_enter] at h

/-! ## What a whole run comes to -/

def fullFrom (hitsOf : CompiledTier → List EvidenceHit) (t : Tally) (later : List CompiledTier) : Nat :=
  let primary := max t.score (primaryValue hitsOf later)
  let strongest := if primary = 0 ∧
    (t.partlyStrong || later.any fun tier => PartlySatisfied hitsOf tier) = true then 1 else primary
  min 3 (strongest + (t.supportScore + satisfiedSupports hitsOf later))

theorem primaryValue_cons : primaryValue hitsOf (tier :: later) =
    if Satisfied hitsOf tier ∧ tier.support = false then max tier.value (primaryValue hitsOf later)
    else primaryValue hitsOf later := by
  unfold primaryValue
  by_cases h : Satisfied hitsOf tier ∧ tier.support = false
  · rw [if_pos h, List.filter_cons, if_pos (decide_eq_true h), List.map_cons, List.foldr_cons]
  · rw [if_neg h, List.filter_cons, if_neg (fun e => h (of_decide_eq_true e))]

theorem satisfiedSupports_cons : satisfiedSupports hitsOf (tier :: later) =
    (if Satisfied hitsOf tier ∧ tier.support = true then 1 else 0) + satisfiedSupports hitsOf later := by
  unfold satisfiedSupports
  by_cases h : Satisfied hitsOf tier ∧ tier.support = true
  · rw [if_pos h, List.filter_cons, if_pos (decide_eq_true h), List.length_cons, Nat.add_comm]
  · rw [if_neg h, List.filter_cons, if_neg (fun e => h (of_decide_eq_true e)), Nat.zero_add]

theorem fullFrom_nil : fullFrom hitsOf t [] = t.total := by
  simp [fullFrom, Tally.total, primaryValue, satisfiedSupports]

theorem fullFrom_cons : fullFrom hitsOf t (tier :: later) = fullFrom hitsOf (t.after hitsOf tier) later := by
  have hprimary : max t.score (primaryValue hitsOf (tier :: later)) =
      max (t.after hitsOf tier).score (primaryValue hitsOf later) := by
    rw [primaryValue_cons, score_after]
    by_cases h : Satisfied hitsOf tier ∧ tier.support = false
    · rw [if_pos h, if_pos h, max_assoc]
    · rw [if_neg h, if_neg h]
  have hsupports : t.supportScore + satisfiedSupports hitsOf (tier :: later) =
      (t.after hitsOf tier).supportScore + satisfiedSupports hitsOf later := by
    rw [satisfiedSupports_cons, supportScore_after, Nat.add_assoc]
  unfold fullFrom
  rw [hprimary, hsupports, partlyStrong_after, List.any_cons, Bool.or_assoc]

theorem fullFrom_start (tiers : List CompiledTier) : fullFrom hitsOf .start tiers = fullScore hitsOf tiers := by
  simp [fullFrom, fullScore, Tally.start]

theorem two_le_fullFrom (h : 2 ≤ t.score + t.supportScore) : 2 ≤ fullFrom hitsOf t later := by
  unfold fullFrom
  have hle : t.score ≤ max t.score (primaryValue hitsOf later) := le_max_left _ _
  dsimp only
  split <;> omega

theorem two_le_total (h : 2 ≤ t.score + t.supportScore) : 2 ≤ t.total := by
  rw [← @fullFrom_nil (fun _ => []) t]
  exact two_le_fullFrom h

theorem total_scoreTiers_cons : (scoreTiers hitsOf t (tier :: later)).total =
    if (Satisfied hitsOf tier ∧ tier.support = false ∧ (t.after hitsOf tier).score = (t.after hitsOf tier).bandMax) ∨
        (2 ≤ (t.after hitsOf tier).score ∧ ∀ lower ∈ later, lower.value ≤ (t.after hitsOf tier).score) then
      (t.after hitsOf tier).total
    else (scoreTiers hitsOf (t.after hitsOf tier) later).total := by
  have hany : ¬ (later.any fun lower => (t.after hitsOf tier).score < lower.value) = true ↔
      ∀ lower ∈ later, lower.value ≤ (t.after hitsOf tier).score := by
    simp
  rw [scoreTiers]
  by_cases hband : tier.minDistinctHits ≤ (hitsOf tier).length ∧ tier.support = false ∧
      ((t.enter tier).count tier (hitsOf tier)).score = ((t.enter tier).count tier (hitsOf tier)).bandMax
  · have hband' : Satisfied hitsOf tier ∧ tier.support = false ∧
        (t.after hitsOf tier).score = (t.after hitsOf tier).bandMax := hband
    rw [if_pos hband, if_pos (Or.inl hband')]
    rfl
  · have hband' : ¬ (Satisfied hitsOf tier ∧ tier.support = false ∧
        (t.after hitsOf tier).score = (t.after hitsOf tier).bandMax) := hband
    rw [if_neg hband]
    by_cases hlower : 2 ≤ (t.after hitsOf tier).score ∧ ∀ lower ∈ later, lower.value ≤ (t.after hitsOf tier).score
    · have hlower' : 2 ≤ ((t.enter tier).count tier (hitsOf tier)).score ∧ ¬ (later.any fun lower =>
          ((t.enter tier).count tier (hitsOf tier)).score < lower.value) = true := ⟨hlower.1, hany.mpr hlower.2⟩
      rw [if_pos hlower', if_pos (Or.inr hlower)]
      rfl
    · have hlower' : ¬ (2 ≤ ((t.enter tier).count tier (hitsOf tier)).score ∧ ¬ (later.any fun lower =>
          ((t.enter tier).count tier (hitsOf tier)).score < lower.value) = true) :=
        fun h => hlower ⟨h.1, hany.mp h.2⟩
      rw [if_neg hlower', if_neg (not_or_intro hband' hlower)]
      rfl

theorem total_scoreTiers_ge (h : 2 ≤ t.score + t.supportScore) : 2 ≤ (scoreTiers hitsOf t later).total := by
  induction later generalizing t with
  | nil => exact two_le_total h
  | cons tier later ih =>
    have hafter : 2 ≤ (t.after hitsOf tier).score + (t.after hitsOf tier).supportScore := by
      rw [score_after, supportScore_after]
      have hle : t.score ≤ max t.score tier.value := le_max_left _ _
      split <;> split <;> omega
    rw [total_scoreTiers_cons]
    split
    · exact two_le_total hafter
    · exact ih hafter

theorem classificationOf_of_two_le {n m : Nat} (hn : 2 ≤ n) (hm : 2 ≤ m) : classificationOf n = classificationOf m := by
  rw [classificationOf, classificationOf, if_pos hn, if_pos hm]

theorem classification_of_support (h : 1 ≤ t.supportScore) :
    classificationOf (scoreTiers hitsOf t later).total = classificationOf (fullFrom hitsOf t later) := by
  induction later generalizing t with
  | nil => rw [fullFrom_nil, scoreTiers]
  | cons tier later ih =>
    have hsupport : 1 ≤ (t.after hitsOf tier).supportScore := by
      rw [supportScore_after]
      omega
    rw [total_scoreTiers_cons, fullFrom_cons]
    split
    · rename_i hexit
      have hscore : 1 ≤ (t.after hitsOf tier).score := by
        rcases hexit with ⟨hsat, hprimary, -⟩ | ⟨htwo, -⟩
        · rw [score_after, if_pos ⟨hsat, hprimary⟩]
          exact le_max_of_le_right tier.value_range.1
        · omega
      exact classificationOf_of_two_le (two_le_total (by omega)) (two_le_fullFrom (by omega))
    · exact ih hsupport

/-! ## Bands -/

structure InBand (before : List CompiledTier) (t : Tally) : Prop where
  priority : t.bandPriority = before.getLast?.map (·.priority)
  bounded : ∀ tier ∈ before, t.bandPriority = some tier.priority → tier.value ≤ t.bandMax
  attained : ∀ p, t.bandPriority = some p → ∃ tier ∈ before, tier.priority = p ∧ tier.value = t.bandMax

def ByBand (a b : CompiledTier) : Prop := b.priority < a.priority ∨ (a.priority = b.priority ∧ b.value ≤ a.value)

theorem inBand_start : InBand [] .start :=
  ⟨rfl, fun _ h => absurd h List.not_mem_nil, fun _ h => absurd h.symm (Option.some_ne_none _)⟩

theorem bandPriority_after : (t.after hitsOf tier).bandPriority = some tier.priority := by
  rw [(@counted_after hitsOf t tier).bandPriority]
  unfold Tally.enter
  by_cases hp : t.bandPriority = some tier.priority
  · simp [hp]
  · simp [hp]

theorem bandMax_after : (t.after hitsOf tier).bandMax =
    if t.bandPriority = some tier.priority then t.bandMax else tier.value := by
  rw [(@counted_after hitsOf t tier).bandMax]
  unfold Tally.enter
  by_cases hp : t.bandPriority = some tier.priority
  · simp [hp]
  · simp [hp]

theorem InBand.after {before : List CompiledTier} (h : InBand before t)
    (hsorted : (before ++ tier :: later).Pairwise ByBand) : InBand (before ++ [tier]) (t.after hitsOf tier) := by
  obtain ⟨-, -, hcross⟩ := List.pairwise_append.mp hsorted
  refine ⟨?_, ?_, ?_⟩
  · rw [bandPriority_after, List.getLast?_concat]
    rfl
  · intro other hother hp
    rw [bandPriority_after, Option.some.injEq] at hp
    rw [bandMax_after]
    by_cases hsame : t.bandPriority = some tier.priority
    · rw [if_pos hsame]
      rcases List.mem_append.mp hother with hbefore | hself
      · exact h.bounded other hbefore (hsame.trans (congrArg some hp))
      · rw [List.mem_singleton.mp hself]
        obtain ⟨first, hfirst, hpriority, hvalue⟩ := h.attained tier.priority hsame
        rcases hcross first hfirst tier List.mem_cons_self with hlt | ⟨-, hle⟩
        · omega
        · exact hvalue ▸ hle
    · rw [if_neg hsame]
      rcases List.mem_append.mp hother with hbefore | hself
      · -- the band before this one is not its own, so nothing before has its priority
        exfalso
        obtain ⟨front, last, hfront⟩ := List.eq_nil_or_concat' before |>.resolve_left (List.ne_nil_of_mem hbefore)
        have hlast : t.bandPriority = some last.priority := by
          rw [h.priority, hfront, List.getLast?_concat]
          rfl
        have hne : last.priority ≠ tier.priority := fun e => hsame (hlast.trans (congrArg some e))
        have hlastMem : last ∈ before := by
          rw [hfront]
          exact List.mem_append_right _ (List.mem_singleton_self last)
        have hlt : tier.priority < last.priority := by
          rcases hcross last hlastMem tier List.mem_cons_self with hlt | ⟨heq, -⟩
          · exact hlt
          · exact absurd heq hne
        have hle : last.priority ≤ other.priority := by
          rw [hfront] at hbefore hsorted
          rcases List.mem_append.mp hbefore with hin | hin
          · obtain ⟨hpair, -, -⟩ := List.pairwise_append.mp hsorted
            obtain ⟨-, -, hcross'⟩ := List.pairwise_append.mp hpair
            rcases hcross' other hin last (List.mem_singleton_self last) with hlt' | ⟨heq, -⟩
            · exact le_of_lt hlt'
            · exact le_of_eq heq.symm
          · rw [List.mem_singleton.mp hin]
        omega
      · rw [List.mem_singleton.mp hself]
  · intro p hp
    rw [bandPriority_after, Option.some.injEq] at hp
    rw [bandMax_after]
    by_cases hsame : t.bandPriority = some tier.priority
    · rw [if_pos hsame]
      obtain ⟨first, hfirst, hpriority, hvalue⟩ := h.attained tier.priority hsame
      exact ⟨first, List.mem_append_left _ hfirst, hpriority.trans hp, hvalue⟩
    · rw [if_neg hsame]
      exact ⟨tier, List.mem_append_right _ (List.mem_singleton_self tier), hp, rfl⟩

theorem bandMax_le_one_iff {before : List CompiledTier} (h : InBand before t)
    (hsorted : (before ++ tier :: later).Pairwise ByBand) : (t.after hitsOf tier).bandMax = 1 ↔
      ∀ other ∈ before ++ tier :: later, other.priority = tier.priority → other.value ≤ 1 := by
  have hafter : InBand (before ++ [tier]) (t.after hitsOf tier) := h.after hsorted
  obtain ⟨first, hfirst, hpriority, hvalue⟩ := hafter.attained tier.priority bandPriority_after
  have hmem : first ∈ before ++ tier :: later := by
    rw [List.append_cons]
    exact List.mem_append_left _ hfirst
  constructor
  · intro hone other hother hp
    rw [List.append_cons] at hother hsorted
    rcases List.mem_append.mp hother with hin | hlater
    · have hle := hafter.bounded other hin (bandPriority_after.trans (congrArg some hp.symm))
      exact hone ▸ hle
    · obtain ⟨-, -, hcross⟩ := List.pairwise_append.mp hsorted
      rcases hcross first hfirst other hlater with hlt | ⟨-, hle⟩
      · omega
      · omega
  · intro hall
    have hle := hall first hmem hpriority
    have hpos := first.value_range.1
    omega

/-! ## The verdict -/

/-- `Overtaken` from some tier on, within the pack `all`. -/
def OvertakenFrom (hitsOf : CompiledTier → List EvidenceHit) (all later : List CompiledTier) : Prop :=
  ∃ before tier after, later = before ++ tier :: after ∧ WeakBandDone hitsOf all tier ∧
    (∀ other ∈ before, ¬ Decisive hitsOf other) ∧ ∃ other ∈ after, Decisive hitsOf other

theorem overtakenFrom_cons {all : List CompiledTier} : OvertakenFrom hitsOf all (tier :: later) ↔
    (WeakBandDone hitsOf all tier ∧ ∃ other ∈ later, Decisive hitsOf other) ∨
      (¬ Decisive hitsOf tier ∧ OvertakenFrom hitsOf all later) := by
  constructor
  · intro h
    obtain ⟨before, mid, after, heq, hweak, hbefore, hafter⟩ := h
    cases before with
    | nil =>
      obtain ⟨rfl, rfl⟩ := List.cons.inj heq
      exact Or.inl ⟨hweak, hafter⟩
    | cons first before =>
      obtain ⟨rfl, rfl⟩ := List.cons.inj heq
      exact Or.inr ⟨hbefore _ List.mem_cons_self,
        before, mid, after, rfl, hweak, fun o ho => hbefore o (List.mem_cons_of_mem _ ho), hafter⟩
  · intro h
    rcases h with ⟨hweak, hafter⟩ | ⟨hnot, before, mid, after, rfl, hweak, hbefore, hafter⟩
    · exact ⟨[], tier, later, rfl, hweak, fun o ho => absurd ho List.not_mem_nil, hafter⟩
    · refine ⟨tier :: before, mid, after, rfl, hweak, ?_, hafter⟩
      intro o ho
      rcases List.mem_cons.mp ho with rfl | ho
      · exact hnot
      · exact hbefore o ho

theorem exists_decisive_iff :
    (2 ≤ primaryValue hitsOf later ∨ 1 ≤ satisfiedSupports hitsOf later) ↔ ∃ other ∈ later, Decisive hitsOf other := by
  induction later with
  | nil => simp [primaryValue, satisfiedSupports]
  | cons other later ih =>
    rw [primaryValue_cons, satisfiedSupports_cons, List.exists_mem_cons_iff, ← ih, Decisive]
    by_cases hsat : Satisfied hitsOf other
    · cases hs : other.support with
      | true =>
        simp only [hsat, true_and, if_true, Bool.true_eq_false, if_false, true_or, iff_true]
        omega
      | false =>
        simp only [hsat, true_and, if_true, Bool.false_eq_true, if_false, false_or, Nat.zero_add]
        omega
    · simp only [hsat, false_and, if_false, Nat.zero_add, false_or]

theorem two_le_fullFrom_iff (hscore : t.score = 1) (hsupport : t.supportScore = 0) :
    2 ≤ fullFrom hitsOf t later ↔ ∃ other ∈ later, Decisive hitsOf other := by
  have hmax : max 1 (primaryValue hitsOf later) ≠ 0 := by omega
  rw [← exists_decisive_iff]
  unfold fullFrom
  rw [hscore, hsupport]
  dsimp only
  rw [if_neg (fun h => hmax h.1)]
  omega

theorem classification_of_total_le {n m : Nat} (hn : n = 1) (hm : 1 ≤ m) :
    classificationOf n = classificationOf m ↔ ¬ 2 ≤ m := by
  rw [hn]
  unfold classificationOf
  by_cases h2 : 2 ≤ m
  · simp [h2]
  · have h1 : m = 1 := by omega
    simp [h1]

theorem classification_iff {all before : List CompiledTier} (hall : all = before ++ later)
    (hsorted : all.Pairwise ByBand) (hband : InBand before t) (hscore : t.score ≤ 1) (hsupport : t.supportScore = 0) :
    classificationOf (scoreTiers hitsOf t later).total = classificationOf (fullFrom hitsOf t later) ↔
      ¬ OvertakenFrom hitsOf all later := by
  induction later generalizing t before with
  | nil =>
    have hnot : ¬ OvertakenFrom hitsOf all [] := by
      rintro ⟨pre, mid, post, heq, -⟩
      exact absurd heq.symm (List.append_ne_nil_of_right_ne_nil pre (List.cons_ne_nil mid post))
    rw [fullFrom_nil, scoreTiers]
    exact ⟨fun _ => hnot, fun _ => rfl⟩
  | cons tier later ih =>
    rw [hall] at hsorted
    have hone := @bandMax_le_one_iff hitsOf t tier later before hband hsorted
    rw [← hall] at hone hsorted
    have hnext : InBand (before ++ [tier]) (t.after hitsOf tier) := hband.after (hall ▸ hsorted)
    have hall' : all = (before ++ [tier]) ++ later := by rw [hall, List.append_cons]
    rw [fullFrom_cons, overtakenFrom_cons]
    by_cases hdecisive : Decisive hitsOf tier
    · -- two points from here on, with or without the exits
      have hnot : ¬ ((WeakBandDone hitsOf all tier ∧ ∃ other ∈ later, Decisive hitsOf other) ∨
          (¬ Decisive hitsOf tier ∧ OvertakenFrom hitsOf all later)) := by
        rintro (⟨⟨-, hprimary, hweak⟩, -⟩ | ⟨hnd, -⟩)
        · have hself := hweak tier (hall ▸ List.mem_append_right _ List.mem_cons_self) rfl
          rcases hdecisive.2 with hs | hv
          · rw [hprimary] at hs
            exact absurd hs (by decide)
          · omega
        · exact hnd hdecisive
      refine ⟨fun _ => hnot, fun _ => ?_⟩
      rw [← fullFrom_cons]
      obtain ⟨hsat, hs | hv⟩ := hdecisive
      · have hsup : 1 ≤ (t.after hitsOf tier).supportScore := by
          rw [supportScore_after, if_pos ⟨hsat, hs⟩]
          omega
        rw [total_scoreTiers_cons, fullFrom_cons]
        split
        · rename_i hexit
          rcases hexit with ⟨-, hprimary, -⟩ | ⟨htwo, -⟩
          · rw [hprimary] at hs
            exact absurd hs (by decide)
          · exact classificationOf_of_two_le (two_le_total (by omega)) (two_le_fullFrom (by omega))
        · exact classification_of_support hsup
      · have hprimary : tier.support = false := by
          cases hs : tier.support with
          | false => rfl
          | true =>
            rw [tier.value_of_support hs] at hv
            omega
        have htwo : 2 ≤ (t.after hitsOf tier).score := by
          rw [score_after, if_pos ⟨hsat, hprimary⟩]
          exact le_max_of_le_right hv
        rw [total_scoreTiers_cons, fullFrom_cons]
        have hfull : 2 ≤ fullFrom hitsOf (t.after hitsOf tier) later := two_le_fullFrom (by omega)
        split
        · exact classificationOf_of_two_le (two_le_total (by omega)) hfull
        · exact classificationOf_of_two_le (total_scoreTiers_ge (by omega)) hfull
    · have hsupport' : (t.after hitsOf tier).supportScore = 0 := by
        rw [supportScore_after, hsupport, if_neg fun h => hdecisive ⟨h.1, Or.inl h.2⟩]
      have hscore' : (t.after hitsOf tier).score ≤ 1 := by
        rw [score_after]
        split
        · rename_i h
          have hv : ¬ 2 ≤ tier.value := fun hv => hdecisive ⟨h.1, Or.inr hv⟩
          exact max_le hscore (by omega)
        · exact hscore
      rw [total_scoreTiers_cons]
      by_cases hexit : Satisfied hitsOf tier ∧ tier.support = false ∧
          (t.after hitsOf tier).score = (t.after hitsOf tier).bandMax
      · obtain ⟨hsat, hprimary, hmax⟩ := hexit
        have hpoint : (t.after hitsOf tier).score = 1 := by
          have hpos : 1 ≤ (t.after hitsOf tier).score := by
            rw [score_after, if_pos ⟨hsat, hprimary⟩]
            exact le_max_of_le_right tier.value_range.1
          omega
        have hweak : WeakBandDone hitsOf all tier := ⟨hsat, hprimary, hone.mp (hmax.symm.trans hpoint)⟩
        have htotal : (t.after hitsOf tier).total = 1 := by
          rw [Tally.total, hpoint, hsupport']
          rfl
        have hfull : 1 ≤ fullFrom hitsOf (t.after hitsOf tier) later := by
          unfold fullFrom
          dsimp only
          split <;> omega
        rw [if_pos (Or.inl ⟨hsat, hprimary, hmax⟩), classification_of_total_le htotal hfull,
          two_le_fullFrom_iff hpoint hsupport']
        apply not_congr
        constructor
        · intro h
          exact Or.inl ⟨hweak, h⟩
        · intro h
          rcases h with ⟨-, h⟩ | ⟨-, pre, mid, post, rfl, -, -, other, hother, hd⟩
          · exact h
          · exact ⟨other, List.mem_append_right _ (List.mem_cons_of_mem _ hother), hd⟩
      · have hstay : ¬ ((Satisfied hitsOf tier ∧ tier.support = false ∧
            (t.after hitsOf tier).score = (t.after hitsOf tier).bandMax) ∨
            (2 ≤ (t.after hitsOf tier).score ∧ ∀ lower ∈ later, lower.value ≤ (t.after hitsOf tier).score)) := by
          rintro (h | h)
          · exact hexit h
          · omega
        have hnotWeak : ¬ WeakBandDone hitsOf all tier := by
          rintro ⟨hsat, hprimary, hweak⟩
          apply hexit
          refine ⟨hsat, hprimary, ?_⟩
          have hmax := hone.mpr hweak
          have hpos : 1 ≤ (t.after hitsOf tier).score := by
            rw [score_after, if_pos ⟨hsat, hprimary⟩]
            exact le_max_of_le_right tier.value_range.1
          omega
        rw [if_neg hstay, ih hall' hnext hscore' hsupport']
        apply not_congr
        constructor
        · intro h
          exact Or.inr ⟨hdecisive, h⟩
        · intro h
          rcases h with ⟨hweak, -⟩ | ⟨-, h⟩
          · exact absurd hweak hnotWeak
          · exact h

/-- **The early exits leave the classification alone exactly when the unit is behind a gate, or
no weak band is done before the first decisive tier while there is one.** -/
theorem scoreTokens_full_iff (u : LetterCase) (tokens : List Token) (compiled : CompiledEvidencePack)
    (context : EvidenceContext) :
    (scoreTokens u tokens compiled context).classification = fullClassification u tokens compiled context ↔
      (context.eligible = false ∨ (tokens.length : Int) < context.minWords) ∨
        ¬ Overtaken (tierHits u compiled.automaton tokens) compiled.tiers := by
  unfold scoreTokens fullClassification
  by_cases helig : context.eligible = false
  · rw [if_pos helig, if_pos (Or.inl helig)]
    exact ⟨fun _ => Or.inl (Or.inl helig), fun _ => rfl⟩
  · rw [if_neg helig]
    by_cases hwords : (tokens.length : Int) < context.minWords
    · rw [if_pos hwords, if_pos (Or.inr hwords)]
      exact ⟨fun _ => Or.inl (Or.inr hwords), fun _ => rfl⟩
    · rw [if_neg hwords, if_neg (not_or_intro helig hwords)]
      have hiff := @classification_iff (tierHits u compiled.automaton tokens) .start compiled.tiers compiled.tiers []
        (List.nil_append compiled.tiers).symm compiled.sorted inBand_start (Nat.zero_le 1) rfl
      rw [fullFrom_start] at hiff
      by_cases hnil : compiled.tiers = []
      · rw [if_pos hnil]
        rw [hnil] at hiff ⊢
        have hzero : fullScore (tierHits u compiled.automaton tokens) [] = 0 := by
          simp [fullScore, primaryValue, satisfiedSupports]
        rw [hzero]
        refine ⟨fun _ => Or.inr (hiff.mp ?_), fun _ => rfl⟩
        rw [hzero, scoreTiers]
        rfl
      · rw [if_neg hnil]
        refine hiff.trans ?_
        constructor
        · intro h
          exact Or.inr h
        · intro h
          exact h.resolve_left (not_or_intro helig hwords)

def weakTier : EvidenceTier where
  name := "weak"
  priority := 20
  value := 1
  matchKind := .unigram
  minDistinctHits := 1
  caseMode := .fold
  support := false
  value_range := by decide
  value_of_support := by decide
  minDistinctHits_pos := by decide
  terms := ["provides".toList]

def strongTier : EvidenceTier where
  name := "strong"
  priority := 10
  value := 3
  matchKind := .unigram
  minDistinctHits := 1
  caseMode := .fold
  support := false
  value_range := by decide
  value_of_support := by decide
  minDistinctHits_pos := by decide
  terms := ["founded".toList]

def exitShows : Bool :=
  match compileEvidencePack asciiCase ⟨"body", [weakTier, strongTier], []⟩ with
  | .ok compiled =>
    let tokens := tokenize asciiCase "provides founded".toList
    decide ((scoreTokens asciiCase tokens compiled { minWords := 1 }).classification ≠
      fullClassification asciiCase tokens compiled { minWords := 1 })
  | .error _ => false

/-- The weak tier fills its band and the loop is left before the strong tier. -/
theorem weak_band_hides_strong_tier : ¬ ∀ (u : LetterCase) (pack : LexicalEvidencePack)
    (compiled : CompiledEvidencePack) (tokens : List Token) (context : EvidenceContext),
    compileEvidencePack u pack = .ok compiled →
      (scoreTokens u tokens compiled context).classification = fullClassification u tokens compiled context := by
  intro h
  have hshows : exitShows = true := by decide +kernel
  unfold exitShows at hshows
  cases hcompile : compileEvidencePack asciiCase ⟨"body", [weakTier, strongTier], []⟩ with
  | error e =>
    rw [hcompile] at hshows
    exact absurd hshows Bool.false_ne_true
  | ok compiled =>
    rw [hcompile] at hshows
    exact of_decide_eq_true hshows (h asciiCase _ compiled _ _ hcompile)

end EdgarSec.Lexical
