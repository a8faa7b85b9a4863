import EdgarSec.DocumentPlanning.CatalogScope

/-! The loop over the rows of a scope: the groups that it has collected after any rows, and when a row is not taken. -/

namespace EdgarSec.DocumentPlanning.CatalogScope
open Foundation Lib

/-! ## Rows of one accession -/

structure Compatible (r s : ScopeRow) : Prop where
  forms : stripped r.form = stripped s.form
  filingDates : ∀ d e, strippedDate r.filingDate = some d → strippedDate s.filingDate = some e → d = e
  reportDates : ∀ d e, strippedDate r.reportDate = some d → strippedDate s.reportDate = some e → d = e
  occurrences : ∀ o p, occurrenceOf r = .ok o → occurrenceOf s = .ok p → o.occurrenceId = p.occurrenceId → o = p

structure Consistent (stretch : List ScopeRow) : Prop where
  identified : ∀ r ∈ stretch, ∃ o, occurrenceOf r = .ok o
  compatible : ∀ r ∈ stretch, ∀ s ∈ stretch, Compatible r s

theorem Consistent.of_subset {stretch part : List ScopeRow} (h : Consistent stretch) (hp : part ⊆ stretch) : Consistent part :=
  ⟨fun r hr => h.identified r (hp hr), fun r hr s hs => h.compatible r (hp hr) s (hp hs)⟩

structure Collected (stretch : List ScopeRow) (group : Group) : Prop where
  nonempty : stretch ≠ []
  accession : ∀ r ∈ stretch, normalized r = group.accession
  form : ∀ r ∈ stretch, stripped r.form = group.form
  filingDate : ∀ d, group.filingDate = some d ↔ ∃ r ∈ stretch, strippedDate r.filingDate = some d
  reportDate : ∀ d, group.reportDate = some d ↔ ∃ r ∈ stretch, strippedDate r.reportDate = some d
  identified : ∀ r ∈ stretch, ∃ o, occurrenceOf r = .ok o
  keyed : ∀ id o, group.occurrences.get? id = some o → o.occurrenceId = id
  occurrences : ∀ o, group.occurrences.get? o.occurrenceId = some o ↔ ∃ r ∈ stretch, occurrenceOf r = .ok o

theorem Collected.consistent {stretch : List ScopeRow} {group : Group} (h : Collected stretch group) : Consistent stretch := by
  refine ⟨h.identified, fun r hr s hs => ?_⟩
  have sameDate : ∀ (held : Option Chars) (d e : Chars), held = some d → held = some e → d = e := by
    intro held d e hd he
    exact Option.some.inj (hd.symm.trans he)
  refine ⟨(h.form r hr).trans (h.form s hs).symm, fun d e hd he => ?_, fun d e hd he => ?_, fun o p ho hp hid => ?_⟩
  · exact sameDate _ d e (Iff.mpr (h.filingDate d) ⟨r, hr, hd⟩) (Iff.mpr (h.filingDate e) ⟨s, hs, he⟩)
  · exact sameDate _ d e (Iff.mpr (h.reportDate d) ⟨r, hr, hd⟩) (Iff.mpr (h.reportDate e) ⟨s, hs, he⟩)
  · have hro := Iff.mpr (h.occurrences o) ⟨r, hr, ho⟩
    have hsp := Iff.mpr (h.occurrences p) ⟨s, hs, hp⟩
    rw [hid] at hro
    exact Option.some.inj (hro.symm.trans hsp)

theorem clash_eq_false_iff (a b : Option Chars) : clash a b = false ↔ ∀ d e, a = some d → b = some e → d = e := by
  cases a <;> cases b <;> simp [clash]

theorem addRow_ok_iff (group group' : Group) (row : ScopeRow) :
    addRow group row = .ok group' ↔
      group.form = stripped row.form ∧ clash group.filingDate (strippedDate row.filingDate) = false ∧
      clash group.reportDate (strippedDate row.reportDate) = false ∧
      ∃ occurrence, occurrenceOf row = .ok occurrence ∧
        (∀ previous, group.occurrences.get? occurrence.occurrenceId = some previous → previous = occurrence) ∧
        group' = { group with
          filingDate := group.filingDate.or (strippedDate row.filingDate)
          reportDate := group.reportDate.or (strippedDate row.reportDate)
          occurrences := group.occurrences.set occurrence.occurrenceId occurrence } := by
  unfold addRow
  by_cases hform : group.form = stripped row.form
  swap
  · simp [hform, throw, throwThe, MonadExceptOf.throw, bind, Except.bind]
  cases hfiling : clash group.filingDate (strippedDate row.filingDate)
  swap
  · simp [hform, hfiling, throw, throwThe, MonadExceptOf.throw, bind, Except.bind]
  cases hreport : clash group.reportDate (strippedDate row.reportDate)
  swap
  · simp [hform, hfiling, hreport, throw, throwThe, MonadExceptOf.throw, bind, Except.bind]
  cases hocc : occurrenceOf row with
  | error e => simp [hform, hfiling, hreport, bind, Except.bind]
  | ok occurrence =>
    cases hprev : group.occurrences.get? occurrence.occurrenceId with
    | none => simp [hform, hfiling, hreport, hprev, bind, Except.bind, pure, Except.pure, eq_comm]
    | some previous =>
      by_cases heq : previous = occurrence
      · simp [hform, hfiling, hreport, hprev, heq, bind, Except.bind, pure, Except.pure, eq_comm]
      · simp [hform, hfiling, hreport, hprev, heq, throw, throwThe, MonadExceptOf.throw, bind, Except.bind]

theorem or_eq_some_of_clash {held read : Option Chars} (h : clash held read = false) (d : Chars) :
    held.or read = some d ↔ held = some d ∨ read = some d := by
  rw [clash_eq_false_iff] at h
  cases held with
  | none => simp
  | some e =>
    have hd : read = some d → e = d := h e d rfl
    simpa using hd

theorem collected_addRow {stretch : List ScopeRow} {group group' : Group} {row : ScopeRow} (h : Collected stretch group)
    (hrow : normalized row = group.accession) (hadd : addRow group row = .ok group') : Collected (stretch ++ [row]) group' := by
  obtain ⟨hform, hfiling, hreport, occurrence, hocc, hprev, rfl⟩ := Iff.mp (addRow_ok_iff _ _ _) hadd
  refine ⟨by simp, ?_, ?_, ?_, ?_, ?_, ?_, ?_⟩
  · simpa [or_imp, forall_and] using ⟨h.accession, hrow⟩
  · simpa [or_imp, forall_and] using ⟨h.form, hform.symm⟩
  · intro d
    show group.filingDate.or _ = some d ↔ _
    rw [or_eq_some_of_clash hfiling, h.filingDate]
    simp [or_and_right, exists_or]
  · intro d
    show group.reportDate.or _ = some d ↔ _
    rw [or_eq_some_of_clash hreport, h.reportDate]
    simp [or_and_right, exists_or]
  · simpa [or_imp, forall_and] using ⟨h.identified, occurrence, hocc⟩
  · intro id o ho
    rw [Dict.get?_set] at ho
    split at ho
    · simp_all
    · exact h.keyed id o ho
  · intro o
    have hlast : occurrenceOf row = .ok o ↔ o = occurrence := by simp [hocc, eq_comm]
    have hold := h.occurrences o
    simp only [List.mem_append, List.mem_singleton, or_and_right, exists_or, exists_eq_left, hlast, ← hold, Dict.get?_set]
    split
    case isTrue hid =>
      refine ⟨fun he => .inr (Option.some.inj he).symm, fun he => ?_⟩
      rcases he with he | he
      · rw [hid] at he
        rw [hprev o he]
      · rw [he]
    case isFalse hid =>
      refine ⟨.inl, fun he => he.resolve_right fun heq => hid ?_⟩
      rw [heq]

theorem addRow_of_consistent {stretch : List ScopeRow} {group : Group} {row : ScopeRow} (h : Collected stretch group)
    (hc : Consistent (stretch ++ [row])) : ∃ group', addRow group row = .ok group' := by
  obtain ⟨occurrence, hocc⟩ := hc.identified row (by simp)
  have hcompat : ∀ r ∈ stretch, Compatible r row := fun r hr => hc.compatible r (by simp [hr]) row (by simp)
  refine ⟨_, Iff.mpr (addRow_ok_iff _ _ _) ⟨?_, ?_, ?_, occurrence, hocc, ?_, rfl⟩⟩
  · obtain ⟨r, hr⟩ := List.exists_mem_of_ne_nil _ h.nonempty
    rw [← h.form r hr, (hcompat r hr).forms]
  · rw [clash_eq_false_iff]
    intro d e hd he
    obtain ⟨r, hr, hrd⟩ := Iff.mp (h.filingDate d) hd
    exact (hcompat r hr).filingDates d e hrd he
  · rw [clash_eq_false_iff]
    intro d e hd he
    obtain ⟨r, hr, hrd⟩ := Iff.mp (h.reportDate d) hd
    exact (hcompat r hr).reportDates d e hrd he
  · intro previous hprev
    have hid := h.keyed _ _ hprev
    rw [← hid] at hprev
    obtain ⟨r, hr, hro⟩ := Iff.mp (h.occurrences previous) hprev
    exact (hcompat r hr).occurrences _ _ hro hocc hid

theorem collected_newGroup {group' : Group} {row : ScopeRow} (hadd : addRow (newGroup row) row = .ok group') :
    Collected [row] group' := by
  obtain ⟨-, hfiling, hreport, occurrence, hocc, -, rfl⟩ := Iff.mp (addRow_ok_iff _ _ _) hadd
  refine ⟨by simp, ?_, ?_, ?_, ?_, ?_, ?_, ?_⟩
  · simp [newGroup]
  · simp [newGroup]
  · intro d
    show Option.or _ _ = some d ↔ _
    rw [or_eq_some_of_clash hfiling]
    simp [newGroup]
  · intro d
    show Option.or _ _ = some d ↔ _
    rw [or_eq_some_of_clash hreport]
    simp [newGroup]
  · simp [hocc]
  · intro id o ho
    rw [Dict.get?_set] at ho
    split at ho
    · simp_all
    · exact absurd ho (by simp [newGroup, Dict.get?, Dict.empty])
  · intro o
    rw [Dict.get?_set]
    split
    case isTrue hid => simp [hocc, eq_comm]
    case isFalse hid =>
      have hne : occurrence ≠ o := fun heq => hid (by rw [heq])
      simp [hocc, hne, newGroup, Dict.get?, Dict.empty]

theorem addRow_newGroup {row : ScopeRow} {occurrence : CatalogOccurrence} (h : occurrenceOf row = .ok occurrence) :
    ∃ group', addRow (newGroup row) row = .ok group' := by
  refine ⟨_, Iff.mpr (addRow_ok_iff _ _ _) ⟨rfl, ?_, ?_, occurrence, h, ?_, rfl⟩⟩
  · rw [clash_eq_false_iff]
    intro d e hd he
    exact Option.some.inj (hd.symm.trans he)
  · rw [clash_eq_false_iff]
    intro d e hd he
    exact Option.some.inj (hd.symm.trans he)
  · intro previous hprev
    simp [newGroup, Dict.get?, Dict.empty] at hprev

/-! ## The loop -/

abbrev Groups := List (List ScopeRow × Group)

def stateOf (groups : Groups) : LoopState := ⟨groups.dropLast.map fun p => p.2.finish, groups.getLast?.map Prod.snd⟩

theorem finish_stateOf (groups : Groups) : (stateOf groups).finish = groups.map fun p => p.2.finish := by
  rcases List.eq_nil_or_concat' groups with rfl | ⟨front, last, rfl⟩
  · rfl
  · simp [stateOf, LoopState.finish]

structure Reached (rows : List ScopeRow) (groups : Groups) : Prop where
  rows : (groups.map Prod.fst).flatten = rows
  collected : ∀ p ∈ groups, Collected p.1 p.2
  chain : groups.IsChain fun p q => p.2.accession ≠ q.2.accession

theorem Reached.start : Reached [] [] := ⟨rfl, by simp, .nil⟩

structure TakenInto (row : ScopeRow) (groups groups' : Groups) : Prop where
  last : ∃ front m g, groups' = front ++ [(m, g)] ∧ row ∈ m ∧
    ∀ (before : Groups) (n : List ScopeRow) (k : Group), groups = before ++ [(n, k)] → k.accession = normalized row → n ⊆ m

theorem concat_inj {front before : Groups} {p q : List ScopeRow × Group} (h : front ++ [p] = before ++ [q]) : p = q := by
  have hlast := congrArg List.getLast? h
  simpa using hlast

variable {parts : List CatalogPart}

theorem takeRow_ok {rows : List ScopeRow} {groups : Groups} {row : ScopeRow} {state : LoopState} (h : Reached rows groups)
    (hok : takeRow parts (stateOf groups) row = .ok state) :
    checkRow parts row = .ok () ∧ ∃ groups', state = stateOf groups' ∧ Reached (rows ++ [row]) groups' ∧ TakenInto row groups groups' := by
  unfold takeRow at hok
  cases hcheck : checkRow parts row with
  | error e => simp [hcheck, bind, Except.bind] at hok
  | ok u =>
  refine ⟨rfl, ?_⟩
  rcases List.eq_nil_or_concat' groups with rfl | ⟨front, ⟨stretch, group⟩, rfl⟩
  · -- the first row of all
    cases hadd : addRow (newGroup row) row with
    | error e => simp [stateOf, hcheck, hadd, bind, Except.bind] at hok
    | ok group' =>
      have hstate : stateOf [([row], group')] = state := by
        simpa [stateOf, hcheck, hadd, bind, Except.bind, pure, Except.pure] using hok
      have hrows := h.rows
      refine ⟨_, hstate.symm, ⟨?_, ?_, .singleton _⟩, ⟨[], [row], group', rfl, by simp, by simp⟩⟩
      · simpa using hrows
      · simpa using collected_newGroup hadd
  · have hcoll : Collected stretch group := h.collected (stretch, group) (by simp)
    have hrows := h.rows
    by_cases hacc : group.accession = normalized row
    · -- the row goes into the last group
      cases hadd : addRow group row with
      | error e => simp [stateOf, hcheck, hadd, hacc, bind, Except.bind] at hok
      | ok group' =>
        have hstate : stateOf (front ++ [(stretch ++ [row], group')]) = state := by
          simpa [stateOf, hcheck, hadd, hacc, bind, Except.bind, pure, Except.pure] using hok
        have hnew := collected_addRow hcoll hacc.symm hadd
        have hsame : group'.accession = group.accession := by
          rw [← hnew.accession row (by simp), hacc]
        refine ⟨_, hstate.symm, ⟨?_, ?_, ?_⟩, ⟨front, _, _, rfl, by simp, ?_⟩⟩
        · rw [List.map_append, List.flatten_append] at hrows ⊢
          rw [← hrows]
          simp
        · intro p hp
          rcases List.mem_append.mp hp with hp | hp
          · exact h.collected p (by simp [hp])
          · rw [List.mem_singleton.mp hp]
            exact hnew
        · have hchain := h.chain
          simp only [List.isChain_append, List.head?_cons, Option.mem_def, Option.some.injEq] at hchain ⊢
          refine ⟨hchain.1, .singleton _, fun p hp q hq => ?_⟩
          rw [← hq, show (stretch ++ [row], group').2.accession = group.accession from hsame]
          exact hchain.2.2 p hp _ rfl
        · intro before n k heq _ r hr
          rw [← (Prod.mk.inj (concat_inj heq)).1] at hr
          simp [hr]
    · -- the row begins a group
      cases hadd : addRow (newGroup row) row with
      | error e => simp [stateOf, hcheck, hadd, hacc, bind, Except.bind] at hok
      | ok group' =>
        have hstate : stateOf (front ++ [(stretch, group)] ++ [([row], group')]) = state := by
          simpa [stateOf, hcheck, hadd, hacc, bind, Except.bind, pure, Except.pure] using hok
        have hnew := collected_newGroup hadd
        refine ⟨_, hstate.symm, ⟨?_, ?_, ?_⟩, ⟨_, _, _, rfl, by simp, ?_⟩⟩
        · rw [List.map_append, List.flatten_append, hrows]
          simp
        · intro p hp
          rcases List.mem_append.mp hp with hp | hp
          · exact h.collected p hp
          · rw [List.mem_singleton.mp hp]
            exact hnew
        · rw [List.isChain_append]
          refine ⟨h.chain, .singleton _, fun p hp q hq => ?_⟩
          have hp' : (stretch, group) = p := by simpa using hp
          have hq' : ([row], group') = q := by simpa using hq
          rw [← hp', ← hq']
          show group.accession ≠ group'.accession
          rw [← hnew.accession row (by simp)]
          exact hacc
        · intro before n k heq hk
          have hgroup : group = k := (Prod.mk.inj (concat_inj heq)).2
          exact absurd (hgroup ▸ hk) hacc

def Conflict (rows : List ScopeRow) : Prop :=
  ∃ before stretch after, rows = before ++ stretch ++ after ∧
    (∀ r ∈ stretch, ∀ s ∈ stretch, normalized r = normalized s) ∧ ¬ Consistent stretch

theorem takeRow_error {rows : List ScopeRow} {groups : Groups} {row : ScopeRow} {e : String} (h : Reached rows groups)
    (herr : takeRow parts (stateOf groups) row = .error e) : checkRow parts row ≠ .ok () ∨ Conflict (rows ++ [row]) := by
  refine or_iff_not_imp_left.mpr fun hcheck => ?_
  have hcheck : checkRow parts row = .ok () := Classical.not_not.mp hcheck
  unfold takeRow at herr
  have alone : ∀ e', addRow (newGroup row) row = .error e' → Conflict (rows ++ [row]) := by
    intro e' hadd
    refine ⟨rows, [row], [], by simp, by simp, fun hc => ?_⟩
    obtain ⟨o, ho⟩ := hc.identified row (by simp)
    obtain ⟨group', hok⟩ := addRow_newGroup ho
    rw [hok] at hadd
    cases hadd
  cases hnew : addRow (newGroup row) row with
  | error e' => exact alone e' hnew
  | ok group' =>
  rcases List.eq_nil_or_concat' groups with rfl | ⟨front, ⟨stretch, group⟩, rfl⟩
  · simp [stateOf, hcheck, hnew, bind, Except.bind, pure, Except.pure] at herr
  · have hcoll : Collected stretch group := h.collected (stretch, group) (by simp)
    by_cases hacc : group.accession = normalized row
    · refine ⟨(front.map Prod.fst).flatten, stretch ++ [row], [], by simp [← h.rows], ?_, fun hc => ?_⟩
      · have hall : ∀ r ∈ stretch ++ [row], normalized r = group.accession := by
          simpa [or_imp, forall_and] using ⟨hcoll.accession, hacc.symm⟩
        intro r hr s hs
        rw [hall r hr, hall s hs]
      · obtain ⟨group'', hadd⟩ := addRow_of_consistent hcoll hc
        simp [stateOf, hcheck, hadd, hacc, bind, Except.bind, pure, Except.pure] at herr
    · simp [stateOf, hcheck, hnew, hacc, bind, Except.bind, pure, Except.pure] at herr

theorem Conflict.append {rows : List ScopeRow} (h : Conflict rows) (more : List ScopeRow) : Conflict (rows ++ more) := by
  obtain ⟨before, stretch, after, rfl, hsame, hc⟩ := h
  exact ⟨before, stretch, after ++ more, by simp, hsame, hc⟩

theorem takeRows_ok {rows more : List ScopeRow} {groups : Groups} {state : LoopState} (h : Reached rows groups)
    (hok : more.foldlM (takeRow parts) (stateOf groups) = .ok state) :
    (∀ r ∈ more, checkRow parts r = .ok ()) ∧ ∃ groups', state = stateOf groups' ∧ Reached (rows ++ more) groups' := by
  induction more generalizing rows groups with
  | nil =>
    refine ⟨by simp, groups, ?_, by simpa using h⟩
    simpa [pure, Except.pure, eq_comm] using hok
  | cons row more ih =>
    rw [List.foldlM_cons] at hok
    cases hrow : takeRow parts (stateOf groups) row with
    | error e => simp [hrow, bind, Except.bind] at hok
    | ok next =>
      obtain ⟨hcheck, groups₁, rfl, h₁, -⟩ := takeRow_ok h hrow
      obtain ⟨hchecks, groups', hstate, h'⟩ := ih h₁ (by simpa [hrow, bind, Except.bind] using hok)
      refine ⟨by simpa using ⟨hcheck, hchecks⟩, groups', hstate, by simpa using h'⟩

theorem takeRows_error {rows more : List ScopeRow} {groups : Groups} {e : String} (h : Reached rows groups)
    (herr : more.foldlM (takeRow parts) (stateOf groups) = .error e) :
    (∃ r ∈ more, checkRow parts r ≠ .ok ()) ∨ Conflict (rows ++ more) := by
  induction more generalizing rows groups with
  | nil => simp [pure, Except.pure] at herr
  | cons row more ih =>
    rw [List.foldlM_cons] at herr
    cases hrow : takeRow parts (stateOf groups) row with
    | error e' =>
      rcases takeRow_error h hrow with hcheck | hconf
      · exact .inl ⟨row, by simp, hcheck⟩
      · have := hconf.append more
        exact .inr (by simpa using this)
    | ok next =>
      obtain ⟨-, groups₁, rfl, h₁, -⟩ := takeRow_ok h hrow
      rcases ih h₁ (by simpa [hrow, bind, Except.bind] using herr) with ⟨r, hr, hcheck⟩ | hconf
      · exact .inl ⟨r, by simp [hr], hcheck⟩
      · exact .inr (by simpa using hconf)

theorem takeStretch_ok {rows stretch : List ScopeRow} {a : Chars} (hsame : ∀ r ∈ stretch, normalized r = a)
    {front : Groups} {m : List ScopeRow} {g : Group} (h : Reached rows (front ++ [(m, g)])) (hg : g.accession = a) {state : LoopState}
    (hok : stretch.foldlM (takeRow parts) (stateOf (front ++ [(m, g)])) = .ok state) :
    ∃ m' g', m ⊆ m' ∧ stretch ⊆ m' ∧ Collected m' g' := by
  induction stretch generalizing rows front m g with
  | nil => exact ⟨m, g, fun _ hr => hr, by simp, h.collected (m, g) (by simp)⟩
  | cons row more ih =>
    rw [List.foldlM_cons] at hok
    cases hrow : takeRow parts (stateOf (front ++ [(m, g)])) row with
    | error e => simp [hrow, bind, Except.bind] at hok
    | ok next =>
      obtain ⟨-, groups₁, rfl, h₁, ⟨front₁, m₁, g₁, rfl, hmem, hkeep⟩⟩ := takeRow_ok h hrow
      have hacc : normalized row = a := hsame row (by simp)
      have hm : m ⊆ m₁ := hkeep front m g rfl (by rw [hg, hacc])
      have hg₁ : g₁.accession = a := by
        rw [← (h₁.collected (m₁, g₁) (by simp)).accession row hmem, hacc]
      obtain ⟨m', g', hm', hmore, hcoll⟩ :=
        ih (fun r hr => hsame r (by simp [hr])) h₁ hg₁ (by simpa [hrow, bind, Except.bind] using hok)
      refine ⟨m', g', fun r hr => hm' (hm hr), ?_, hcoll⟩
      intro r hr
      rcases List.mem_cons.mp hr with rfl | hr
      · exact hm' hmem
      · exact hmore hr

theorem consistent_of_taken {rows before stretch after : List ScopeRow} (heq : rows = before ++ stretch ++ after)
    (hsame : ∀ r ∈ stretch, ∀ s ∈ stretch, normalized r = normalized s) {state : LoopState}
    (hok : rows.foldlM (takeRow parts) (stateOf []) = .ok state) : Consistent stretch := by
  cases stretch with
  | nil => exact ⟨by simp, by simp⟩
  | cons row more =>
  have hsplit : rows = before ++ (row :: (more ++ after)) := by simp [heq]
  rw [hsplit, List.foldlM_append] at hok
  cases hbefore : before.foldlM (takeRow parts) (stateOf []) with
  | error e => simp [hbefore, bind, Except.bind] at hok
  | ok mid =>
  obtain ⟨-, groups, rfl, hreached⟩ := takeRows_ok .start hbefore
  rw [hbefore] at hok
  change List.foldlM _ _ _ = _ at hok
  rw [List.foldlM_cons] at hok
  cases hrow : takeRow parts (stateOf groups) row with
  | error e => simp [hrow, bind, Except.bind] at hok
  | ok next =>
  obtain ⟨-, groups₁, rfl, h₁, ⟨front₁, m₁, g₁, rfl, hmem, -⟩⟩ := takeRow_ok hreached hrow
  rw [hrow] at hok
  change List.foldlM _ _ _ = _ at hok
  rw [List.foldlM_append] at hok
  cases hmore : more.foldlM (takeRow parts) (stateOf (front₁ ++ [(m₁, g₁)])) with
  | error e => simp [hmore, bind, Except.bind] at hok
  | ok later =>
  have hg₁ : g₁.accession = normalized row := ((h₁.collected (m₁, g₁) (by simp)).accession row hmem).symm
  obtain ⟨m', g', hm', hmore', hcoll⟩ :=
    takeStretch_ok (fun r hr => hsame r (by simp [hr]) row (by simp)) h₁ hg₁ hmore
  refine hcoll.consistent.of_subset ?_
  intro r hr
  rcases List.mem_cons.mp hr with rfl | hr
  · exact hm' hmem
  · exact hmore' hr

end EdgarSec.DocumentPlanning.CatalogScope
