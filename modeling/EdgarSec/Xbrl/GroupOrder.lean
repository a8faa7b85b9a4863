import EdgarSec.Xbrl.FinerGroups

/-! What the order of the facts changes: nothing in the tables, and of the finer groups only the
order in which they are merged. -/

namespace EdgarSec.Xbrl.CounterSolver
open Lib

/-! ## Tables -/

section Lists
variable {α : Type} [DecidableEq α] {l l' : List α}

theorem onlyValue_perm (h : l.Perm l') : onlyValue l = onlyValue l' := by
  have hdedup : l.dedup.Perm l'.dedup := h.dedup
  unfold onlyValue
  cases hl : l.dedup with
  | nil =>
    rw [hl] at hdedup
    rw [hdedup.nil_eq]
  | cons a more =>
    rw [hl] at hdedup
    cases more with
    | nil => rw [List.singleton_perm.mp hdedup]
    | cons b more =>
      have hlength := hdedup.length_eq
      cases hl' : l'.dedup with
      | nil => rfl
      | cons a' more' =>
        cases more' with
        | nil =>
          rw [hl'] at hlength
          simp at hlength
        | cons b' more' => rfl

theorem fromKeys_perm (h : l.Perm l') : (fromKeys l).Perm (fromKeys l') := by
  apply (List.perm_ext_iff_of_nodup (nodup_fromKeys l) (nodup_fromKeys l')).mpr
  intro a
  rw [mem_fromKeys, mem_fromKeys, h.mem_iff]

end Lists

section Facts
variable {fs fs' : List Figure}

theorem figures_perm {facts facts' : List (XbrlFact ℚ)} (h : facts.Perm facts') :
    (figures facts).Perm (figures facts') := h.filterMap figureOf

section Tables
variable (h : fs.Perm fs')
include h

theorem figuresAt_perm (qname : String) (context : ContextKey) :
    (figuresAt fs qname context).Perm (figuresAt fs' qname context) := h.filter _

theorem distinctKeys_perm : (distinctKeys fs).Perm (distinctKeys fs') := fromKeys_perm (h.map _)

theorem onlyFigure_perm : onlyFigure fs = onlyFigure fs' := by
  funext qname context
  apply onlyValue_perm
  exact (figuresAt_perm h qname context).map _

theorem values_perm : values fs = values fs' := by
  funext qname context
  have hempty : figuresAt fs qname context = [] ↔ figuresAt fs' qname context = [] := by
    rw [← List.length_eq_zero_iff, ← List.length_eq_zero_iff, (figuresAt_perm h qname context).length_eq]
  simp only [values, hempty, onlyFigure_perm h]

theorem finest_perm : finest fs = finest fs' := by
  funext qname context
  have hset := List.toFinset_eq_of_perm _ _ ((figuresAt_perm h qname context).map Figure.tolerance)
  rw [finest, finest, hset]

theorem qnameByLocal_perm : qnameByLocal fs = qnameByLocal fs' := by
  funext name context
  apply onlyValue_perm
  exact ((distinctKeys_perm h).filter _).map _

theorem finer_perm (coordinate : Coordinate) : (finer fs coordinate).Perm (finer fs' coordinate) := by
  have hentry : finerEntry fs coordinate = finerEntry fs' coordinate := by
    funext key
    rw [finerEntry, finerEntry, onlyFigure_perm h]
  rw [finer, hentry]
  exact (distinctKeys_perm h).filterMap _

theorem finerAmbiguous_perm : finerAmbiguous fs = finerAmbiguous fs' := by
  funext qname coordinate axes
  rw [finerAmbiguous, finerAmbiguous, onlyFigure_perm h]
  exact (distinctKeys_perm h).any_eq

theorem groupOf_perm {entries entries' : List FinerEntry} (hentries : entries.Perm entries')
    (axes : List String) : groupOf fs entries axes = groupOf fs' entries' axes := by
  have hmembers := hentries.filter fun e => e.context.axes = axes
  have htotal := (hmembers.map FinerEntry.value).sum_eq
  have hspread := (hmembers.map fun e => finest fs e.qname e.context).sum_eq
  have hkeys := List.toFinset_eq_of_perm _ _ (hmembers.map FinerEntry.key)
  rw [groupOf, groupOf, Group.mk.injEq]
  refine ⟨htotal, ?_, hkeys⟩
  rw [hspread, finest_perm h]

variable (concept : String) (context : ContextKey)

theorem finerEntries_perm : (finerEntries fs context).Perm (finerEntries fs' context) :=
  (finer_perm h context.coordinate).filter _

theorem finerQname_perm : finerQname fs concept context = finerQname fs' concept context := by
  have hentries := finerEntries_perm h context
  have hany := hentries.any_eq (f := fun e => decide (e.qname = concept))
  have hlocal := onlyValue_perm
    ((hentries.filter fun e => decide (qnameLocal e.qname = qnameLocal concept)).map FinerEntry.qname)
  rw [finerQname, finerQname, hany, hlocal]

theorem groupsOf_perm (qname : String) :
    (groupsOf fs context qname).Perm (groupsOf fs' context qname) := by
  have hentries : (entriesOf fs context qname).Perm (entriesOf fs' context qname) :=
    (finerEntries_perm h context).filter _
  have hgroup : groupOf fs (entriesOf fs context qname) = groupOf fs' (entriesOf fs' context qname) := by
    funext axes
    exact groupOf_perm h hentries axes
  rw [groupsOf, hgroup]
  exact (fromKeys_perm (hentries.map _)).map _

theorem finerGroups_perm :
    Option.Rel List.Perm (finerGroups fs concept context) (finerGroups fs' concept context) := by
  have hentries : ∀ qname, (entriesOf fs context qname).Perm (entriesOf fs' context qname) :=
    fun qname => (finerEntries_perm h context).filter _
  rw [finerGroups, finerGroups, finerQname_perm h]
  cases finerQname fs' concept context with
  | none => exact Option.Rel.none
  | some qname =>
    rw [Option.bind_some, Option.bind_some, (hentries qname).any_eq, finerAmbiguous_perm h]
    split_ifs
    · exact Option.Rel.none
    · exact Option.Rel.some (groupsOf_perm h context qname)

end Tables
end Facts

/-! ## Groups in every order -/

def AgreePairwise (groups : List Group) : Prop :=
  ∀ g ∈ groups, ∀ g' ∈ groups, |g'.total - g.total| ≤ g.spread + g'.spread

instance (groups : List Group) : Decidable (AgreePairwise groups) :=
  inferInstanceAs (Decidable (∀ g ∈ groups, ∀ g' ∈ groups, |g'.total - g.total| ≤ g.spread + g'.spread))

def spreadFrom (first : Group) (groups : List Group) : ℚ :=
  (groups.map fun g => g.spread + |g.total - first.total|).foldl max first.spread

def groupKeys (groups : List Group) : Finset SemanticKey := groups.toFinset.biUnion Group.keys

section Groups
variable {groups groups' : List Group}

theorem AgreePairwise.perm (h : groups.Perm groups') (hagree : AgreePairwise groups) : AgreePairwise groups' := by
  intro g hg g' hg'
  exact hagree g (h.mem_iff.mpr hg) g' (h.mem_iff.mpr hg')

theorem spreadFrom_perm (h : groups.Perm groups') (first : Group) :
    spreadFrom first groups = spreadFrom first groups' := by
  apply (h.map _).foldl_eq'
  intro x _ y _ z
  exact max_right_comm z x y

theorem groupKeys_perm (h : groups.Perm groups') : groupKeys groups = groupKeys groups' := by
  rw [groupKeys, groupKeys, List.toFinset_eq_of_perm _ _ h]

theorem agree_of_le {value spread least : ℚ} (hleast : least ≤ spread)
    (h : ∀ g ∈ groups, |g.total - value| ≤ least + g.spread) (consumed : Finset SemanticKey) :
    agree value spread consumed groups = some ⟨value, consumed ∪ groupKeys groups, true,
      (groups.map fun g => g.spread + |g.total - value|).foldl max spread⟩ := by
  induction groups generalizing spread consumed with
  | nil => simp [agree, groupKeys]
  | cons g groups ih =>
    have hg := h g List.mem_cons_self
    have haccepted : ¬ spread + g.spread < |g.total - value| := by linarith
    have hgrown : least ≤ max spread (g.spread + |g.total - value|) := le_max_of_le_left hleast
    have hrest := ih hgrown (fun g' hg' => h g' (List.mem_cons_of_mem g hg')) (consumed ∪ g.keys)
    have hkeys : groupKeys (g :: groups) = g.keys ∪ groupKeys groups := by
      rw [groupKeys, List.toFinset_cons, Finset.biUnion_insert, groupKeys]
    rw [agree, if_neg haccepted, hrest, hkeys, Finset.union_assoc, List.map_cons, List.foldl_cons]

theorem mergeGroups_of_agree {first : Group} {rest : List Group} (h : AgreePairwise (first :: rest)) :
    mergeGroups (first :: rest) =
      some ⟨first.total, groupKeys (first :: rest), true, spreadFrom first (first :: rest)⟩ := by
  have hagree := agree_of_le (le_refl first.spread) (h first List.mem_cons_self) ∅
  rw [mergeGroups, hagree, Finset.empty_union, spreadFrom]

theorem agree_second {value spread : ℚ} {consumed : Finset SemanticKey} {g : Group} {rest : List Group}
    (h : (agree value spread consumed (g :: rest)).isSome) : |g.total - value| ≤ spread + g.spread := by
  rw [agree] at h
  by_contra hlt
  rw [if_pos (not_le.mp hlt)] at h
  cases h

theorem agreePairwise_of_accepted (h : ∀ groups', groups'.Perm groups → (mergeGroups groups').isSome) :
    AgreePairwise groups := by
  intro g hg g' hg'
  by_cases heq : g' = g
  · have hnonneg := g.spread_nonneg
    rw [heq, sub_self, abs_zero]
    linarith
  -- The two come first in some order.
  have hfirst : groups.Perm (g :: groups.erase g) := List.perm_cons_erase hg
  have hsecond : (groups.erase g).Perm (g' :: (groups.erase g).erase g') := by
    apply List.perm_cons_erase
    exact (List.mem_erase_of_ne heq).mpr hg'
  have horder : (g :: g' :: (groups.erase g).erase g').Perm groups :=
    ((hsecond.symm.cons g).trans hfirst.symm)
  have haccepted := h _ horder
  have hself : ¬ g.spread + g.spread < |g.total - g.total| := by
    rw [sub_self, abs_zero]
    linarith [g.spread_nonneg]
  have hmax : max g.spread (g.spread + |g.total - g.total|) = g.spread := by
    rw [sub_self, abs_zero, add_zero, max_self]
  rw [mergeGroups, agree, if_neg hself, hmax] at haccepted
  exact agree_second haccepted

theorem accepted_in_every_order_iff : (∀ groups', groups'.Perm groups → (mergeGroups groups').isSome) ↔
    groups ≠ [] ∧ AgreePairwise groups := by
  constructor
  · intro h
    refine ⟨?_, agreePairwise_of_accepted h⟩
    rintro rfl
    exact absurd (h [] (List.Perm.refl _)) (by decide)
  · intro ⟨hne, hagree⟩ groups' hperm
    cases groups' with
    | nil => exact absurd hperm.symm.eq_nil hne
    | cons first rest =>
      rw [mergeGroups_of_agree (hagree.perm hperm.symm)]
      rfl

end Groups
end EdgarSec.Xbrl.CounterSolver
