import Mathlib

/-! Labelled intervals with open ends. A normal list is in order, and neighbours that touch have
different labels; such a list is determined by the labels it shows at the points of the order
and beyond its two ends. -/

namespace EdgarSec.Lib

abbrev Span (α : Type) := Option α × Option α

inductive Point (α : Type)
  | bot
  | at (x : α)
  | top

section Intervals
variable {α β : Type} [LinearOrder α]

def Covers (i : Span α) : Point α → Prop
  | .bot => i.1 = none
  | .at x => (∀ s ∈ i.1, s ≤ x) ∧ ∀ e ∈ i.2, x ≤ e
  | .top => i.2 = none

def Proper (i : Span α) : Prop := ∀ s ∈ i.1, ∀ e ∈ i.2, s ≤ e

instance (i : Span α) : Decidable (Proper i) :=
  decidable_of_iff ((i.1.all fun s => i.2.all fun e => decide (s ≤ e)) = true) (by
    obtain ⟨s, e⟩ := i
    cases s <;> cases e <;> simp [Proper])

/-- `i` ends before `j` starts. -/
def Before (i j : Span α) : Prop := ∃ e s, i.2 = some e ∧ j.1 = some s ∧ e < s

def Shows (l : List (Span α × β)) (p : Point α) (b : β) : Prop := ∃ i, (i, b) ∈ l ∧ Covers i p

variable {i j : Span α} {p q : Span α × β} {l l' : List (Span α × β)} {x : α} {b : β}

theorem Proper.covers_end {e : α} (h : Proper i) (he : i.2 = some e) : Covers i (.at e) := by
  refine ⟨fun s hs => h s hs e he, fun e' he' => ?_⟩
  obtain rfl := Option.some.inj (he.symm.trans he')
  exact le_refl e

theorem Proper.covers_start {s : α} (h : Proper i) (hs : i.1 = some s) : Covers i (.at s) := by
  refine ⟨fun s' hs' => ?_, fun e he => h s hs e he⟩
  obtain rfl := Option.some.inj (hs.symm.trans hs')
  exact le_refl s

theorem Proper.exists_covers (h : Proper i) : ∃ pt, Covers i pt := by
  cases hs : i.1 with
  | none => exact ⟨.bot, hs⟩
  | some s => exact ⟨.at s, h.covers_start hs⟩

theorem Before.not_covers (h : Before i j) {pt : Point α} (hi : Covers i pt) : ¬ Covers j pt := by
  obtain ⟨e, s, he, hs, hlt⟩ := h
  intro hj
  cases pt with
  | bot =>
    rw [Covers, hs] at hj
    cases hj
  | top =>
    rw [Covers, he] at hi
    cases hi
  | «at» x => exact absurd ((hj.1 s hs).trans (hi.2 e he)) (not_le.mpr hlt)

theorem Before.trans {k : Span α} (h : Before i j) (hj : Proper j) (h' : Before j k) : Before i k := by
  obtain ⟨e, s, he, hs, hlt⟩ := h
  obtain ⟨e', s', he', hs', hlt'⟩ := h'
  exact ⟨e, s', he, hs', hlt.trans_le ((hj s hs e' he').trans hlt'.le)⟩

theorem shows_cons {pt : Point α} :
    Shows (p :: l) pt b ↔ (Covers p.1 pt ∧ b = p.2) ∨ Shows l pt b := by
  constructor
  · rintro ⟨i, hi, hcov⟩
    rcases List.mem_cons.mp hi with heq | hi
    · subst heq
      exact Or.inl ⟨hcov, rfl⟩
    · exact Or.inr ⟨i, hi, hcov⟩
  · rintro (⟨hcov, rfl⟩ | ⟨i, hi, hcov⟩)
    · exact ⟨p.1, List.mem_cons_self, hcov⟩
    · exact ⟨i, List.mem_cons_of_mem p hi, hcov⟩

theorem not_shows_nil {pt : Point α} : ¬ Shows ([] : List (Span α × β)) pt b := by
  rintro ⟨i, hi, _⟩
  cases hi

/-! A point against one bound. -/

def NotBefore (s : α) : Point α → Prop
  | .bot => False
  | .at x => s ≤ x
  | .top => True

def NotAfter (e : α) : Point α → Prop
  | .bot => True
  | .at x => x ≤ e
  | .top => False

theorem covers_iff {pt : Point α} :
    Covers i pt ↔ (∀ s ∈ i.1, NotBefore s pt) ∧ ∀ e ∈ i.2, NotAfter e pt := by
  cases pt with
  | bot => simp [Covers, NotBefore, NotAfter, Option.eq_none_iff_forall_ne_some]
  | top => simp [Covers, NotBefore, NotAfter, Option.eq_none_iff_forall_ne_some]
  | «at» x => rfl

/-! ## In order -/

def Ordered : List (Span α × β) → Prop
  | [] => True
  | [p] => Proper p.1
  | p :: q :: l => Proper p.1 ∧ Before p.1 q.1 ∧ Ordered (q :: l)

theorem Ordered.proper (h : Ordered (p :: l)) : Proper p.1 := by
  cases l with
  | nil => exact h
  | cons q l => exact h.1

theorem Ordered.tail (h : Ordered (p :: l)) : Ordered l := by
  cases l with
  | nil => trivial
  | cons q l => exact h.2.2

theorem Ordered.before (h : Ordered (p :: l)) (hq : q ∈ l) : Before p.1 q.1 := by
  induction l generalizing p with
  | nil => cases hq
  | cons r l ih =>
    rcases List.mem_cons.mp hq with rfl | hq
    · exact h.2.1
    · exact h.2.1.trans h.2.2.proper (ih h.2.2 hq)

theorem Ordered.proper_of_mem (h : Ordered l) (hq : q ∈ l) : Proper q.1 := by
  induction l with
  | nil => cases hq
  | cons r l ih =>
    rcases List.mem_cons.mp hq with rfl | hq
    · exact h.proper
    · exact ih h.tail hq

theorem ordered_iff : Ordered l ↔ (∀ p ∈ l, Proper p.1) ∧ l.Pairwise fun p q => Before p.1 q.1 := by
  constructor
  · intro h
    refine ⟨fun p hp => h.proper_of_mem hp, ?_⟩
    induction l with
    | nil => exact List.Pairwise.nil
    | cons p l ih => exact List.pairwise_cons.mpr ⟨fun q hq => h.before hq, ih h.tail⟩
  · rintro ⟨hproper, hbefore⟩
    induction l with
    | nil => trivial
    | cons p l ih =>
      obtain ⟨hp, hl⟩ := List.pairwise_cons.mp hbefore
      have htail := ih (fun q hq => hproper q (List.mem_cons_of_mem p hq)) hl
      cases l with
      | nil => exact hproper p List.mem_cons_self
      | cons q l => exact ⟨hproper p List.mem_cons_self, hp q List.mem_cons_self, htail⟩

theorem Ordered.sublist (h : Ordered l) (hsub : l'.Sublist l) : Ordered l' := by
  obtain ⟨hproper, hbefore⟩ := ordered_iff.mp h
  exact ordered_iff.mpr ⟨fun p hp => hproper p (hsub.subset hp), hbefore.sublist hsub⟩

theorem Ordered.shows_tail (h : Ordered (p :: l)) {pt : Point α} :
    Shows l pt b ↔ Shows (p :: l) pt b ∧ ¬ Covers p.1 pt := by
  rw [shows_cons]
  constructor
  · rintro ⟨i, hi, hcov⟩
    exact ⟨Or.inr ⟨i, hi, hcov⟩, fun hp => (h.before hi).not_covers hp hcov⟩
  · rintro ⟨⟨hp, _⟩ | hl, hnot⟩
    · exact absurd hp hnot
    · exact hl

theorem Ordered.shows_unique (h : Ordered l) {pt : Point α} {b' : β} (hb : Shows l pt b)
    (hb' : Shows l pt b') : b = b' := by
  induction l with
  | nil => exact absurd hb not_shows_nil
  | cons p l ih =>
    rcases shows_cons.mp hb with ⟨hp, rfl⟩ | hl
    · rcases shows_cons.mp hb' with ⟨_, rfl⟩ | hl'
      · rfl
      · exact absurd hp (h.shows_tail.mp hl').2
    · rcases shows_cons.mp hb' with ⟨hp, _⟩ | hl'
      · exact absurd hp (h.shows_tail.mp hl).2
      · exact ih h.tail hl hl'

theorem shows_head (h : Ordered (p :: l)) : ∃ pt, Covers p.1 pt ∧ Shows (p :: l) pt p.2 := by
  obtain ⟨pt, hpt⟩ := h.proper.exists_covers
  exact ⟨pt, hpt, p.1, List.mem_cons_self, hpt⟩

theorem Ordered.le_of_shows (h : Ordered (p :: l)) {s : α} (hs : p.1.1 = some s) {pt : Point α}
    (hshows : Shows (p :: l) pt b) : pt = .top ∨ ∃ x, pt = .at x ∧ s ≤ x := by
  have hstart : ∃ i s', i.1 = some s' ∧ s ≤ s' ∧ Covers i pt := by
    rcases shows_cons.mp hshows with ⟨hcov, _⟩ | ⟨i, hi, hcov⟩
    · exact ⟨p.1, s, hs, le_refl s, hcov⟩
    · obtain ⟨e, s', he, hs', hlt⟩ := h.before hi
      exact ⟨i, s', hs', (h.proper s hs e he).trans hlt.le, hcov⟩
  obtain ⟨i, s', hs', hle, hcov⟩ := hstart
  cases pt with
  | bot =>
    rw [Covers, hs'] at hcov
    cases hcov
  | top => exact Or.inl rfl
  | «at» x => exact Or.inr ⟨x, rfl, hle.trans (hcov.1 s' hs')⟩

theorem start_le {p' : Span α × β} (h : Ordered (p :: l)) (h' : Ordered (p' :: l'))
    (hsame : ∀ pt b, Shows (p :: l) pt b → Shows (p' :: l') pt b) {s' : α} (hs' : p'.1.1 = some s') :
    ∃ s, p.1.1 = some s ∧ s' ≤ s := by
  cases hs : p.1.1 with
  | none =>
    have hshows : Shows (p :: l) .bot p.2 := ⟨p.1, List.mem_cons_self, hs⟩
    rcases h'.le_of_shows hs' (hsame _ _ hshows) with hbot | ⟨x, hbot, _⟩
    · cases hbot
    · cases hbot
  | some s =>
    have hshows : Shows (p :: l) (.at s) p.2 := ⟨p.1, List.mem_cons_self, h.proper.covers_start hs⟩
    rcases h'.le_of_shows hs' (hsame _ _ hshows) with hx | ⟨x, hx, hle⟩
    · cases hx
    · cases hx
      exact ⟨s, rfl, hle⟩

theorem start_eq {p' : Span α × β} (h : Ordered (p :: l)) (h' : Ordered (p' :: l'))
    (hsame : ∀ pt b, Shows (p :: l) pt b ↔ Shows (p' :: l') pt b) : p.1.1 = p'.1.1 := by
  cases hs : p.1.1 with
  | none =>
    cases hs' : p'.1.1 with
    | none => rfl
    | some s' =>
      obtain ⟨s, hs'', _⟩ := start_le h h' (fun pt b => (hsame pt b).mp) hs'
      cases hs.symm.trans hs''
  | some s =>
    obtain ⟨s', hs', hle⟩ := start_le h' h (fun pt b => (hsame pt b).mpr) hs
    obtain ⟨s'', hs'', hle'⟩ := start_le h h' (fun pt b => (hsame pt b).mp) hs'
    obtain rfl := Option.some.inj (hs.symm.trans hs'')
    rw [hs', le_antisymm hle hle']

theorem label_eq {p' : Span α × β} (h : Ordered (p :: l)) (h' : Ordered (p' :: l'))
    (hsame : ∀ pt b, Shows (p :: l) pt b ↔ Shows (p' :: l') pt b) : p.2 = p'.2 := by
  have hstart := start_eq h h' hsame
  -- both first intervals cover the point they start from
  obtain ⟨pt, hp, hp'⟩ : ∃ pt, Covers p.1 pt ∧ Covers p'.1 pt := by
    cases hs : p.1.1 with
    | none => exact ⟨.bot, hs, hstart.symm.trans hs⟩
    | some s =>
      exact ⟨.at s, h.proper.covers_start hs, h'.proper.covers_start (hstart.symm.trans hs)⟩
  have hshows : Shows (p' :: l') pt p.2 := (hsame pt p.2).mp ⟨p.1, List.mem_cons_self, hp⟩
  exact h'.shows_unique hshows ⟨p'.1, List.mem_cons_self, hp'⟩

end Intervals

/-! ## Normal lists -/

section Normal
variable {α β : Type} [LinearOrder α] [SuccOrder α]

/-- `p` ends before `q` starts, and not right before it unless the labels differ. -/
def Apart (p q : Span α × β) : Prop :=
  ∃ e s, p.1.2 = some e ∧ q.1.1 = some s ∧ e < s ∧ (s ≤ Order.succ e → p.2 ≠ q.2)

def Normal : List (Span α × β) → Prop
  | [] => True
  | [p] => Proper p.1
  | p :: q :: l => Proper p.1 ∧ Apart p q ∧ Normal (q :: l)

variable {p q : Span α × β} {l l' : List (Span α × β)} {b : β} {e s x : α}

theorem Apart.before (h : Apart p q) : Before p.1 q.1 := by
  obtain ⟨e, s, he, hs, hlt, _⟩ := h
  exact ⟨e, s, he, hs, hlt⟩

theorem Normal.tail (h : Normal (p :: l)) : Normal l := by
  cases l with
  | nil => trivial
  | cons q l => exact h.2.2

theorem Normal.ordered (h : Normal l) : Ordered l := by
  induction l with
  | nil => trivial
  | cons p l ih =>
    cases l with
    | nil => exact h
    | cons q l => exact ⟨h.1, h.2.1.before, ih h.2.2⟩

theorem Normal.not_shows_succ (h : Normal (p :: l)) (he : p.1.2 = some e) (hmax : ¬ IsMax e) :
    ¬ Shows (p :: l) (.at (Order.succ e)) p.2 := by
  intro hshows
  have hlt : e < Order.succ e := Order.lt_succ_of_not_isMax hmax
  rcases shows_cons.mp hshows with ⟨hp, _⟩ | ⟨i, hi, hcov⟩
  · exact absurd (hp.2 e he) (not_le.mpr hlt)
  · cases l with
    | nil => cases hi
    | cons q l =>
      obtain ⟨e', s, he', hs, hlts, hlabel⟩ := h.2.1
      obtain rfl := Option.some.inj (he.symm.trans he')
      rcases List.mem_cons.mp hi with heq | hi
      · subst heq
        exact hlabel (hcov.1 s hs) rfl
      · -- a later interval starts behind the end of the next one
        obtain ⟨eq, si, heq, hsi, hltsi⟩ := h.2.2.ordered.before hi
        have hle : s ≤ eq := h.2.2.ordered.proper s hs eq heq
        have hsucc : Order.succ e ≤ eq := (Order.succ_le_of_lt hlts).trans hle
        exact absurd ((hcov.1 si hsi).trans hsucc) (not_le.mpr hltsi)

theorem Normal.not_shows_succ_of_mem (h : Normal l) (hp : p ∈ l) (he : p.1.2 = some e)
    (hmax : ¬ IsMax e) : ¬ Shows l (.at (Order.succ e)) p.2 := by
  induction l with
  | nil => cases hp
  | cons q l ih =>
    rcases List.mem_cons.mp hp with rfl | hp'
    · exact h.not_shows_succ he hmax
    · intro hshows
      rcases shows_cons.mp hshows with ⟨hcov, _⟩ | hl
      · obtain ⟨eq, s, heq, hs, hlt⟩ := h.ordered.before hp'
        have hse : s ≤ e := h.ordered.proper_of_mem hp s hs e he
        exact absurd (hcov.2 eq heq) (not_le.mpr (hlt.trans_le (hse.trans (Order.le_succ e))))
      · exact ih h.tail hp' hl

theorem Normal.not_shows_pred (h : Normal l) (hp : p ∈ l) (hs : p.1.1 = some s) (hx : x < s)
    (hsucc : s ≤ Order.succ x) : ¬ Shows l (.at x) p.2 := by
  induction l with
  | nil => cases hp
  | cons q l ih =>
    intro hshows
    rcases List.mem_cons.mp hp with rfl | hp'
    · rcases shows_cons.mp hshows with ⟨hcov, _⟩ | ⟨i, hi, hcov⟩
      · exact absurd (hcov.1 s hs) (not_le.mpr hx)
      · obtain ⟨e, si, he, hsi, hlt⟩ := h.ordered.before hi
        have hse := h.ordered.proper s hs e he
        exact absurd (hcov.1 si hsi) (not_le.mpr (hx.trans_le (hse.trans hlt.le)))
    · rcases shows_cons.mp hshows with ⟨hcov, hlabel⟩ | hl
      · -- the first interval reaches `x`, so it is the neighbour of `p`
        cases l with
        | nil => cases hp'
        | cons r l =>
          obtain ⟨e, sr, he, hsr, hlt, hne⟩ := h.2.1
          have hxe : x ≤ e := hcov.2 e he
          rcases List.mem_cons.mp hp' with rfl | hp''
          · obtain rfl := Option.some.inj (hs.symm.trans hsr)
            exact hne (hsucc.trans (Order.succ_le_succ hxe)) hlabel.symm
          · obtain ⟨er, sp, her, hsp, hltp⟩ := h.2.2.ordered.before hp''
            obtain rfl := Option.some.inj (hs.symm.trans hsp)
            have hle : sr ≤ er := h.2.2.ordered.proper sr hsr er her
            have hsx : Order.succ x ≤ er :=
              Order.succ_le_of_lt (hxe.trans_lt (hlt.trans_le hle))
            exact absurd (hsucc.trans hsx) (not_le.mpr hltp)
      · exact ih h.tail hp' hl

theorem end_le {p' : Span α × β} (h : Normal (p :: l))
    (hsame : ∀ pt b, Shows (p' :: l') pt b → Shows (p :: l) pt b) (hstart : p.1.1 = p'.1.1)
    (hlabel : p.2 = p'.2) (he : p.1.2 = some e) : ∃ e', p'.1.2 = some e' ∧ e' ≤ e := by
  by_contra hno
  -- the first interval of the other list reaches further
  have hcov : ∀ x, e ≤ x → (∀ e' ∈ p'.1.2, x ≤ e') → Covers p'.1 (.at x) := by
    intro x hx hend
    refine ⟨fun s hs => ?_, hend⟩
    exact (h.ordered.proper s (hstart.trans hs) e he).trans hx
  have hfar : ∀ e' ∈ p'.1.2, e < e' := fun e' he' => not_le.mp fun hle => hno ⟨e', he', hle⟩
  by_cases hmax : IsMax e
  · cases he' : p'.1.2 with
    | some e' => exact absurd (hfar e' he') hmax.not_lt
    | none =>
      rcases shows_cons.mp (hsame .top p'.2 ⟨p'.1, List.mem_cons_self, he'⟩) with
        ⟨hp, _⟩ | ⟨i, hi, _⟩
      · rw [Covers, he] at hp
        cases hp
      · obtain ⟨e₁, s, he₁, _, hlt⟩ := h.ordered.before hi
        obtain rfl := Option.some.inj (he.symm.trans he₁)
        exact hmax.not_lt hlt
  · have hsucc := hcov (Order.succ e) (Order.le_succ e) fun e' he' => Order.succ_le_of_lt (hfar e' he')
    have hshows := hsame _ _ ⟨p'.1, List.mem_cons_self, hsucc⟩
    rw [← hlabel] at hshows
    exact h.not_shows_succ he hmax hshows

theorem end_eq {p' : Span α × β} (h : Normal (p :: l)) (h' : Normal (p' :: l'))
    (hsame : ∀ pt b, Shows (p :: l) pt b ↔ Shows (p' :: l') pt b) : p.1.2 = p'.1.2 := by
  have hstart := start_eq h.ordered h'.ordered hsame
  have hlabel := label_eq h.ordered h'.ordered hsame
  have hle : ∀ e, p.1.2 = some e → ∃ e', p'.1.2 = some e' ∧ e' ≤ e := fun e he =>
    end_le h (fun pt b => (hsame pt b).mpr) hstart hlabel he
  have hge : ∀ e', p'.1.2 = some e' → ∃ e, p.1.2 = some e ∧ e ≤ e' := fun e' he' =>
    end_le h' (fun pt b => (hsame pt b).mp) hstart.symm hlabel.symm he'
  cases he : p.1.2 with
  | none =>
    cases he' : p'.1.2 with
    | none => rfl
    | some e' =>
      obtain ⟨e, he'', _⟩ := hge e' he'
      cases he.symm.trans he''
  | some e =>
    obtain ⟨e', he', h₁⟩ := hle e he
    obtain ⟨e₂, he₂, h₂⟩ := hge e' he'
    obtain rfl := Option.some.inj (he.symm.trans he₂)
    rw [he', le_antisymm h₂ h₁]

theorem Normal.unique (h : Normal l) (h' : Normal l')
    (hsame : ∀ pt b, Shows l pt b ↔ Shows l' pt b) : l = l' := by
  induction l generalizing l' with
  | nil =>
    cases l' with
    | nil => rfl
    | cons p' l' =>
      obtain ⟨pt, _, hshows⟩ := shows_head h'.ordered
      exact absurd ((hsame pt p'.2).mpr hshows) not_shows_nil
  | cons p l ih =>
    cases l' with
    | nil =>
      obtain ⟨pt, _, hshows⟩ := shows_head h.ordered
      exact absurd ((hsame pt p.2).mp hshows) not_shows_nil
    | cons p' l' =>
      have hhead : p = p' := Prod.ext
        (Prod.ext (start_eq h.ordered h'.ordered hsame) (end_eq h h' hsame))
        (label_eq h.ordered h'.ordered hsame)
      subst hhead
      have htail : ∀ pt b, Shows l pt b ↔ Shows l' pt b := by
        intro pt b
        rw [h.ordered.shows_tail, h'.ordered.shows_tail, hsame]
      rw [ih h.tail h'.tail htail]

end Normal
end EdgarSec.Lib
