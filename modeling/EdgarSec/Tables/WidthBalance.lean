import EdgarSec.Tables.ColumnWidths

/-! `balance_span_widths`: width is moved between the columns of a table. -/

namespace EdgarSec.Tables.Widths
open Foundation Lexical

/-! ## Widths and their changes -/

structure Change where
  before : List Int
  col : Nat
  amount : Int
  deriving DecidableEq, Repr

structure Ledger where
  widths : List Int
  spans : List Span
  changes : List Change := []
  deriving DecidableEq, Repr

namespace Ledger
variable (l : Ledger)

def width (c : Nat) : Int := l.widths.getD c 0

/-- `widths[c] += amount` -/
def add (c : Nat) (amount : Int) : Ledger :=
  { l with widths := l.widths.modify c (· + amount), changes := l.changes ++ [⟨l.widths, c, amount⟩] }

def colsOf (i : Nat) : List Nat := ((l.spans[i]?).map Span.cols).getD []

def block (s : Span) : List Nat := s.cols.filter (· < l.widths.length)

def blockSum (cols : List Nat) : Int := ((cols.filter (· < l.widths.length)).map l.width).sum

def shownWidth (spacing : Int) (cols : List Nat) : Int :=
  let shown := cols.filter fun c => 0 < l.width c
  (shown.map l.width).sum + spacing * max 0 ((shown.length : Int) - 1)

end Ledger

def firstMax (key : Nat → Int) : List Nat → Option Nat
  | [] => none
  | i :: rest => some (rest.foldl (fun best j => if key best < key j then j else best) i)

theorem firstMax_mem {key : Nat → Int} {indices : List Nat} {i : Nat} (h : firstMax key indices = some i) : i ∈ indices := by
  cases indices with
  | nil => cases h
  | cons first rest =>
    have hfold : ∀ (l : List Nat) (best : Nat),
        l.foldl (fun best j => if key best < key j then j else best) best ∈ best :: l := by
      intro l
      induction l with
      | nil => exact fun best => List.mem_singleton_self best
      | cons j l ih =>
        intro best
        rw [List.foldl_cons]
        split
        · exact List.mem_cons_of_mem _ (ih j)
        · rcases List.mem_cons.mp (ih best) with hbest | hlater
          · rw [hbest]
            exact List.mem_cons_self
          · exact List.mem_cons_of_mem _ (List.mem_cons_of_mem _ hlater)
    injection h with h
    rw [← h]
    exact hfold rest first

def isBlank (text : Chars) : Bool := stripChars text = []

section Balance
variable (rules : TextRules) (minSafe : Nat → Int) (prefixes : List Nat) (budget : RenderBudget)

def floorOf (c : Nat) : Int := max (minSafe c) (if c = 0 then 38 else 0)

def movable (l : Ledger) (c : Nat) : Int := max 0 (l.width c - floorOf minSafe c)

def donorsBy (l : Ledger) (headers : List Nat) : List Nat :=
  sortedDown (fun c => l.width c - floorOf minSafe c) ((List.range l.widths.length).filter (· ∉ headers))

def receiverCols (cols : List Nat) : List Nat :=
  if cols.filter (· ∉ prefixes) = [] then cols else cols.filter (· ∉ prefixes)

/-! ## Hidden headers -/

def openSpan (headers : List Nat) (l : Ledger) (s : Span) : Ledger :=
  match s.cols.find? (· < l.widths.length) with
  | none => l
  | some origin =>
    if isBlank s.text = true ∨ 0 < l.width origin then l
    else
      match (donorsBy minSafe l headers).find? fun donor => floorOf minSafe donor < l.width donor with
      | none => l
      | some donor => (l.add donor (-1)).add origin (1 - (l.add donor (-1)).width origin)

/-! ## Sinking

Values above their minimum sink evenly, the highest first, until the excess is gone. -/

section Sink

def reducible (values : List (Int × Int)) : List (Int × Int) := values.filter fun v => v.2 < v.1

def topOf (values : List (Int × Int)) : Option Int := ((reducible values).map Prod.fst).max?

def nextOf (values : List (Int × Int)) (top : Int) : Int :=
  ((((reducible values).map Prod.fst ++ (reducible values).map Prod.snd).filter (· < top)).max?).getD
    ((((reducible values).map Prod.snd).min?).getD 0)

def atTop (top : Int) (v : Int × Int) : Bool := decide (v.2 < v.1) && decide (v.1 = top)

/-- The highest values sink by `q`, the first `r` of them by one more. -/
def lower (top q : Int) : Nat → List (Int × Int) → List (Int × Int)
  | _, [] => []
  | r, v :: rest =>
    if atTop top v then (v.1 - q - (if r = 0 then 0 else 1), v.2) :: lower top q (r - 1) rest
    else v :: lower top q r rest

theorem topOf_mem {values : List (Int × Int)} {top : Int} (h : topOf values = some top) : ∃ v ∈ values, atTop top v = true := by
  have hmem := List.max?_mem h
  obtain ⟨v, hv, htop⟩ := List.mem_map.mp hmem
  obtain ⟨hv, hlt⟩ := List.mem_filter.mp hv
  refine ⟨v, hv, ?_⟩
  rw [atTop, hlt, htop]
  exact decide_eq_true rfl

theorem nextOf_lt {values : List (Int × Int)} {top : Int} (h : topOf values = some top) : nextOf values top < top := by
  obtain ⟨v, hv, hatTop⟩ := topOf_mem h
  rw [atTop, Bool.and_eq_true, decide_eq_true_eq, decide_eq_true_eq] at hatTop
  have hreducible : v ∈ reducible values := List.mem_filter.mpr ⟨hv, decide_eq_true hatTop.1⟩
  unfold nextOf
  cases hmax : (((reducible values).map Prod.fst ++ (reducible values).map Prod.snd).filter (· < top)).max? with
  | some next => exact of_decide_eq_true (List.mem_filter.mp (List.max?_mem hmax)).2
  | none =>
    -- the minimum of a highest value is below it
    have hlow : v.2 ∈ ((reducible values).map Prod.fst ++ (reducible values).map Prod.snd).filter (· < top) := by
      apply List.mem_filter.mpr
      refine ⟨List.mem_append_right _ (List.mem_map_of_mem hreducible), ?_⟩
      rw [decide_eq_true_eq, ← hatTop.2]
      exact hatTop.1
    rw [List.max?_eq_none_iff] at hmax
    rw [hmax] at hlow
    exact absurd hlow List.not_mem_nil

theorem step_pos {values : List (Int × Int)} {top : Int} (h : topOf values = some top) :
    0 < (top - nextOf values top) * (values.countP (atTop top) : Int) := by
  have hlt := nextOf_lt h
  have hcount : 0 < values.countP (atTop top) := List.countP_pos_iff.mpr (topOf_mem h)
  exact Int.mul_pos (by omega) (by omega)

def sink (excess : Int) (values : List (Int × Int)) : List (Int × Int) :=
  if _hexcess : 0 < excess then
    match _h : topOf values with
    | none => values
    | some top =>
      if (top - nextOf values top) * (values.countP (atTop top) : Int) ≤ excess then
        sink (excess - (top - nextOf values top) * (values.countP (atTop top) : Int)) (lower top (top - nextOf values top) 0 values)
      else lower top (excess / (values.countP (atTop top) : Int)) (excess % (values.countP (atTop top) : Int)).toNat values
  else values
termination_by excess.toNat
decreasing_by
  have hpos := step_pos _h
  omega

end Sink

/-! ## Tiers -/

def tiersOf (spans : List Span) : List (List Nat) :=
  let wide := spans.zipIdx.filter fun e => 1 < e.1.cols.length ∧ isBlank e.1.text = false
  let keys := (wide.map fun e => (e.1.row, e.1.cols.length)).reverse.dedup.reverse
  keys.map fun key => (wide.filter fun e => (e.1.row, e.1.cols.length) = key).map Prod.snd

def isUneven (texts : List Chars) : Bool :=
  let wordCounts := texts.map fun text => (pySplit text).length
  let textLens := texts.map textLength
  decide (5 ≤ wordCounts.max?.getD 0) && decide (wordCounts.min?.getD 0 ≤ 2) && decide (30 ≤ textLens.max?.getD 0) &&
    decide (textLens.min?.getD 0 ≤ 12)

def minimumOf (l : Ledger) (text : Chars) (cols : List Nat) : Int :=
  max (headerMinimumWidth text : Int)
    ((cols.filter fun c => c < l.widths.length ∧ c ∈ prefixes).map fun c => min (l.width c) (minSafe c)).sum

/-- Columns give in turn until `amount` is reached; what is left of it comes with the result. -/
def giveFrom : List Nat → Int → Ledger → Ledger × Int
  | [], amount, l => (l, amount)
  | c :: cols, amount, l =>
    let moved := min amount (movable minSafe l c)
    if amount - moved = 0 then (l.add c (-moved), 0) else giveFrom cols (amount - moved) (l.add c (-moved))

def sortSpan (l : Ledger) (i : Nat) : Ledger :=
  if (l.colsOf i).filter (· ∉ prefixes) = [] then
    { l with spans := l.spans.modify i fun s => { s with cols := sortedDown l.width s.cols } }
  else l

structure TierState where
  ledger : Ledger
  sums : List Int
  desired : List Int

namespace TierState
variable (t : TierState)

def surplus (i : Nat) : Int := t.sums.getD i 0 - t.desired.getD i 0

/-- One donor block gives to a receiver block what it can, up to `need`. Nothing where a column is not
in the table. -/
def moveBetween (donorSpan receiverSpan donor : Nat) (need : Int) : Option (Ledger × Int) :=
  let l := t.ledger
  if t.surplus donor ≤ 0 then some (l, 0)
  else
    let amount := min need (t.surplus donor)
    let donorCols := (l.colsOf donorSpan).filter (· ∉ prefixes)
    let receivers := receiverCols prefixes (l.colsOf receiverSpan)
    if (donorCols ++ receivers).any (fun c => decide (l.widths.length ≤ c)) then none
    else
      match sortedDown l.width receivers with
      | [] => some (sortSpan prefixes l receiverSpan, 0)
      | receiver :: _ =>
        let (l', rest) := giveFrom minSafe (sortedDown (fun c => l.width c - minSafe c) donorCols) amount
          (sortSpan prefixes l receiverSpan)
        if amount - rest = 0 then some (l', 0) else some (l'.add receiver (amount - rest), amount - rest)

end TierState

def feed (tier : List Nat) (receiver : Nat) (need : Int) (donors : List Nat) (t : TierState) : Option (List Nat × TierState) :=
  if _hneed : 0 < need then
    match _h : firstMax t.surplus donors with
    | none => some (donors, t)
    | some donor =>
      match t.moveBetween minSafe prefixes (tier.getD donor 0) (tier.getD receiver 0) donor need with
      | none => none
      | some (l, moved) =>
        if 0 < moved then
          feed tier receiver (need - moved) donors
            { t with ledger := l, sums := (t.sums.modify donor (· - moved)).modify receiver (· + moved) }
        else feed tier receiver need (donors.erase donor) { t with ledger := l }
  else some (donors, t)
termination_by need.toNat + donors.length
decreasing_by
  · omega
  · have hmem := firstMax_mem _h
    rw [List.length_erase_of_mem hmem]
    have hpos := List.length_pos_of_mem hmem
    omega

def feedAll (tier : List Nat) : List Nat → List Nat → TierState → Option TierState
  | [], _, t => some t
  | receiver :: receivers, donors, t =>
    match feed minSafe prefixes tier receiver (-t.surplus receiver) donors t with
    | none => none
    | some (donors, t) => feedAll tier receivers donors t

def trim (l : Ledger) : Ledger :=
  let excess := tableWidth budget.columnSpacing l.widths - budget.maxTableWidth
  ((sortedDown l.width (List.range l.widths.length)).foldl (fun (state : Ledger × Int) c =>
    if state.2 ≤ 0 ∨ c ∈ prefixes then state
    else
      let moved := min state.2 (movable minSafe state.1 c)
      (state.1.add c (-moved), state.2 - moved)) (l, excess)).1

def desiredOf (minimums sums : List Int) : List Int :=
  let target := max (minimums.max?.getD 0) (sums.sum / (sums.length : Int))
  (sink (target * (sums.length : Int) - sums.sum) (minimums.map fun m => (target, m))).map Prod.fst

def balanceTier (tier : List Nat) (l : Ledger) : Option Ledger :=
  let texts := tier.map fun i => ((l.spans[i]?).map Span.text).getD []
  if tier.length < 2 ∨ isUneven texts = true then some l
  else
    let sums := tier.map fun i => l.blockSum (l.colsOf i)
    let minimums := (tier.zip texts).map fun e => minimumOf minSafe prefixes l e.2 (l.colsOf e.1)
    if sums.sum < minimums.sum then some l
    else
      let t : TierState := ⟨l, sums, desiredOf minimums sums⟩
      let indices := List.range tier.length
      let donors := indices.filter fun i => 0 < t.surplus i
      let receivers := indices.filter fun i => t.surplus i < 0
      (feedAll minSafe prefixes tier receivers donors t).map fun t => trim minSafe prefixes budget t.ledger

def cutBands (bands : Nat) (l : Ledger) : Ledger :=
  if 3 ≤ bands ∧ 38 < l.width 0 then l.add 0 (38 - l.width 0) else l

def balanceTiers (l : Ledger) : Option Ledger :=
  let tiers := tiersOf l.spans
  let l := cutBands ((tiers.map List.length).max?.getD 0) l
  tiers.foldlM (fun l tier => balanceTier minSafe prefixes budget tier l) l

/-! ## Headers that do not fit -/

def fund (receiver : Option Nat) : List Nat → Int → Ledger → Ledger
  | [], _, l => l
  | donor :: donors, deficit, l =>
    if deficit ≤ 0 then l
    else
      let moved := min deficit (movable minSafe l donor)
      let l := l.add donor (-moved)
      fund receiver donors (deficit - moved) (receiver.elim l fun receiver => l.add receiver moved)

def receiverOf (l : Ledger) (s : Span) : Option Nat := (sortedDown l.width (receiverCols prefixes (l.block s))).head?

def fundSpan (headers : List Nat) (l : Ledger) (s : Span) : Ledger :=
  let deficit := (headerMinimumWidth s.text : Int) - l.shownWidth budget.columnSpacing (l.block s)
  if deficit ≤ 0 then l
  else fund minSafe (receiverOf prefixes l s) (donorsBy minSafe l headers) deficit l

def requestOf (l : Ledger) (s : Span) : Option (Nat × Int) :=
  match receiverOf prefixes l s with
  | none => none
  | some receiver =>
    let need := (preferredHeaderWidth rules s.text : Int) - l.shownWidth budget.columnSpacing (l.block s)
    if need ≤ 0 then none else some (receiver, need)

def grantRequests (l : Ledger) : Ledger :=
  let requests := l.spans.filterMap (requestOf rules prefixes budget l)
  let available := budget.maxTableWidth - tableWidth budget.columnSpacing l.widths
  let missing := sink available (requests.map fun r => (r.2, 0))
  (requests.zip missing).foldl (fun l e => if 0 < e.1.2 - e.2.1 then l.add e.1.1 (e.1.2 - e.2.1) else l) l

/-! ## The whole pass -/

def headerColumns (numCols : Nat) (spans : List Span) : List Nat := spans.flatMap fun s => s.cols.filter (· < numCols)

def balanceSpanWidths (widths : List Int) (spans : List Span) : Option Ledger :=
  let headers := headerColumns widths.length spans
  let opened := spans.foldl (openSpan minSafe headers) ⟨widths, spans, []⟩
  (balanceTiers minSafe prefixes budget opened).map fun l =>
    grantRequests rules prefixes budget (l.spans.foldl (fundSpan minSafe prefixes budget headers) l)

end Balance

section Compute
variable (rules : TextRules)

def Measured.balance (m : Measured) (grid : Grid) : Option Ledger :=
  balanceSpanWidths rules (fun c => (m.minSafe.getD c 0 : Nat)) grid.prefixes m.budget (widthsOf m.widths) grid.spans

def restoreFirst (before widths : List Int) : List Int :=
  if 0 < before.getD 0 0 then widths.modify 0 (max · (before.getD 0 0)) else widths

def computeColumnWidths (budget : RenderBudget) (grid : Grid) : Option (List Int) :=
  if grid.rows = [] ∨ grid.numCols = 0 then some []
  else
    (measure rules budget grid).bind fun m =>
      let widths := if grid.spans = [] then some (widthsOf m.widths) else
        (m.balance rules grid).map fun l => restoreFirst (widthsOf m.widths) l.widths
      -- the diagnostics look at every cell
      if grid.rows.any (fun row => row.length < grid.numCols) then none else widths

end Compute

/-! ## What a change leaves as it is -/

/-- No spacing comes in: no hidden column is shown where spacing costs width, and none is hidden where
it saves some. The first column keeps at least `first`. -/
structure Kept (spacing first : Int) (before after : List Int) : Prop where
  shown : 0 < spacing → ∀ c, 0 < after.getD c 0 → 0 < before.getD c 0
  hidden : spacing < 0 → ∀ c, 0 < before.getD c 0 → 0 < after.getD c 0
  first : first ≤ before.getD 0 0 → first ≤ after.getD 0 0

structure Change.Sound (spacing first : Int) (e : Change) : Prop where
  shown : 0 < spacing → 0 < e.amount → 0 < e.before.getD e.col 0
  hidden : spacing < 0 → e.amount < 0 → 0 < e.before.getD e.col 0 → 0 < e.before.getD e.col 0 + e.amount
  first : e.amount < 0 → e.col = 0 → first ≤ e.before.getD 0 0 → first ≤ e.before.getD 0 0 + e.amount

/-- What a part of the pass does to the widths: it adds at most `gain` to them. -/
structure Follows (gain : Int) (l l' : Ledger) : Prop where
  length : l'.widths.length = l.widths.length
  nonneg : (∀ w ∈ l.widths, 0 ≤ w) → ∀ w ∈ l'.widths, 0 ≤ w
  total : l'.widths.sum ≤ l.widths.sum + gain
  kept : ∃ new, l'.changes = l.changes ++ new ∧
    ∀ spacing first, (∀ e ∈ new, e.Sound spacing first) → Kept spacing first l.widths l'.widths

section Follows
variable {spacing first gain gain' : Int} {l l' l'' : Ledger}

theorem Kept.refl (ws : List Int) : Kept spacing first ws ws := ⟨fun _ _ h => h, fun _ _ h => h, fun h => h⟩

theorem Kept.trans {ws ws' ws'' : List Int} (h : Kept spacing first ws ws') (h' : Kept spacing first ws' ws'') :
    Kept spacing first ws ws'' where
  shown hspacing c hc := h.shown hspacing c (h'.shown hspacing c hc)
  hidden hspacing c hc := h'.hidden hspacing c (h.hidden hspacing c hc)
  first hfirst := h'.first (h.first hfirst)

theorem Follows.refl (l : Ledger) : Follows 0 l l where
  length := rfl
  nonneg h := h
  total := by rw [add_zero]
  kept := ⟨[], (List.append_nil _).symm, fun _ _ _ => Kept.refl _⟩

theorem Follows.trans (h : Follows gain l l') (h' : Follows gain' l' l'') : Follows (gain + gain') l l'' where
  length := h'.length.trans h.length
  nonneg hw := h'.nonneg (h.nonneg hw)
  total := by
    have hfirst := h.total
    have hsecond := h'.total
    omega
  kept := by
    obtain ⟨new, hnew, hkept⟩ := h.kept
    obtain ⟨new', hnew', hkept'⟩ := h'.kept
    refine ⟨new ++ new', by rw [hnew', hnew, List.append_assoc], fun spacing first hsound => ?_⟩
    have hleft := hkept spacing first fun e he => hsound e (List.mem_append_left _ he)
    have hright := hkept' spacing first fun e he => hsound e (List.mem_append_right _ he)
    exact hleft.trans hright

theorem Follows.mono (h : Follows gain l l') (hle : gain ≤ gain') : Follows gain' l l' where
  length := h.length
  nonneg := h.nonneg
  total := by
    have htotal := h.total
    omega
  kept := h.kept

theorem follows_of_widths (hwidths : l'.widths = l.widths) (hchanges : l'.changes = l.changes) : Follows 0 l l' where
  length := by rw [hwidths]
  nonneg h := by rw [hwidths]; exact h
  total := by rw [hwidths, add_zero]
  kept := ⟨[], by rw [hchanges, List.append_nil], fun _ _ _ => by rw [hwidths]; exact Kept.refl _⟩

theorem getD_modify (ws : List Int) (c d : Nat) (amount : Int) :
    (ws.modify c (· + amount)).getD d 0 = ws.getD d 0 + if d = c ∧ c < ws.length then amount else 0 := by
  rw [List.getD_eq_getElem?_getD, List.getD_eq_getElem?_getD, List.getElem?_modify]
  by_cases hcd : c = d
  · subst hcd
    by_cases hlt : c < ws.length
    · rw [List.getElem?_eq_getElem hlt, if_pos ⟨rfl, hlt⟩]
      simp
    · rw [List.getElem?_eq_none (by omega), if_neg fun h => hlt h.2]
      simp
  · rw [if_neg fun h => hcd h.1.symm]
    simp [hcd]

theorem sum_modify (ws : List Int) (c : Nat) (amount : Int) :
    (ws.modify c (· + amount)).sum = ws.sum + if c < ws.length then amount else 0 := by
  induction ws generalizing c with
  | nil => simp
  | cons w ws ih =>
    cases c with
    | zero =>
      rw [List.modify_zero_cons, List.sum_cons, List.sum_cons, if_pos (List.length_pos_of_ne_nil (List.cons_ne_nil w ws))]
      omega
    | succ c =>
      rw [List.modify_succ_cons, List.sum_cons, List.sum_cons, ih]
      simp only [List.length_cons, Nat.add_lt_add_iff_right]
      omega

theorem follows_add {c : Nat} {amount : Int} (htake : amount < 0 → c < l.widths.length ∧ 0 ≤ l.width c + amount) :
    Follows amount l (l.add c amount) where
  length := List.length_modify ..
  nonneg hw := by
    intro w hmem
    change w ∈ l.widths.modify c (· + amount) at hmem
    obtain ⟨d, hd, rfl⟩ := List.mem_iff_getElem.mp hmem
    have hget := getD_modify l.widths c d amount
    have hwidth : 0 ≤ l.widths.getD d 0 := by
      have hlt : d < l.widths.length := by rwa [List.length_modify] at hd
      rw [List.getD_eq_getElem _ _ hlt]
      exact hw _ (List.getElem_mem hlt)
    rw [List.getD_eq_getElem _ _ hd] at hget
    rw [hget]
    split_ifs with hhere
    · by_cases hneg : amount < 0
      · have hleft := (htake hneg).2
        rw [Ledger.width] at hleft
        rw [hhere.1]
        exact hleft
      · omega
    · omega
  total := by
    show (l.widths.modify c (· + amount)).sum ≤ _
    rw [sum_modify]
    split_ifs with hlt
    · omega
    · have hnonneg : ¬ amount < 0 := fun hneg => hlt (htake hneg).1
      omega
  kept := by
    refine ⟨[⟨l.widths, c, amount⟩], rfl, fun spacing first hsound => ?_⟩
    have hchange := hsound _ (List.mem_singleton_self _)
    have hget := getD_modify l.widths c
    constructor
    · intro hspacing d hd
      change 0 < (l.widths.modify c (· + amount)).getD d 0 at hd
      rw [hget] at hd
      split_ifs at hd with hhere
      · by_cases hpos : 0 < amount
        · rw [hhere.1]
          exact hchange.shown hspacing hpos
        · omega
      · omega
    · intro hspacing d hd
      show 0 < (l.widths.modify c (· + amount)).getD d 0
      rw [hget]
      split_ifs with hhere
      · by_cases hneg : amount < 0
        · rw [hhere.1] at hd ⊢
          exact hchange.hidden hspacing hneg hd
        · omega
      · omega
    · intro hfirst
      show first ≤ (l.widths.modify c (· + amount)).getD 0 0
      rw [hget]
      split_ifs with hhere
      · by_cases hneg : amount < 0
        · exact hchange.first hneg hhere.1.symm hfirst
        · omega
      · omega

theorem follows_give {c : Nat} {amount : Int} (h : 0 ≤ amount) : Follows amount l (l.add c amount) :=
  follows_add fun hneg => absurd hneg (not_lt.mpr h)

theorem follows_foldl {β : Type} {f : Ledger → β → Ledger} (hstep : ∀ l b, Follows 0 l (f l b)) (bs : List β) (l : Ledger) :
    Follows 0 l (bs.foldl f l) := by
  induction bs generalizing l with
  | nil => exact Follows.refl l
  | cons b bs ih => exact (hstep l b).trans (ih (f l b))

theorem follows_foldlM {β : Type} {f : Ledger → β → Option Ledger} (hstep : ∀ l b l', f l b = some l' → Follows 0 l l')
    {bs : List β} (h : bs.foldlM f l = some l') : Follows 0 l l' := by
  induction bs generalizing l with
  | nil =>
    injection h with h
    exact h ▸ Follows.refl l
  | cons b bs ih =>
    rw [List.foldlM_cons] at h
    obtain ⟨l₁, hfirst, hrest⟩ := Option.bind_eq_some_iff.mp h
    exact (hstep l b l₁ hfirst).trans (ih hrest)

end Follows

/-! ## Giving -/

section Giving
variable {minSafe : Nat → Int} {prefixes : List Nat} {budget : RenderBudget} {l l' : Ledger}

theorem floorOf_nonneg (minSafe : Nat → Int) (c : Nat) : 0 ≤ floorOf minSafe c := by
  have hleft : (if c = 0 then (38 : Int) else 0) ≤ floorOf minSafe c := le_max_right _ _
  split_ifs at hleft with hc
  · omega
  · exact hleft

theorem lt_length_of_width {c : Nat} (h : 0 < l.width c) : c < l.widths.length := by
  by_contra hout
  rw [Ledger.width, List.getD_eq_default _ _ (Nat.le_of_not_lt hout)] at h
  exact lt_irrefl 0 h

theorem follows_take {c : Nat} {moved : Int} (h : moved ≤ movable minSafe l c) : Follows (-moved) l (l.add c (-moved)) := by
  apply follows_add
  intro hneg
  have hfloor := floorOf_nonneg minSafe c
  have hmovable : movable minSafe l c = l.width c - floorOf minSafe c := by
    rcases max_choice 0 (l.width c - floorOf minSafe c) with hzero | hgive
    · rw [movable, hzero] at h
      omega
    · exact hgive
  have hwidth : 0 < l.width c := by omega
  exact ⟨lt_length_of_width hwidth, by omega⟩

theorem follows_giveFrom {cols : List Nat} {amount rest : Int} (hamount : 0 ≤ amount)
    (h : giveFrom minSafe cols amount l = (l', rest)) : Follows (rest - amount) l l' ∧ 0 ≤ rest ∧ rest ≤ amount := by
  induction cols generalizing amount l with
  | nil =>
    injection h with hl hrest
    rw [← hl, ← hrest, sub_self]
    exact ⟨Follows.refl l, hamount, le_refl _⟩
  | cons c cols ih =>
    rw [giveFrom] at h
    have hmoved : min amount (movable minSafe l c) ≤ movable minSafe l c := min_le_right _ _
    have hnonneg : 0 ≤ min amount (movable minSafe l c) := le_min hamount (le_max_left _ _)
    have htake := follows_take hmoved
    split at h
    · rename_i hall
      injection h with hl hrest
      rw [← hl, ← hrest]
      exact ⟨htake.mono (by omega), le_refl 0, hamount⟩
    · have hleft : 0 ≤ amount - min amount (movable minSafe l c) := sub_nonneg.mpr (min_le_left _ _)
      obtain ⟨hfollows, hrest, hle⟩ := ih hleft h
      exact ⟨(htake.trans hfollows).mono (by omega), hrest, by omega⟩

/-! ## The passes -/

theorem follows_openSpan {headers : List Nat} {s : Span} (hl : ∀ w ∈ l.widths, 0 ≤ w) :
    Follows 0 l (openSpan minSafe headers l s) := by
  unfold openSpan
  split
  · exact Follows.refl l
  · rename_i origin horigin
    split
    · exact Follows.refl l
    · split
      · exact Follows.refl l
      · rename_i donor hdonor
        have hgive : floorOf minSafe donor < l.width donor := by
          have hfound := List.find?_some hdonor
          exact of_decide_eq_true hfound
        have hfloor := floorOf_nonneg minSafe donor
        have htake : Follows (-1) l (l.add donor (-1)) :=
          follows_add fun _ => ⟨lt_length_of_width (lt_of_le_of_lt hfloor hgive), by omega⟩
        have hwidth : 0 ≤ (l.add donor (-1)).width origin := by
          have hall := htake.nonneg hl
          unfold Ledger.width
          by_cases hlt : origin < (l.add donor (-1)).widths.length
          · rw [List.getD_eq_getElem _ _ hlt]
            exact hall _ (List.getElem_mem hlt)
          · rw [List.getD_eq_default _ _ (Nat.le_of_not_lt hlt)]
        have hopen : Follows (1 - (l.add donor (-1)).width origin) (l.add donor (-1))
            ((l.add donor (-1)).add origin (1 - (l.add donor (-1)).width origin)) :=
          follows_add fun hneg => ⟨lt_length_of_width (by omega), by omega⟩
        exact (htake.trans hopen).mono (by omega)

theorem follows_open {headers : List Nat} (spans : List Span) (hl : ∀ w ∈ l.widths, 0 ≤ w) :
    Follows 0 l (spans.foldl (openSpan minSafe headers) l) := by
  induction spans generalizing l with
  | nil => exact Follows.refl l
  | cons s spans ih =>
    have hopen : Follows 0 l (openSpan minSafe headers l s) := follows_openSpan hl
    exact hopen.trans (ih (hopen.nonneg hl))

theorem follows_moveBetween {t : TierState} {donorSpan receiverSpan donor : Nat} {need moved : Int} (hneed : 0 < need)
    (h : t.moveBetween minSafe prefixes donorSpan receiverSpan donor need = some (l', moved)) : Follows 0 t.ledger l' := by
  unfold TierState.moveBetween at h
  dsimp only at h
  split at h
  · injection h with h
    injection h with hl _
    exact hl ▸ Follows.refl _
  · rename_i hsurplus
    split at h
    · cases h
    · have hsame : Follows 0 t.ledger (sortSpan prefixes t.ledger receiverSpan) := by
        unfold sortSpan
        split
        · -- the order of a span's columns is no width
          exact follows_of_widths rfl rfl
        · exact Follows.refl _
      split at h
      · injection h with h
        injection h with hl _
        exact hl ▸ hsame
      · rename_i receiver _ _
        have hamount : 0 ≤ min need (t.surplus donor) := le_min hneed.le (by omega)
        generalize hgiven : giveFrom minSafe _ (min need (t.surplus donor)) _ = given at h
        obtain ⟨hgive, hrest, hle⟩ := follows_giveFrom hamount hgiven
        split at h
        · injection h with h
          injection h with hl _
          exact hl ▸ (hsame.trans hgive).mono (by omega)
        · injection h with h
          injection h with hl _
          have hreceive : Follows _ given.1 (given.1.add receiver _) := follows_give (sub_nonneg.mpr hle)
          exact hl ▸ ((hsame.trans hgive).trans hreceive).mono (by omega)

theorem follows_feed {tier : List Nat} {receiver : Nat} {need : Int} {donors donors' : List Nat} {t t' : TierState}
    (h : feed minSafe prefixes tier receiver need donors t = some (donors', t')) : Follows 0 t.ledger t'.ledger := by
  induction hn : need.toNat + donors.length using Nat.strong_induction_on generalizing need donors t with
  | _ n ih =>
    rw [feed] at h
    split at h
    · rename_i hneed
      split at h
      · injection h with h
        injection h with _ ht
        exact ht ▸ Follows.refl _
      · rename_i donor hdonor
        split at h
        · cases h
        · rename_i l moved hmove
          have hstep := follows_moveBetween hneed hmove
          split at h
          · exact hstep.trans (ih _ (by omega) h rfl)
          · have hmem := firstMax_mem hdonor
            have hpos := List.length_pos_of_mem hmem
            have hshorter : need.toNat + (donors.erase donor).length < n := by
              rw [List.length_erase_of_mem hmem]
              omega
            exact hstep.trans (ih _ hshorter h rfl)
    · injection h with h
      injection h with _ ht
      exact ht ▸ Follows.refl _

theorem follows_feedAll {tier receivers donors : List Nat} {t t' : TierState}
    (h : feedAll minSafe prefixes tier receivers donors t = some t') : Follows 0 t.ledger t'.ledger := by
  induction receivers generalizing donors t with
  | nil =>
    injection h with h
    exact h ▸ Follows.refl _
  | cons receiver receivers ih =>
    rw [feedAll] at h
    split at h
    · cases h
    · rename_i hfeed
      exact (follows_feed hfeed).trans (ih h)

theorem follows_trim (l : Ledger) : Follows 0 l (trim minSafe prefixes budget l) := by
  unfold trim
  dsimp only
  generalize sortedDown l.width (List.range l.widths.length) = cols
  generalize tableWidth budget.columnSpacing l.widths - budget.maxTableWidth = excess
  induction cols generalizing l excess with
  | nil => exact Follows.refl l
  | cons c cols ih =>
    rw [List.foldl_cons]
    split
    · exact ih l excess
    · rename_i hskip
      rw [not_or] at hskip
      have hnonneg : 0 ≤ min excess (movable minSafe l c) := le_min (by omega) (le_max_left _ _)
      have htake := follows_take (min_le_right excess (movable minSafe l c))
      exact (htake.trans (ih _ _)).mono (by omega)

theorem follows_balanceTier {tier : List Nat} (h : balanceTier minSafe prefixes budget tier l = some l') : Follows 0 l l' := by
  unfold balanceTier at h
  dsimp only at h
  split at h
  · injection h with h
    exact h ▸ Follows.refl l
  · split at h
    · injection h with h
      exact h ▸ Follows.refl l
    · obtain ⟨t, hfeed, ht⟩ := Option.map_eq_some_iff.mp h
      rw [← ht]
      exact (follows_feedAll hfeed).trans (follows_trim t.ledger)

theorem follows_cutBands (bands : Nat) (l : Ledger) : Follows 0 l (cutBands bands l) := by
  unfold cutBands
  split
  · rename_i hwide
    have hcut : Follows (38 - l.width 0) l (l.add 0 (38 - l.width 0)) :=
      follows_add fun _ => ⟨lt_length_of_width (by omega), by omega⟩
    exact hcut.mono (by omega)
  · exact Follows.refl l

theorem follows_balanceTiers (h : balanceTiers minSafe prefixes budget l = some l') : Follows 0 l l' :=
  (follows_cutBands _ l).trans (follows_foldlM (fun _ _ _ => follows_balanceTier) h)

theorem follows_fund {receiver : Option Nat} (donors : List Nat) (deficit : Int) (l : Ledger) :
    Follows 0 l (fund minSafe receiver donors deficit l) := by
  induction donors generalizing deficit l with
  | nil => exact Follows.refl l
  | cons donor donors ih =>
    rw [fund]
    split
    · exact Follows.refl l
    · have hnonneg : 0 ≤ min deficit (movable minSafe l donor) := le_min (by omega) (le_max_left _ _)
      have htake := follows_take (min_le_right deficit (movable minSafe l donor))
      cases receiver with
      | none => exact (htake.trans (ih _ _)).mono (by omega)
      | some receiver => exact ((htake.trans (follows_give hnonneg)).trans (ih _ _)).mono (by omega)

theorem follows_fundSpan (headers : List Nat) (l : Ledger) (s : Span) :
    Follows 0 l (fundSpan minSafe prefixes budget headers l s) := by
  unfold fundSpan
  dsimp only
  split
  · exact Follows.refl l
  · exact follows_fund _ _ l

end Giving

/-! ## What sinks -/

section Sinking

def Lowered (values values' : List (Int × Int)) : Prop := List.Forall₂ (fun v v' => v'.1 ≤ v.1 ∧ v'.2 = v.2) values values'

theorem Lowered.refl (values : List (Int × Int)) : Lowered values values := by
  apply List.forall₂_same.mpr
  exact fun v _ => ⟨le_refl _, rfl⟩

theorem Lowered.trans {values values' values'' : List (Int × Int)} (h : Lowered values values') (h' : Lowered values' values'') :
    Lowered values values'' := by
  induction h generalizing values'' with
  | nil =>
    cases h'
    exact List.Forall₂.nil
  | cons hab _ ih =>
    cases h' with
    | cons hbc hrest => exact List.Forall₂.cons ⟨hbc.1.trans hab.1, hbc.2.trans hab.2⟩ (ih hrest)

theorem lower_spec (top : Int) {q : Int} (hq : 0 ≤ q) (r : Nat) (values : List (Int × Int)) :
    Lowered values (lower top q r values) ∧
      (values.map Prod.fst).sum - ((lower top q r values).map Prod.fst).sum =
        q * (values.countP (atTop top) : Int) + (min r (values.countP (atTop top)) : Nat) := by
  induction values generalizing r with
  | nil => exact ⟨List.Forall₂.nil, by simp [lower]⟩
  | cons v rest ih =>
    rw [lower, List.countP_cons]
    split
    · rename_i htop
      obtain ⟨hlowered, hsum⟩ := ih (r - 1)
      refine ⟨List.Forall₂.cons ⟨?_, rfl⟩ hlowered, ?_⟩
      · show v.1 - q - _ ≤ v.1
        split_ifs <;> omega
      · rw [List.map_cons, List.map_cons, List.sum_cons, List.sum_cons]
        push_cast at hsum ⊢
        rw [mul_add, mul_one]
        split_ifs with hr <;> omega
    · rename_i htop
      obtain ⟨hlowered, hsum⟩ := ih r
      refine ⟨List.Forall₂.cons ⟨le_refl _, rfl⟩ hlowered, ?_⟩
      rw [List.map_cons, List.map_cons, List.sum_cons, List.sum_cons, add_zero]
      omega

theorem sink_spec (excess : Int) (values : List (Int × Int)) : Lowered values (sink excess values) ∧
    (values.map Prod.fst).sum - ((sink excess values).map Prod.fst).sum ≤ max 0 excess := by
  induction hn : excess.toNat using Nat.strong_induction_on generalizing excess values with
  | _ n ih =>
    have hsame : (values.map Prod.fst).sum - (values.map Prod.fst).sum ≤ max 0 excess := by
      rw [sub_self]
      exact le_max_left _ _
    rw [sink]
    split
    · rename_i hexcess
      split
      · exact ⟨Lowered.refl values, hsame⟩
      · rename_i top htop
        have hpos := step_pos htop
        have hlt := nextOf_lt htop
        split
        · rename_i hall
          obtain ⟨hlowered, hsum⟩ := lower_spec top (sub_nonneg.mpr hlt.le) 0 values
          obtain ⟨hrest, hrestSum⟩ := ih _ (by omega) (excess - (top - nextOf values top) * (values.countP (atTop top) : Int))
            (lower top (top - nextOf values top) 0 values) rfl
          refine ⟨hlowered.trans hrest, ?_⟩
          rw [Nat.zero_min, Nat.cast_zero, add_zero] at hsum
          omega
        · have hcount : 0 < values.countP (atTop top) := List.countP_pos_iff.mpr (topOf_mem htop)
          have hq : 0 ≤ excess / (values.countP (atTop top) : Int) := Int.ediv_nonneg hexcess.le (by omega)
          obtain ⟨hlowered, hsum⟩ := lower_spec top hq (excess % (values.countP (atTop top) : Int)).toNat values
          refine ⟨hlowered, ?_⟩
          rw [hsum]
          have hdivision := Int.mul_ediv_add_emod excess (values.countP (atTop top) : Int)
          have hmod := Int.emod_nonneg excess (b := (values.countP (atTop top) : Int)) (by omega)
          have hless := Int.emod_lt_of_pos excess (b := (values.countP (atTop top) : Int)) (by omega)
          rw [mul_comm] at hdivision
          omega
    · exact ⟨Lowered.refl values, hsame⟩

theorem follows_grants (requests : List (Nat × Int)) (missing : List (Int × Int))
    (h : Lowered (requests.map fun r => (r.2, 0)) missing) (l : Ledger) :
    Follows ((requests.map Prod.snd).sum - (missing.map Prod.fst).sum) l
      ((requests.zip missing).foldl (fun l e => if 0 < e.1.2 - e.2.1 then l.add e.1.1 (e.1.2 - e.2.1) else l) l) := by
  induction requests generalizing missing l with
  | nil =>
    cases h
    exact Follows.refl l
  | cons r requests ih =>
    cases h with
    | cons hfirst hrest =>
      rename_i m missing
      have hle : m.1 ≤ r.2 := hfirst.1
      have hstep : Follows (r.2 - m.1) l (if 0 < r.2 - m.1 then l.add r.1 (r.2 - m.1) else l) := by
        split
        · exact follows_give (by omega)
        · exact (Follows.refl l).mono (by omega)
      have hgain : ((r :: requests).map Prod.snd).sum - ((m :: missing).map Prod.fst).sum =
          r.2 - m.1 + ((requests.map Prod.snd).sum - (missing.map Prod.fst).sum) := by
        rw [List.map_cons, List.map_cons, List.sum_cons, List.sum_cons]
        omega
      rw [hgain]
      exact hstep.trans (ih missing hrest _)

theorem follows_grantRequests (rules : TextRules) (prefixes : List Nat) (budget : RenderBudget) (l : Ledger) :
    Follows (max 0 (budget.maxTableWidth - tableWidth budget.columnSpacing l.widths)) l (grantRequests rules prefixes budget l) := by
  unfold grantRequests
  dsimp only
  generalize l.spans.filterMap (requestOf rules prefixes budget l) = requests
  generalize budget.maxTableWidth - tableWidth budget.columnSpacing l.widths = available
  obtain ⟨hlowered, hsum⟩ := sink_spec available (requests.map fun r => (r.2, 0))
  have hneeds : (requests.map fun r => (r.2, (0 : Int))).map Prod.fst = requests.map Prod.snd := by
    rw [List.map_map]
    rfl
  rw [hneeds] at hsum
  exact (follows_grants requests _ hlowered l).mono hsum

end Sinking

/-! ## The width of the table -/

section Total
variable {spacing first gain : Int} {before after : List Int}

theorem countP_le_of_shown (hlength : after.length = before.length) (h : ∀ c, 0 < after.getD c 0 → 0 < before.getD c 0) :
    after.countP (fun w => 0 < w) ≤ before.countP (fun w => 0 < w) := by
  induction after generalizing before with
  | nil => exact Nat.zero_le _
  | cons w after ih =>
    cases before with
    | nil => cases hlength
    | cons w' before =>
      have hrest := ih (Nat.succ.inj hlength) fun c hc => h (c + 1) hc
      have hfirst : 0 < w → 0 < w' := h 0
      rw [List.countP_cons, List.countP_cons]
      by_cases hw : 0 < w
      · rw [if_pos (decide_eq_true hw), if_pos (decide_eq_true (hfirst hw))]
        exact Nat.succ_le_succ hrest
      · rw [if_neg (by rw [decide_eq_true_eq]; exact hw)]
        exact hrest.trans (Nat.le_add_right _ _)

theorem tableWidth_le (hlength : after.length = before.length) (hsum : after.sum ≤ before.sum + gain)
    (hkept : Kept spacing first before after) : tableWidth spacing after ≤ tableWidth spacing before + gain := by
  have hspacing : spacing * max 0 ((after.countP fun w => 0 < w : Nat) - 1 : Int) ≤
      spacing * max 0 ((before.countP fun w => 0 < w : Nat) - 1 : Int) := by
    rcases lt_trichotomy spacing 0 with hneg | hzero | hpos
    · have hcount := countP_le_of_shown hlength.symm (hkept.hidden hneg)
      exact Int.mul_le_mul_of_nonpos_left hneg.le (by omega)
    · rw [hzero, zero_mul, zero_mul]
    · have hcount := countP_le_of_shown hlength (hkept.shown hpos)
      exact Int.mul_le_mul_of_nonneg_left (by omega) hpos.le
  unfold tableWidth
  omega

end Total

section Whole
variable {rules : TextRules} {minSafe : Nat → Int} {prefixes : List Nat} {budget : RenderBudget} {grid : Grid}

theorem balanceSpanWidths_spec {widths : List Int} {spans : List Span} {l : Ledger} (hnonneg : ∀ w ∈ widths, 0 ≤ w)
    (h : balanceSpanWidths rules minSafe prefixes budget widths spans = some l) :
    ∃ mid, Follows 0 ⟨widths, spans, []⟩ mid ∧ l = grantRequests rules prefixes budget mid := by
  obtain ⟨balanced, hbalanced, hl⟩ := Option.map_eq_some_iff.mp h
  have hopen : Follows 0 ⟨widths, spans, []⟩
      (spans.foldl (openSpan minSafe (headerColumns widths.length spans)) ⟨widths, spans, []⟩) := follows_open spans hnonneg
  have hfund : Follows 0 balanced
      (balanced.spans.foldl (fundSpan minSafe prefixes budget (headerColumns widths.length spans)) balanced) :=
    follows_foldl (follows_fundSpan _) balanced.spans balanced
  exact ⟨_, (hopen.trans (follows_balanceTiers hbalanced)).trans hfund, hl.symm⟩

theorem balance_within_budget {widths : List Int} {spans : List Span} {l : Ledger} (hnonneg : ∀ w ∈ widths, 0 ≤ w)
    (h : balanceSpanWidths rules minSafe prefixes budget widths spans = some l) :
    (∀ w ∈ l.widths, 0 ≤ w) ∧ ((∀ e ∈ l.changes, e.Sound budget.columnSpacing (widths.getD 0 0)) →
      widths.getD 0 0 ≤ l.widths.getD 0 0 ∧ (tableWidth budget.columnSpacing widths ≤ budget.maxTableWidth →
        tableWidth budget.columnSpacing l.widths ≤ budget.maxTableWidth)) := by
  obtain ⟨mid, hmid, hl⟩ := balanceSpanWidths_spec hnonneg h
  have hgrant := follows_grantRequests rules prefixes budget mid
  rw [← hl] at hgrant
  refine ⟨hgrant.nonneg (hmid.nonneg hnonneg), fun hsound => ?_⟩
  obtain ⟨new, hnew, hkept⟩ := hmid.kept
  obtain ⟨new', hnew', hkept'⟩ := hgrant.kept
  rw [hnew', hnew, List.nil_append] at hsound
  have hfirst := hkept _ _ fun e he => hsound e (List.mem_append_left _ he)
  have hsecond := hkept' _ _ fun e he => hsound e (List.mem_append_right _ he)
  refine ⟨(hfirst.trans hsecond).first (le_refl _), fun hwithin => ?_⟩
  have hbefore := tableWidth_le hmid.length hmid.total hfirst
  have hafter := tableWidth_le hgrant.length hgrant.total hsecond
  rw [add_zero] at hbefore
  have hleft : 0 ≤ budget.maxTableWidth - tableWidth budget.columnSpacing mid.widths := sub_nonneg.mpr (hbefore.trans hwithin)
  rw [max_eq_right hleft] at hafter
  omega

theorem widthsOf_nonneg (widths : List Nat) : ∀ w ∈ widthsOf widths, 0 ≤ w := by
  intro w hw
  obtain ⟨n, -, rfl⟩ := List.mem_map.mp hw
  exact Int.natCast_nonneg n

theorem restoreFirst_of_le {before widths : List Int} (h : before.getD 0 0 ≤ widths.getD 0 0) : restoreFirst before widths = widths := by
  unfold restoreFirst
  split
  · cases widths with
    | nil => rfl
    | cons w widths =>
      have hle : before.getD 0 0 ≤ w := h
      rw [List.modify_zero_cons, max_eq_left hle]
  · rfl

theorem restoreFirst_nonneg {before widths : List Int} (h : ∀ w ∈ widths, 0 ≤ w) : ∀ w ∈ restoreFirst before widths, 0 ≤ w := by
  unfold restoreFirst
  split
  · cases widths with
    | nil => exact h
    | cons w widths =>
      rw [List.modify_zero_cons]
      intro w' hw'
      rcases List.mem_cons.mp hw' with rfl | hrest
      · exact le_max_of_le_left (h w List.mem_cons_self)
      · exact h w' (List.mem_cons_of_mem _ hrest)
  · exact h

def calledWith (rules : TextRules) (budget : RenderBudget) (grid : Grid) : Option Measured :=
  if grid.rows = [] ∨ grid.numCols = 0 ∨ grid.spans = [] then none else measure rules budget grid

/-- No step of the balancing gives width to a hidden column where spacing costs width, none hides a
column where spacing saves some, and none leaves the first column less than it had. -/
def BalancedSoundly (rules : TextRules) (grid : Grid) (m : Measured) : Prop :=
  ∀ l, m.balance rules grid = some l → ∀ e ∈ l.changes, e.Sound m.budget.columnSpacing ((widthsOf m.widths).getD 0 0)

section WithoutSpacing

def lettersAndDigits : TextRules where
  isNumericCell text := text.all Char.isDigit
  wrapCellText text _ := [text]
  normalizeHeaderKey text := text
  isDigit text := text.all Char.isDigit

def longHeader : Grid where
  rows := [["", "Year", "Year", "aaaaa bbbbb ccccc dd"], ["Total", "", "1234567", "7654321"]].map fun row => row.map String.toList
  spans := [⟨0, [1, 2], "Year".toList⟩]

def longHeaderMeasured : Measured := ⟨[5, 0, 7, 20], [5, 14, 7, 16], { columnSpacing := 0 }⟩

theorem longHeader_balance :
    calledWith lettersAndDigits { columnSpacing := 0 } longHeader = some longHeaderMeasured ∧
      computeColumnWidths lettersAndDigits { columnSpacing := 0 } longHeader = some [5, 1, 7, 19] ∧
      longHeaderMeasured.balance lettersAndDigits longHeader =
        some ⟨[5, 1, 7, 19], longHeader.spans, [⟨[5, 0, 7, 20], 3, -1⟩, ⟨[5, 0, 7, 19], 1, 1⟩]⟩ := by decide +kernel

theorem longHeader_sound : BalancedSoundly lettersAndDigits longHeader longHeaderMeasured := by
  intro l hl e he
  rw [longHeader_balance.2.2] at hl
  injection hl with hl
  rw [← hl] at he
  have hfree : ¬ (0 : Int) < longHeaderMeasured.budget.columnSpacing ∧ ¬ longHeaderMeasured.budget.columnSpacing < 0 := by decide
  have hcol : e.col ≠ 0 := by
    rcases List.mem_cons.mp he with rfl | he
    · decide
    · rw [List.mem_singleton.mp he]
      decide
  exact ⟨fun hpos => absurd hpos hfree.1, fun hneg => absurd hneg hfree.2, fun _ hzero => absurd hzero hcol⟩

end WithoutSpacing

end Whole

/-! ### A header over a hidden column -/

section HiddenHeader

def hiddenHeader : Grid where
  rows := [["", "Year", "Year", ""], ["aaaa bbbb cccc dddd eeee ffff gggg hhhh iiii", "", "1234567", "7654321"]].map fun row =>
    row.map String.toList
  spans := [⟨0, [1, 2], "Year".toList⟩]

theorem hiddenHeader_widths :
    calledWith lettersAndDigits { maxTableWidth := 62 } hiddenHeader = some ⟨[44, 0, 7, 7], [38, 14, 7, 7], { maxTableWidth := 62 }⟩ ∧
      computeColumnWidths lettersAndDigits { maxTableWidth := 62 } hiddenHeader = some [44, 1, 7, 7] := by decide +kernel

end HiddenHeader

end EdgarSec.Tables.Widths
