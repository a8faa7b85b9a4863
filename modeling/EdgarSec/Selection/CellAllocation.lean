import EdgarSec.Lib.Bisection
import EdgarSec.Lib.Dict

/-! `equalized_cell_targets`: the budget raises the form/era cells to one level, and what is left
goes to cells at that level, one unit each. -/

namespace EdgarSec.Selection
open Lib

structure FormEraCell where
  form : String
  era : String
  selected : Nat
  available : Nat
  deriving DecidableEq, Repr

abbrev CellKey := String × String

namespace FormEraCell

def key (c : FormEraCell) : CellKey := (c.form, c.era)

def capacity (c : FormEraCell) : Nat := c.selected + c.available

end FormEraCell

open FormEraCell

def entry (d : Dict CellKey Nat) (c : FormEraCell) : Nat := (d.get? c.key).getD 0

/-- `d[key] = f(cell)` for every cell. -/
def assign (f : FormEraCell → Nat) (cells : List FormEraCell) (d : Dict CellKey Nat) : Dict CellKey Nat :=
  cells.foldl (fun d c => d.set c.key (f c)) d

def capacities (cells : List FormEraCell) : Dict CellKey Nat := assign capacity cells Dict.empty

def cost (cells : List FormEraCell) (level : Nat) : Nat :=
  (cells.map fun c => min (entry (capacities cells) c) level - min c.selected level).sum

def addRemainder (caps : Dict CellKey Nat) (low : Nat) :
    List FormEraCell → Dict CellKey Nat → Nat → Dict CellKey Nat
  | [], targets, _ => targets
  | c :: rest, targets, remaining =>
    if remaining = 0 then targets
    else if entry targets c = low ∧ entry targets c < entry caps c then
      addRemainder caps low rest (targets.set c.key (entry targets c + 1)) (remaining - 1)
    else addRemainder caps low rest targets remaining

def equalizedCellTargets (cells : List FormEraCell) (budget : Nat) : Dict CellKey Nat :=
  let targets := assign selected cells Dict.empty
  if budget = 0 ∨ cells = [] then targets
  else
    let caps := capacities cells
    let lowest := ((cells.map selected).min?).getD 0
    let highest := ((caps.items.map Prod.snd).max?).getD 0
    let low := bisect (fun level => decide (cost cells level ≤ budget)) lowest highest
    let targets := assign (fun c => min (entry caps c) (max c.selected low)) cells targets
    let remaining := budget - (cells.map fun c => entry targets c - c.selected).sum
    addRemainder caps low cells targets remaining

/-! ## What a fair allocation is -/

def Received (targets : Dict CellKey Nat) (c : FormEraCell) : Prop := c.selected < entry targets c

def HasCapacity (targets : Dict CellKey Nat) (c : FormEraCell) : Prop := entry targets c < c.capacity

/-- The whole budget is spent as far as the cells hold it, nobody who received anything is more than
one above a cell with capacity, and a lead of one goes to the earlier cell. -/
structure FairOptimum (cells : List FormEraCell) (budget : Nat) (targets : Dict CellKey Nat) : Prop where
  keys : ∀ k, k ∈ targets.keys ↔ k ∈ cells.map key
  bounds : ∀ c ∈ cells, c.selected ≤ entry targets c ∧ entry targets c ≤ c.capacity
  total : (cells.map fun c => entry targets c - c.selected).sum = min budget (cells.map available).sum
  fair : ∀ c ∈ cells, ∀ d ∈ cells, Received targets c → HasCapacity targets d →
    entry targets c ≤ entry targets d + 1
  ties : cells.Pairwise fun c d => Received targets d → HasCapacity targets c →
    entry targets d ≤ entry targets c

/-! ## Assignments -/

section
variable {cells rest : List FormEraCell} {c : FormEraCell} {d caps targets : Dict CellKey Nat}
  {f : FormEraCell → Nat} {low remaining : Nat}

theorem key_ne_of_nodup (hkeys : ((c :: rest).map key).Nodup) {c' : FormEraCell} (h : c' ∈ rest) : c'.key ≠ c.key := by
  intro heq
  have hnot := (List.nodup_cons.mp hkeys).1
  exact hnot (heq ▸ List.mem_map_of_mem h)

theorem entry_set_self (v : Nat) : entry (d.set c.key v) c = v := by
  simp [entry]

theorem entry_set_of_ne {c' : FormEraCell} (v : Nat) (h : c'.key ≠ c.key) : entry (d.set c.key v) c' = entry d c' := by
  simp [entry, h]

theorem get?_assign_of_not_mem {k : CellKey} (h : k ∉ cells.map key) : (assign f cells d).get? k = d.get? k := by
  induction cells generalizing d with
  | nil => rfl
  | cons c rest ih =>
    rw [List.map_cons, List.mem_cons, not_or] at h
    show (assign f rest (d.set c.key (f c))).get? k = d.get? k
    rw [ih h.2, Dict.get?_set, if_neg h.1]

theorem entry_assign (hkeys : (cells.map key).Nodup) (h : c ∈ cells) : entry (assign f cells d) c = f c := by
  induction cells generalizing d with
  | nil => exact absurd h List.not_mem_nil
  | cons c' rest ih =>
    obtain ⟨hnot, hrest⟩ := List.nodup_cons.mp hkeys
    rcases List.mem_cons.mp h with rfl | hmem
    · have hget : (assign f rest (d.set c.key (f c))).get? c.key = (d.set c.key (f c)).get? c.key :=
        get?_assign_of_not_mem hnot
      show ((assign f rest (d.set c.key (f c))).get? c.key).getD 0 = f c
      rw [hget]
      exact entry_set_self (f c)
    · exact ih hrest hmem

theorem mem_keys_set {k k' : CellKey} (v : Nat) : k' ∈ (d.set k v).keys ↔ k' = k ∨ k' ∈ d.keys := by
  have hiff : ∀ e : Dict CellKey Nat, k' ∈ e.keys ↔ (e.get? k').isSome := by
    intro e
    rw [← not_iff_not, ← Dict.get?_eq_none_iff, Option.not_isSome_iff_eq_none]
  rw [hiff, hiff, Dict.get?_set]
  by_cases heq : k' = k
  · simp [heq]
  · simp [heq]

theorem mem_keys_assign {k : CellKey} : k ∈ (assign f cells d).keys ↔ k ∈ cells.map key ∨ k ∈ d.keys := by
  induction cells generalizing d with
  | nil => simp [assign]
  | cons c rest ih =>
    show k ∈ (assign f rest (d.set c.key (f c))).keys ↔ _
    rw [ih, mem_keys_set, List.map_cons, List.mem_cons]
    tauto

theorem entry_capacities (hkeys : (cells.map key).Nodup) (h : c ∈ cells) : entry (capacities cells) c = c.capacity :=
  entry_assign hkeys h

/-! ## The remainder -/

theorem mem_keys_addRemainder {k : CellKey} (hsub : ∀ c ∈ rest, c.key ∈ targets.keys) :
    k ∈ (addRemainder caps low rest targets remaining).keys ↔ k ∈ targets.keys := by
  induction rest generalizing targets remaining with
  | nil => rfl
  | cons c rest ih =>
    have hrest : ∀ c ∈ rest, c.key ∈ targets.keys := fun c' hc' => hsub c' (List.mem_cons_of_mem _ hc')
    rw [addRemainder]
    by_cases hzero : remaining = 0
    · rw [if_pos hzero]
    · rw [if_neg hzero]
      by_cases hhere : entry targets c = low ∧ entry targets c < entry caps c
      · rw [if_pos hhere, ih, mem_keys_set]
        · constructor
          · rintro (rfl | hk)
            · exact hsub c List.mem_cons_self
            · exact hk
          · exact Or.inr
        · intro c' hc'
          exact (mem_keys_set _).mpr (Or.inr (hrest c' hc'))
      · rw [if_neg hhere, ih hrest]

theorem entry_addRemainder_of_not_mem (h : c.key ∉ rest.map key) :
    entry (addRemainder caps low rest targets remaining) c = entry targets c := by
  induction rest generalizing targets remaining with
  | nil => rfl
  | cons c' rest ih =>
    rw [List.map_cons, List.mem_cons, not_or] at h
    rw [addRemainder]
    by_cases hzero : remaining = 0
    · rw [if_pos hzero]
    · rw [if_neg hzero]
      by_cases hhere : entry targets c' = low ∧ entry targets c' < entry caps c'
      · rw [if_pos hhere, ih h.2, entry_set_of_ne _ h.1]
      · rw [if_neg hhere, ih h.2]

def Eligible (caps : Dict CellKey Nat) (low : Nat) (targets : Dict CellKey Nat) (c : FormEraCell) : Bool :=
  decide (entry targets c = low ∧ entry targets c < entry caps c)

theorem addRemainder_spec (hkeys : (rest.map key).Nodup) :
    (∀ c ∈ rest, entry (addRemainder caps low rest targets remaining) c = entry targets c ∨
      (Eligible caps low targets c = true ∧
        entry (addRemainder caps low rest targets remaining) c = entry targets c + 1)) ∧
    (rest.Pairwise fun c d =>
      entry (addRemainder caps low rest targets remaining) d ≠ entry targets d → Eligible caps low targets c = true →
        entry (addRemainder caps low rest targets remaining) c = entry targets c + 1) ∧
    (rest.map (entry (addRemainder caps low rest targets remaining))).sum =
      (rest.map (entry targets)).sum + min remaining (rest.countP (Eligible caps low targets)) := by
  induction rest generalizing targets remaining with
  | nil => simp
  | cons c rest ih =>
    obtain ⟨hnot, hrest⟩ := List.nodup_cons.mp hkeys
    have hne : ∀ c' ∈ rest, c'.key ≠ c.key := fun c' hc' => key_ne_of_nodup hkeys hc'
    rw [addRemainder]
    by_cases hzero : remaining = 0
    · rw [if_pos hzero]
      refine ⟨fun c' _ => Or.inl rfl, ?_, by simp [hzero]⟩
      exact List.pairwise_of_forall fun _ _ hserved => absurd rfl hserved
    · rw [if_neg hzero]
      by_cases hhere : entry targets c = low ∧ entry targets c < entry caps c
      · rw [if_pos hhere]
        have helig : Eligible caps low targets c = true := decide_eq_true hhere
        -- the later cells see the targets they had before
        have hsame : ∀ c' ∈ rest, entry (targets.set c.key (entry targets c + 1)) c' = entry targets c' :=
          fun c' hc' => entry_set_of_ne _ (hne c' hc')
        have heligible : ∀ c' ∈ rest, Eligible caps low (targets.set c.key (entry targets c + 1)) c' =
            Eligible caps low targets c' := by
          intro c' hc'
          rw [Eligible, Eligible, hsame c' hc']
        obtain ⟨hone, hpair, hsum⟩ := @ih (targets.set c.key (entry targets c + 1)) (remaining - 1) hrest
        have hself : entry (addRemainder caps low rest (targets.set c.key (entry targets c + 1)) (remaining - 1)) c =
            entry targets c + 1 := by
          rw [entry_addRemainder_of_not_mem hnot, entry_set_self]
        refine ⟨?_, ?_, ?_⟩
        · intro c' hc'
          rcases List.mem_cons.mp hc' with rfl | hmem
          · exact Or.inr ⟨helig, hself⟩
          · have hcase := hone c' hmem
            rwa [hsame c' hmem, heligible c' hmem] at hcase
        · refine List.Pairwise.cons (fun c' _ _ _ => hself) ?_
          refine hpair.imp_of_mem ?_
          intro a b ha hb hab hserved hel
          rw [hsame b hb, heligible a ha, hsame a ha] at hab
          exact hab hserved hel
        · rw [List.map_cons, List.sum_cons, hself, hsum, List.map_congr_left hsame, List.countP_congr
            (fun c' hc' => by rw [heligible c' hc']), List.map_cons, List.sum_cons, List.countP_cons_of_pos helig]
          omega
      · rw [if_neg hhere]
        have helig : Eligible caps low targets c = false := decide_eq_false hhere
        obtain ⟨hone, hpair, hsum⟩ := @ih targets remaining hrest
        have hself : entry (addRemainder caps low rest targets remaining) c = entry targets c :=
          entry_addRemainder_of_not_mem hnot
        refine ⟨?_, ?_, ?_⟩
        · intro c' hc'
          rcases List.mem_cons.mp hc' with rfl | hmem
          · exact Or.inl hself
          · exact hone c' hmem
        · refine List.Pairwise.cons ?_ hpair
          intro c' _ _ hel
          rw [helig] at hel
          exact absurd hel Bool.false_ne_true
        · rw [List.map_cons, List.sum_cons, hself, hsum, List.map_cons, List.sum_cons,
            List.countP_cons_of_neg (by rw [helig]; exact Bool.false_ne_true)]
          omega

end

/-! ## The level -/

section
variable {cells : List FormEraCell} {c : FormEraCell} {level : Nat}

def raised (level : Nat) (c : FormEraCell) : Nat := min c.capacity (max c.selected level)

theorem cost_eq (hkeys : (cells.map key).Nodup) (level : Nat) :
    cost cells level = (cells.map fun c => raised level c - c.selected).sum := by
  have hcell : ∀ c ∈ cells, min (entry (capacities cells) c) level - min c.selected level =
      raised level c - c.selected := by
    intro c hc
    rw [entry_capacities hkeys hc, raised, capacity]
    omega
  rw [cost, List.map_congr_left hcell]

theorem cost_mono (hkeys : (cells.map key).Nodup) {m n : Nat} (h : m ≤ n) : cost cells m ≤ cost cells n := by
  rw [cost_eq hkeys, cost_eq hkeys]
  apply List.sum_le_sum
  intro c _
  rw [raised, raised]
  omega

theorem cost_le_available (hkeys : (cells.map key).Nodup) : cost cells level ≤ (cells.map available).sum := by
  rw [cost_eq hkeys]
  apply List.sum_le_sum
  intro c _
  rw [raised, capacity]
  omega

theorem cost_succ (hkeys : (cells.map key).Nodup) :
    cost cells (level + 1) =
      cost cells level + cells.countP fun c => decide (raised level c = level ∧ raised level c < c.capacity) := by
  rw [cost_eq hkeys, cost_eq hkeys]
  clear hkeys
  induction cells with
  | nil => rfl
  | cons c rest ih =>
    rw [List.map_cons, List.map_cons, List.sum_cons, List.sum_cons, ih, List.countP_cons]
    by_cases hat : raised level c = level ∧ raised level c < c.capacity
    · rw [if_pos (decide_eq_true hat)]
      have hstep : raised (level + 1) c - c.selected = raised level c - c.selected + 1 := by
        rw [raised, raised] at *
        rw [capacity] at *
        omega
      omega
    · rw [if_neg (fun h => hat (of_decide_eq_true h))]
      have hstep : raised (level + 1) c - c.selected = raised level c - c.selected := by
        rw [raised, raised] at *
        rw [capacity] at *
        omega
      omega

theorem le_highest (hkeys : (cells.map key).Nodup) (hc : c ∈ cells) :
    c.capacity ≤ (((capacities cells).items.map Prod.snd).max?).getD 0 := by
  have hentry := entry_capacities hkeys hc
  cases hget : (capacities cells).get? c.key with
  | none =>
    have hmem : c.key ∈ (capacities cells).keys := mem_keys_assign.mpr (Or.inl (List.mem_map_of_mem hc))
    exact absurd hmem (Dict.get?_eq_none_iff.mp hget)
  | some v =>
    rw [entry, hget, Option.getD_some] at hentry
    rw [← hentry]
    have hmem : v ∈ (capacities cells).items.map Prod.snd :=
      List.mem_map.mpr ⟨(c.key, v), Dict.get?_eq_some_iff.mp hget, rfl⟩
    cases hmax : ((capacities cells).items.map Prod.snd).max? with
    | none =>
      rw [List.max?_eq_none_iff] at hmax
      rw [hmax] at hmem
      exact absurd hmem List.not_mem_nil
    | some m => exact (List.max?_eq_some_iff.mp hmax).2 v hmem

theorem lowest_le (hc : c ∈ cells) : ((cells.map selected).min?).getD 0 ≤ c.selected := by
  cases hmin : (cells.map selected).min? with
  | none =>
    rw [List.min?_eq_none_iff, List.map_eq_nil_iff] at hmin
    rw [hmin] at hc
    exact absurd hc List.not_mem_nil
  | some m => exact (List.min?_eq_some_iff.mp hmin).2 _ (List.mem_map_of_mem hc)

theorem sum_map_sub {f g : FormEraCell → Nat} (h : ∀ c ∈ cells, g c ≤ f c) :
    (cells.map fun c => f c - g c).sum + (cells.map g).sum = (cells.map f).sum := by
  induction cells with
  | nil => rfl
  | cons c rest ih =>
    have hrest := ih fun c' hc' => h c' (List.mem_cons_of_mem _ hc')
    have hc := h c List.mem_cons_self
    simp only [List.map_cons, List.sum_cons]
    omega

end

/-! ## The allocation -/

theorem equalizedCellTargets_fairOptimum (cells : List FormEraCell) (budget : Nat)
    (hkeys : (cells.map key).Nodup) : FairOptimum cells budget (equalizedCellTargets cells budget) := by
  have hstart : ∀ c ∈ cells, entry (assign selected cells Dict.empty) c = c.selected :=
    fun c hc => entry_assign hkeys hc
  have hstartKeys : ∀ k, k ∈ (assign selected cells Dict.empty).keys ↔ k ∈ cells.map key := by
    intro k
    rw [mem_keys_assign]
    exact or_iff_left List.not_mem_nil
  rw [equalizedCellTargets]
  by_cases hdone : budget = 0 ∨ cells = []
  · rw [if_pos hdone]
    have hzero : (cells.map fun c => entry (assign selected cells Dict.empty) c - c.selected).sum = 0 := by
      rw [List.sum_eq_zero_iff]
      intro n hn
      obtain ⟨c, hc, rfl⟩ := List.mem_map.mp hn
      rw [hstart c hc, Nat.sub_self]
    refine ⟨hstartKeys, ?_, ?_, ?_, ?_⟩
    · intro c hc
      rw [hstart c hc, capacity]
      omega
    · rw [hzero]
      rcases hdone with rfl | rfl
      · exact (Nat.zero_min _).symm
      · simp
    · intro c hc d _ hreceived
      rw [Received, hstart c hc] at hreceived
      exact absurd hreceived (lt_irrefl _)
    · refine List.Pairwise.imp_of_mem ?_ (List.pairwise_of_forall (R := fun _ _ => True) fun _ _ => trivial)
      intro c d _ hd _ hreceived
      rw [Received, hstart d hd] at hreceived
      exact absurd hreceived (lt_irrefl _)
  · rw [if_neg hdone]
    obtain ⟨-, hne⟩ := not_or.mp hdone
    obtain ⟨c₀, hc₀⟩ := List.exists_mem_of_ne_nil cells hne
    -- the level that the bisection finds
    have hlevels := (lowest_le hc₀).trans (Nat.le_add_right _ c₀.available |>.trans (le_highest hkeys hc₀))
    have hfree : cost cells (((cells.map selected).min?).getD 0) = 0 := by
      rw [cost_eq hkeys, List.sum_eq_zero_iff]
      intro n hn
      obtain ⟨c, hc, rfl⟩ := List.mem_map.mp hn
      have hle := lowest_le hc
      rw [raised, capacity]
      omega
    obtain ⟨-, hhigh, hcost⟩ := bisect_spec (p := fun level => decide (cost cells level ≤ budget)) hlevels
      (decide_eq_true (hfree.trans_le (Nat.zero_le budget)))
    have hsucc := @bisect_succ (fun level => decide (cost cells level ≤ budget))
      (((cells.map selected).min?).getD 0) ((((capacities cells).items.map Prod.snd).max?).getD 0)
      (fun m n hmn hn => decide_eq_true ((cost_mono hkeys hmn).trans (of_decide_eq_true hn)))
    simp only
    generalize bisect (fun level => decide (cost cells level ≤ budget)) (((cells.map selected).min?).getD 0)
      ((((capacities cells).items.map Prod.snd).max?).getD 0) = low at *
    have hcost := of_decide_eq_true hcost
    -- every cell is at its level before the remainder is given away
    set targets := assign (fun c => min (entry (capacities cells) c) (max c.selected low)) cells
      (assign selected cells Dict.empty) with htargets
    have hbase : ∀ c ∈ cells, entry targets c = raised low c := by
      intro c hc
      rw [htargets, entry_assign hkeys hc, entry_capacities hkeys hc, raised]
    have hspent : (cells.map fun c => entry targets c - c.selected).sum = cost cells low := by
      rw [cost_eq hkeys]
      exact congrArg List.sum (List.map_congr_left fun c hc => by rw [hbase c hc])
    have hkeysTargets : ∀ k, k ∈ targets.keys ↔ k ∈ cells.map key := by
      intro k
      rw [htargets, mem_keys_assign, hstartKeys, or_self]
    have helig : ∀ c ∈ cells, Eligible (capacities cells) low targets c =
        decide (raised low c = low ∧ raised low c < c.capacity) := by
      intro c hc
      rw [Eligible, hbase c hc, entry_capacities hkeys hc]
    rw [hspent]
    obtain ⟨hone, hpair, hsum⟩ := @addRemainder_spec cells (capacities cells) targets low (budget - cost cells low) hkeys
    set final := addRemainder (capacities cells) low cells targets (budget - cost cells low) with hfinal
    have hcell : ∀ c ∈ cells, entry final c = raised low c ∨
        ((raised low c = low ∧ raised low c < c.capacity) ∧ entry final c = raised low c + 1) := by
      intro c hc
      have hcase := hone c hc
      rw [helig c hc, hbase c hc] at hcase
      exact hcase.imp_right fun h => ⟨of_decide_eq_true h.1, h.2⟩
    have hbounds : ∀ c ∈ cells, c.selected ≤ entry final c ∧ entry final c ≤ c.capacity := by
      intro c hc
      have hcase := hcell c hc
      rw [raised, capacity] at *
      omega
    refine ⟨?_, hbounds, ?_, ?_, ?_⟩
    · intro k
      rw [hfinal, mem_keys_addRemainder, hkeysTargets]
      intro c hc
      exact (hkeysTargets _).mpr (List.mem_map_of_mem hc)
    · -- either the level takes in all that is available, or the next level is too expensive
      have hadded := sum_map_sub (f := entry final) (g := selected) fun c hc => (hbounds c hc).1
      have hbefore := sum_map_sub (f := entry targets) (g := selected) fun c hc => by
        rw [hbase c hc, raised, capacity]
        omega
      rw [hspent] at hbefore
      rw [List.countP_congr fun c hc => by rw [helig c hc]] at hsum
      have hnext := @cost_succ cells low hkeys
      have hmost := @cost_le_available cells low hkeys
      have hmost' := @cost_le_available cells (low + 1) hkeys
      by_cases htop : low < (((capacities cells).items.map Prod.snd).max?).getD 0
      · have hover := of_decide_eq_false (hsucc htop)
        omega
      · have hall : cost cells low = (cells.map available).sum := by
          rw [cost_eq hkeys]
          refine congrArg List.sum (List.map_congr_left fun c hc => ?_)
          have hle := le_highest hkeys hc
          rw [raised]
          rw [capacity] at *
          omega
        omega
    · intro c hc d hd hreceived hcapacity
      have hc' := hcell c hc
      have hd' := hcell d hd
      rw [Received] at hreceived
      rw [HasCapacity] at hcapacity
      rw [raised, capacity] at *
      omega
    · refine hpair.imp_of_mem ?_
      intro c d hc hd hgiven hreceived hcapacity
      have hc' := hcell c hc
      have hd' := hcell d hd
      rw [helig c hc, hbase c hc, hbase d hd, decide_eq_true_eq] at hgiven
      rw [Received] at hreceived
      rw [HasCapacity] at hcapacity
      by_contra hless
      -- the later cell was given a unit at the level, so the earlier one was given one as well
      have hserved := hgiven (by
        rw [raised, capacity] at *
        omega) (by
        rw [raised, capacity] at *
        omega)
      rw [raised, capacity] at *
      omega

theorem equalizedCellTargets_fairOptimum_two :
    FairOptimum [⟨"10-K", "2000s", 1, 4⟩, ⟨"10-Q", "2000s", 3, 2⟩] 5
      (equalizedCellTargets [⟨"10-K", "2000s", 1, 4⟩, ⟨"10-Q", "2000s", 3, 2⟩] 5) :=
  equalizedCellTargets_fairOptimum _ 5 (by decide)

end EdgarSec.Selection
