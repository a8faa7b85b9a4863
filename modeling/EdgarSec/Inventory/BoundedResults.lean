import EdgarSec.Inventory.Progress

/-! `_bounded_results`: a window of futures over the items of a chunk, and what a broken pool or
a stop leaves of them. -/

namespace EdgarSec.Inventory

/-! ## Futures -/

inductive FutureOutcome (item : IndexWorkItem) where
  | result (r : WorkerResult) (own : r.accession = item.accession)
  | raised (detail : String)

/-- `IndexWorkerFailure(item.accession, "worker_error", detail)` -/
def workerError (item : IndexWorkItem) (detail : String) : WorkerResult :=
  .indexWorkerFailure item.accession detail .index

def FutureOutcome.answer {item : IndexWorkItem} : FutureOutcome item → WorkerResult
  | result r _ => r
  | raised detail => workerError item detail

theorem FutureOutcome.accession_answer {item : IndexWorkItem} (o : FutureOutcome item) :
    o.answer.accession = item.accession := by
  cases o with
  | result r own => exact own
  | raised detail => rfl

abbrev Done := (item : IndexWorkItem) × FutureOutcome item

/-! ## The generator -/

inductive Stage where
  | sequential
  | submitting (left : Nat)
  | failing (detail : String)
  | waiting
  | draining (done : List Done) (freed : Nat)
  | finished

structure Window where
  stage : Stage
  source : List IndexWorkItem
  inFlight : List IndexWorkItem
  answered : List (IndexWorkItem × WorkerResult)

/-- The generator before its first result; `pool` says whether it has one. -/
def Window.start (items : List IndexWorkItem) (workers : Int) (pool : Bool) : Window where
  stage := if pool then .submitting (max 1 workers).toNat else .sequential
  source := items
  inFlight := []
  answered := []

inductive Step : Window → Bool → Window → Prop where
  | serialStop {item source inFlight answered} :
      Step ⟨.sequential, item :: source, inFlight, answered⟩ true
        ⟨.finished, source, inFlight, answered⟩
  | serialEnd {inFlight answered} :
      Step ⟨.sequential, [], inFlight, answered⟩ false ⟨.finished, [], inFlight, answered⟩
  | serialRun {item source inFlight answered} (r : WorkerResult) (own : r.accession = item.accession) :
      Step ⟨.sequential, item :: source, inFlight, answered⟩ false
        ⟨.sequential, source, inFlight, answered ++ [(item, r)]⟩
  | submitEnd {source inFlight answered} :
      Step ⟨.submitting 0, source, inFlight, answered⟩ false ⟨.waiting, source, inFlight, answered⟩
  | submitStop {left source inFlight answered} :
      Step ⟨.submitting (left + 1), source, inFlight, answered⟩ true
        ⟨.waiting, source, inFlight, answered⟩
  | submitExhausted {left inFlight answered} :
      Step ⟨.submitting (left + 1), [], inFlight, answered⟩ false ⟨.waiting, [], inFlight, answered⟩
  | submit {left item source inFlight answered} :
      Step ⟨.submitting (left + 1), item :: source, inFlight, answered⟩ false
        ⟨.submitting left, source, inFlight ++ [item], answered⟩
  | submitBroken {left item source inFlight answered} (detail : String) :
      Step ⟨.submitting (left + 1), item :: source, inFlight, answered⟩ false
        ⟨.failing detail, source, inFlight, answered ++ [(item, workerError item detail)]⟩
  | failEnd {detail inFlight answered} :
      Step ⟨.failing detail, [], inFlight, answered⟩ false ⟨.waiting, [], inFlight, answered⟩
  -- the item at which the stop is seen has left the source
  | failStop {detail item source inFlight answered} :
      Step ⟨.failing detail, item :: source, inFlight, answered⟩ true
        ⟨.waiting, source, inFlight, answered⟩
  | fail {detail item source inFlight answered} :
      Step ⟨.failing detail, item :: source, inFlight, answered⟩ false
        ⟨.failing detail, source, inFlight, answered ++ [(item, workerError item detail)]⟩
  | finish {source answered} :
      Step ⟨.waiting, source, [], answered⟩ false ⟨.finished, source, [], answered⟩
  | wait {source inFlight pending answered} {done : List Done} (hdone : done ≠ [])
      (h : inFlight.Perm (done.map Sigma.fst ++ pending)) :
      Step ⟨.waiting, source, inFlight, answered⟩ false
        ⟨.draining done done.length, source, done.map Sigma.fst ++ pending, answered⟩
  | drain {d : Done} {done freed source inFlight answered} :
      Step ⟨.draining (d :: done) freed, source, d.1 :: inFlight, answered⟩ false
        ⟨.draining done freed, source, inFlight, answered ++ [(d.1, d.2.answer)]⟩
  | drained {freed source inFlight answered} :
      Step ⟨.draining [] freed, source, inFlight, answered⟩ false
        ⟨.submitting freed, source, inFlight, answered⟩

inductive Steps (start : Window) : List Bool → Window → Prop where
  | nil : Steps start [] start
  | concat {log : List Bool} {stopped : Bool} {w w' : Window} (h : Steps start log w)
      (step : Step w stopped w') : Steps start (log ++ [stopped]) w'

variable {items : List IndexWorkItem} {w w' : Window} {stopped : Bool} {log : List Bool} {limit : Nat}

/-! ## Every item has one place -/

def Window.placed (w : Window) : List IndexWorkItem :=
  w.answered.map Prod.fst ++ (w.inFlight ++ w.source)

theorem placed_answer {stage stage' : Stage} {item : IndexWorkItem} {r : WorkerResult}
    {source inFlight : List IndexWorkItem} {answered : List (IndexWorkItem × WorkerResult)} :
    (Window.mk stage source inFlight (answered ++ [(item, r)])).placed.Perm
      (Window.mk stage' (item :: source) inFlight answered).placed := by
  simp only [Window.placed, List.map_append, List.map_cons, List.map_nil, List.append_assoc]
  apply List.Perm.append_left
  rw [List.singleton_append]
  exact List.perm_middle.symm

theorem Step.placed (h : Step w stopped w') : w'.placed.Subperm w.placed ∧
    (stopped = false → w'.placed.Perm w.placed) := by
  have hall : w'.placed.Perm w.placed → w'.placed.Subperm w.placed ∧
      (stopped = false → w'.placed.Perm w.placed) := fun hperm => ⟨hperm.subperm, fun _ => hperm⟩
  cases h with
  | serialStop =>
    refine ⟨List.Sublist.subperm ?_, fun hfalse => by cases hfalse⟩
    exact ((List.sublist_cons_self _ _).append_left _).append_left _
  | serialEnd => exact hall (List.Perm.refl _)
  | serialRun r own => exact hall placed_answer
  | submitEnd => exact hall (List.Perm.refl _)
  | submitStop => exact hall (List.Perm.refl _)
  | submitExhausted => exact hall (List.Perm.refl _)
  | submit =>
    apply hall
    simp [Window.placed]
  | submitBroken detail => exact hall placed_answer
  | failEnd => exact hall (List.Perm.refl _)
  | failStop =>
    refine ⟨List.Sublist.subperm ?_, fun hfalse => by cases hfalse⟩
    exact ((List.sublist_cons_self _ _).append_left _).append_left _
  | fail => exact hall placed_answer
  | finish => exact hall (List.Perm.refl _)
  | wait hdone hperm => exact hall ((hperm.symm.append_right _).append_left _)
  | drain =>
    apply hall
    simp [Window.placed]
  | drained => exact hall (List.Perm.refl _)

theorem Step.own (h : Step w stopped w') (hown : ∀ a ∈ w.answered, a.2.accession = a.1.accession) :
    ∀ a ∈ w'.answered, a.2.accession = a.1.accession := by
  have hmore : ∀ {answered : List (IndexWorkItem × WorkerResult)} {item : IndexWorkItem}
      {r : WorkerResult}, (∀ a ∈ answered, a.2.accession = a.1.accession) →
      r.accession = item.accession →
      ∀ a ∈ answered ++ [(item, r)], a.2.accession = a.1.accession := by
    intro answered item r hanswered hr a ha
    rcases List.mem_append.mp ha with ha | ha
    · exact hanswered a ha
    · obtain rfl := List.mem_singleton.mp ha
      exact hr
  cases h with
  | serialRun r own => exact hmore hown own
  | submitBroken detail => exact hmore hown rfl
  | fail => exact hmore hown rfl
  | @drain d => exact hmore hown d.2.accession_answer
  | serialStop => exact hown
  | serialEnd => exact hown
  | submitEnd => exact hown
  | submitStop => exact hown
  | submitExhausted => exact hown
  | submit => exact hown
  | failEnd => exact hown
  | failStop => exact hown
  | finish => exact hown
  | wait hdone hperm => exact hown
  | drained => exact hown

/-! ## The width of the window -/

def Window.Narrow (limit : Nat) (w : Window) : Prop :=
  match w.stage with
  | .submitting left => w.inFlight.length + left ≤ limit
  | .draining done freed => w.inFlight.length + freed ≤ limit + done.length ∧
      w.inFlight.length ≤ limit ∧ ∃ pending, w.inFlight = done.map Sigma.fst ++ pending
  | _ => w.inFlight.length ≤ limit

theorem Window.Narrow.length_le (h : w.Narrow limit) : w.inFlight.length ≤ limit := by
  unfold Window.Narrow at h
  cases hstage : w.stage with
  | submitting left =>
    rw [hstage] at h
    exact le_trans (Nat.le_add_right _ _) h
  | draining done freed =>
    rw [hstage] at h
    exact h.2.1
  | sequential => rwa [hstage] at h
  | failing detail => rwa [hstage] at h
  | waiting => rwa [hstage] at h
  | finished => rwa [hstage] at h

theorem Step.narrow (h : Step w stopped w') (hw : w.Narrow limit) : w'.Narrow limit := by
  cases h with
  | serialStop => exact hw
  | serialEnd => exact hw
  | serialRun r own => exact hw
  | submitEnd => exact hw
  | submitStop => exact hw.length_le
  | submitExhausted => exact hw.length_le
  | submit =>
    simp only [Window.Narrow, List.length_append, List.length_singleton] at hw ⊢
    omega
  | submitBroken detail => exact hw.length_le
  | failEnd => exact hw
  | failStop => exact hw
  | fail => exact hw
  | finish => exact hw
  | wait hdone hperm =>
    have hlength := hperm.length_eq
    simp only [Window.Narrow] at hw ⊢
    exact ⟨by omega, by omega, _, rfl⟩
  | drain =>
    obtain ⟨hroom, hle, pending, hpending⟩ := hw
    simp only [List.length_cons] at hroom hle
    refine ⟨by simp only; omega, by simp only; omega, pending, ?_⟩
    rw [List.map_cons, List.cons_append] at hpending
    exact (List.cons.inj hpending).2
  | drained =>
    obtain ⟨hroom, -⟩ := hw
    simpa [Window.Narrow] using hroom

/-! ## Nothing is left over -/

def Window.Pending (w : Window) : Prop :=
  match w.stage with
  | .sequential => w.inFlight = []
  | .submitting left => w.source = [] ∨ 0 < left ∨ w.inFlight ≠ []
  | .failing _ => True
  | .waiting => w.source = [] ∨ w.inFlight ≠ []
  | .draining _ freed => 0 < freed
  | .finished => w.source = [] ∧ w.inFlight = []

theorem Step.pending (h : Step w false w') (hw : w.Pending) : w'.Pending := by
  cases h with
  | serialEnd => exact ⟨rfl, hw⟩
  | serialRun r own => exact hw
  | submitEnd =>
    rcases hw with hnone | hleft | hsome
    · exact Or.inl hnone
    · exact absurd hleft (Nat.lt_irrefl 0)
    · exact Or.inr hsome
  | submitExhausted => exact Or.inl rfl
  | submit => exact Or.inr (Or.inr (by simp))
  | submitBroken detail => trivial
  | failEnd => exact Or.inl rfl
  | fail => trivial
  | finish =>
    rcases hw with hnone | hsome
    · exact ⟨hnone, rfl⟩
    · exact absurd rfl hsome
  | wait hdone hperm => exact List.length_pos_iff.mpr hdone
  | drain => exact hw
  | drained => exact Or.inr (Or.inl hw)

/-! ## The end -/

def Window.fuel (w : Window) : Nat :=
  match w.stage with
  | .sequential => 6 * w.source.length + 2
  | .submitting _ => 6 * w.source.length + 4 * w.inFlight.length + 2
  | .failing _ => 6 * w.source.length + 4 * w.inFlight.length + 2
  | .waiting => 6 * w.source.length + 4 * w.inFlight.length + 1
  | .draining done _ =>
    6 * w.source.length + 4 * (w.inFlight.length - done.length) + done.length + 3
  | .finished => 0

theorem Step.fuel_lt (h : Step w stopped w') (hw : w.Narrow limit) : w'.fuel < w.fuel := by
  cases h with
  | wait hdone hperm =>
    have hlength := hperm.length_eq
    have hpos := List.length_pos_iff.mpr hdone
    simp only [Window.fuel, List.length_append, List.length_map] at hlength ⊢
    omega
  | drain =>
    simp only [Window.fuel, List.length_cons]
    omega
  | serialStop => simp only [Window.fuel, List.length_cons]; omega
  | serialEnd => simp only [Window.fuel]; omega
  | serialRun r own => simp only [Window.fuel, List.length_cons]; omega
  | submitEnd => simp only [Window.fuel]; omega
  | submitStop => simp only [Window.fuel]; omega
  | submitExhausted => simp only [Window.fuel]; omega
  | submit => simp only [Window.fuel, List.length_cons, List.length_append, List.length_nil]; omega
  | submitBroken detail => simp only [Window.fuel, List.length_cons]; omega
  | failEnd => simp only [Window.fuel]; omega
  | failStop => simp only [Window.fuel, List.length_cons]; omega
  | fail => simp only [Window.fuel, List.length_cons]; omega
  | finish => simp only [Window.fuel]; omega
  | drained => simp only [Window.fuel, List.length_nil]; omega

theorem Window.Narrow.exists_step (hw : w.Narrow limit) (h : w.stage ≠ .finished) :
    ∃ w', Step w false w' := by
  obtain ⟨stage, source, inFlight, answered⟩ := w
  cases stage with
  | sequential =>
    cases source with
    | nil => exact ⟨_, .serialEnd⟩
    | cons item source => exact ⟨_, .serialRun (workerError item "") rfl⟩
  | submitting left =>
    cases left with
    | zero => exact ⟨_, .submitEnd⟩
    | succ left =>
      cases source with
      | nil => exact ⟨_, .submitExhausted⟩
      | cons item source => exact ⟨_, .submit⟩
  | failing detail =>
    cases source with
    | nil => exact ⟨_, .failEnd⟩
    | cons item source => exact ⟨_, .fail⟩
  | waiting =>
    cases inFlight with
    | nil => exact ⟨_, .finish⟩
    | cons item inFlight =>
      exact ⟨_, @Step.wait _ _ inFlight _ [⟨item, .raised ""⟩] (List.cons_ne_nil _ _)
        (List.Perm.refl _)⟩
  | draining done freed =>
    cases done with
    | nil => exact ⟨_, .drained⟩
    | cons d done =>
      obtain ⟨-, -, pending, hpending⟩ := hw
      obtain rfl : inFlight = d.1 :: (done.map Sigma.fst ++ pending) := hpending
      exact ⟨_, .drain⟩
  | finished => exact absurd rfl h

/-! ## Whole runs -/

structure AnsweredOnce (items : List IndexWorkItem) (workers : Int) (log : List Bool) (w : Window) :
    Prop where
  width : (w.inFlight.length : Int) ≤ max 1 workers
  atMostOnce : (w.answered.map Prod.fst).Subperm items
  own : ∀ a ∈ w.answered, a.2.accession = a.1.accession
  exactlyOnce : true ∉ log → w.stage = .finished → (w.answered.map Prod.fst).Perm items
  ends : log.length ≤ 6 * items.length + 2
  goesOn : w.stage ≠ .finished → ∃ w', Step w false w'

theorem Steps.narrow {start : Window} (h : Steps start log w) (hstart : start.Narrow limit) :
    w.Narrow limit ∧ log.length + w.fuel ≤ start.fuel := by
  induction h with
  | nil => exact ⟨hstart, by simp⟩
  | concat _ step ih =>
    have hfuel := step.fuel_lt ih.1
    rw [List.length_append, List.length_singleton]
    exact ⟨step.narrow ih.1, by omega⟩

theorem Steps.placed {start : Window} (h : Steps start log w) : w.placed.Subperm start.placed ∧
    (true ∉ log → w.placed.Perm start.placed) := by
  induction h with
  | nil => exact ⟨List.Subperm.refl _, fun _ => List.Perm.refl _⟩
  | @concat log stopped w w' _ step ih =>
    refine ⟨step.placed.1.trans ih.1, fun hlog => ?_⟩
    rw [List.mem_append, not_or] at hlog
    have hstopped : stopped = false := by
      cases stopped with
      | false => rfl
      | true => exact absurd (List.mem_singleton_self true) hlog.2
    exact (step.placed.2 hstopped).trans (ih.2 hlog.1)

theorem Steps.own {start : Window} (h : Steps start log w) (hstart : start.answered = []) :
    ∀ a ∈ w.answered, a.2.accession = a.1.accession := by
  induction h with
  | nil =>
    rw [hstart]
    exact fun a ha => absurd ha List.not_mem_nil
  | concat _ step ih => exact step.own ih

theorem Steps.pending {start : Window} (h : Steps start log w) (hlog : true ∉ log)
    (hstart : start.Pending) : w.Pending := by
  induction h with
  | nil => exact hstart
  | @concat log stopped w w' _ step ih =>
    rw [List.mem_append, not_or] at hlog
    cases stopped with
    | false => exact step.pending (ih hlog.1)
    | true => exact absurd (List.mem_singleton_self true) hlog.2

theorem narrow_start (items : List IndexWorkItem) (workers : Int) (pool : Bool) :
    (Window.start items workers pool).Narrow (max 1 workers).toNat := by
  cases pool with
  | true => simp [Window.start, Window.Narrow]
  | false => simp [Window.start, Window.Narrow]

theorem pending_start (items : List IndexWorkItem) (workers : Int) (pool : Bool) :
    (Window.start items workers pool).Pending := by
  cases pool with
  | true => exact Or.inr (Or.inl (by simp))
  | false => rfl

/-- Every run of the generator answers its items once. -/
theorem boundedResults_answers {workers : Int} {pool : Bool}
    (h : Steps (Window.start items workers pool) log w) : AnsweredOnce items workers log w := by
  obtain ⟨hnarrow, hfuel⟩ := h.narrow (narrow_start items workers pool)
  obtain ⟨honce, hall⟩ := h.placed
  have hplaced : (Window.start items workers pool).placed = items := rfl
  rw [hplaced] at honce hall
  refine ⟨?_, ?_, h.own rfl, ?_, ?_, hnarrow.exists_step⟩
  · have hle := hnarrow.length_le
    have hpos : (1 : Int) ≤ max 1 workers := le_max_left _ _
    omega
  · exact (List.sublist_append_left _ _).subperm.trans honce
  · intro hlog hstage
    have hpending := h.pending hlog (pending_start items workers pool)
    rw [Window.Pending, hstage] at hpending
    have hperm := hall hlog
    rwa [Window.placed, hpending.1, hpending.2, List.append_nil, List.append_nil] at hperm
  · have hstart : (Window.start items workers pool).fuel ≤ 6 * items.length + 2 := by
      cases pool with
      | true => simp [Window.start, Window.fuel]
      | false => simp [Window.start, Window.fuel]
    omega

def brokenItem : IndexWorkItem := ⟨"0000320193-25-000001", "https://www.sec.gov/index.htm"⟩

/-- A pool that is broken from the start answers its item with a failure. -/
theorem boundedResults_answers_broken : AnsweredOnce [brokenItem] 4 [false, false, false]
    ⟨.finished, [], [], [(brokenItem, workerError brokenItem "BrokenProcessPool")]⟩ := by
  have hbroken : Steps (Window.start [brokenItem] 4 true) [false, false, false]
      ⟨.finished, [], [], [(brokenItem, workerError brokenItem "BrokenProcessPool")]⟩ := by
    have hfirst := Steps.concat (@Steps.nil (Window.start [brokenItem] 4 true))
      (.submitBroken "BrokenProcessPool")
    exact (hfirst.concat .failEnd).concat .finish
  exact boundedResults_answers hbroken

end EdgarSec.Inventory
