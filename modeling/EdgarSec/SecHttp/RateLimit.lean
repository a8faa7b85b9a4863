import Mathlib

/-! Request pacing of `infra/sec_http/rate_limit.py`: the limiter of one process
hands out send slots and stretches its interval after throttle responses. Times
and intervals range over an ordered field, so the arithmetic is exact. -/

namespace EdgarSec.RateLimit

variable {K : Type*} [Field K] [LinearOrder K]

/-- `MAX_INTERVAL_S`, the ceiling a limiter gets when its caller names none. -/
def maxIntervalS : K := 60

def throttleMultiplier : K := 3 / 2

def recoveryQuietS : K := 30

def recoveryDecay : K := 1 / 10

def retryAfterCapS : K := 120

variable (K) in
/-- The fields of `RateLimiter`. The last two hold of every object its methods
leave behind. -/
structure RateLimiter where
  minInterval : K
  maxInterval : K
  interval : K
  nextSlot : K
  coolUntil : K
  lastThrottle : K
  minInterval_pos : 0 < minInterval
  minInterval_le_interval : minInterval ≤ interval

namespace RateLimiter

theorem interval_pos (limiter : RateLimiter K) : 0 < limiter.interval :=
  limiter.minInterval_pos.trans_le limiter.minInterval_le_interval

/-- `RateLimiter.__init__` at clock reading `now`. -/
def init (minInterval maxInterval now : K) : Except String (RateLimiter K) :=
  if hmin : minInterval ≤ 0 then
    .error "min_interval_s must be positive"
  else
    .ok {
      minInterval, maxInterval
      interval := minInterval
      nextSlot := now
      coolUntil := 0
      lastThrottle := 0
      minInterval_pos := not_le.mp hmin
      minInterval_le_interval := le_rfl }

/-- The gradual recovery at the head of `acquire`: a tenth of the gap to the
minimum is given back once no throttle was seen for the quiet period. -/
def recoveredInterval (limiter : RateLimiter K) (now : K) : K :=
  if limiter.minInterval < limiter.interval ∧ recoveryQuietS < now - limiter.lastThrottle then
    max limiter.minInterval
      (limiter.interval - (limiter.interval - limiter.minInterval) * recoveryDecay)
  else limiter.interval

theorem minInterval_le_recoveredInterval (limiter : RateLimiter K) (now : K) :
    limiter.minInterval ≤ limiter.recoveredInterval now := by
  unfold recoveredInterval
  split_ifs
  · exact le_max_left _ _
  · exact limiter.minInterval_le_interval

def wake (limiter : RateLimiter K) (now : K) : K :=
  max (max limiter.nextSlot now) limiter.coolUntil

/-- `acquire`: the delay the caller owes, and the limiter with the slot taken. -/
def acquire (limiter : RateLimiter K) (now : K) : K × RateLimiter K :=
  (max 0 (limiter.wake now - now),
    { limiter with
      interval := limiter.recoveredInterval now
      nextSlot := limiter.wake now + limiter.recoveredInterval now
      minInterval_le_interval := limiter.minInterval_le_recoveredInterval now })

def throttleDelay (limiter : RateLimiter K) (retryAfterS : Option K) : K :=
  match retryAfterS with
  | some retryAfter =>
    min (min (max retryAfter limiter.interval) limiter.maxInterval) retryAfterCapS
  | none => min (limiter.interval * throttleMultiplier) limiter.maxInterval

/-- `signal_throttle`. The cool-down end is overwritten, not raised. -/
def signalThrottle (limiter : RateLimiter K) (now : K) (retryAfterS : Option K) :
    K × RateLimiter K :=
  (limiter.throttleDelay retryAfterS,
    { limiter with
      lastThrottle := now
      interval := max limiter.interval (limiter.throttleDelay retryAfterS)
      coolUntil := now + limiter.throttleDelay retryAfterS
      minInterval_le_interval := limiter.minInterval_le_interval.trans (le_max_left _ _) })

end RateLimiter

variable (K) in
inductive Call where
  | acquire (now : K)
  | signalThrottle (now : K) (retryAfterS : Option K)

namespace Call

def now : Call K → K
  | acquire now => now
  | signalThrottle now _ => now

def isAcquire : Call K → Bool
  | acquire _ => true
  | signalThrottle _ _ => false

end Call

def RateLimiter.answer (limiter : RateLimiter K) : Call K → K × RateLimiter K
  | .acquire now => limiter.acquire now
  | .signalThrottle now retryAfterS => limiter.signalThrottle now retryAfterS

variable (K) in
structure Reply where
  call : Call K
  delay : K
  interval : K

/-- When the request behind an `acquire` may be sent, and when the cool-down
announced by a `signal_throttle` ends. -/
def Reply.sendTime (reply : Reply K) : K := reply.call.now + reply.delay

def replies : RateLimiter K → List (Call K) → List (Reply K)
  | _, [] => []
  | limiter, call :: calls =>
    let (delay, after) := limiter.answer call
    ⟨call, delay, after.interval⟩ :: replies after calls

/-- The clock readings of the calls never go back, from the reading `start` on. -/
def ClockRuns (start : K) (calls : List (Call K)) : Prop :=
  (start :: calls.map Call.now).Pairwise (· ≤ ·)

omit [Field K] in
theorem clockRuns_cons {start : K} {call : Call K} {calls : List (Call K)} :
    ClockRuns start (call :: calls) ↔ start ≤ call.now ∧ ClockRuns call.now calls := by
  simp only [ClockRuns, List.map_cons, List.pairwise_cons, List.mem_cons, forall_eq_or_imp]
  constructor
  · rintro ⟨⟨hstart, -⟩, hcall, hcalls⟩
    exact ⟨hstart, hcall, hcalls⟩
  · rintro ⟨hstart, hcall, hcalls⟩
    exact ⟨⟨hstart, fun later hlater => hstart.trans (hcall later hlater)⟩, hcall, hcalls⟩

/-! ### What a granted slot and a cool-down leave behind -/

namespace RateLimiter

theorem now_le_wake (limiter : RateLimiter K) (now : K) : now ≤ limiter.wake now :=
  (le_max_right _ _).trans (le_max_left _ _)

theorem nextSlot_le_wake (limiter : RateLimiter K) (now : K) :
    limiter.nextSlot ≤ limiter.wake now :=
  (le_max_left _ _).trans (le_max_left _ _)

theorem coolUntil_le_wake (limiter : RateLimiter K) (now : K) :
    limiter.coolUntil ≤ limiter.wake now :=
  le_max_right _ _

theorem throttleDelay_le_maxInterval (limiter : RateLimiter K) (retryAfterS : Option K) :
    limiter.throttleDelay retryAfterS ≤ limiter.maxInterval := by
  cases retryAfterS with
  | some retryAfter => exact (min_le_left _ _).trans (min_le_right _ _)
  | none => exact min_le_right _ _

/-- A delay the limiter owes since the reading `since`. Before the next grant it
rests on the cool-down, which a shorter throttle may overwrite: there the interval
and the two ceilings keep the overwriting delay long enough. A grant moves it to
the slot, where no throttle reaches it. -/
def Owes (limiter : RateLimiter K) (since delay : K) : Prop :=
  since + delay ≤ limiter.nextSlot ∨
    (since + delay ≤ limiter.coolUntil ∧ delay ≤ limiter.interval ∧
      delay ≤ limiter.maxInterval ∧ delay ≤ retryAfterCapS)

theorem Owes.le_wake {limiter : RateLimiter K} {since delay : K}
    (howes : limiter.Owes since delay) (now : K) : since + delay ≤ limiter.wake now := by
  rcases howes with hslot | ⟨hcool, -⟩
  · exact hslot.trans (limiter.nextSlot_le_wake now)
  · exact hcool.trans (limiter.coolUntil_le_wake now)

@[simp] theorem answer_minInterval (limiter : RateLimiter K) (call : Call K) :
    (limiter.answer call).2.minInterval = limiter.minInterval := by
  cases call <;> rfl

@[simp] theorem answer_maxInterval (limiter : RateLimiter K) (call : Call K) :
    (limiter.answer call).2.maxInterval = limiter.maxInterval := by
  cases call <;> rfl

theorem init_spec {minInterval maxInterval now : K} {limiter : RateLimiter K}
    (hinit : init minInterval maxInterval now = .ok limiter) :
    limiter.minInterval = minInterval ∧ limiter.maxInterval = maxInterval ∧
      limiter.interval = minInterval ∧ limiter.nextSlot = now := by
  unfold init at hinit
  split_ifs at hinit
  simp only [Except.ok.injEq] at hinit
  subst hinit
  exact ⟨rfl, rfl, rfl, rfl⟩

variable [IsStrictOrderedRing K]

theorem recoveredInterval_le (limiter : RateLimiter K) (now : K) :
    limiter.recoveredInterval now ≤ limiter.interval := by
  unfold recoveredInterval
  split_ifs
  · apply max_le limiter.minInterval_le_interval
    have hgap : 0 ≤ (limiter.interval - limiter.minInterval) * recoveryDecay :=
      mul_nonneg (sub_nonneg.mpr limiter.minInterval_le_interval) (by norm_num [recoveryDecay])
    linarith
  · exact le_rfl

theorem acquire_sendTime (limiter : RateLimiter K) (now : K) :
    now + (limiter.acquire now).1 = limiter.wake now := by
  have howed : 0 ≤ limiter.wake now - now := sub_nonneg.mpr (limiter.now_le_wake now)
  simp only [acquire, max_eq_right howed, add_sub_cancel]

theorem wake_le_nextSlot (limiter : RateLimiter K) (now : K) :
    limiter.wake now ≤ (limiter.acquire now).2.nextSlot :=
  le_add_of_nonneg_right
    (limiter.minInterval_pos.le.trans (limiter.minInterval_le_recoveredInterval now))

theorem le_throttleDelay {limiter : RateLimiter K} {delay : K} (retryAfterS : Option K)
    (hinterval : delay ≤ limiter.interval) (hmax : delay ≤ limiter.maxInterval)
    (hcap : delay ≤ retryAfterCapS) : delay ≤ limiter.throttleDelay retryAfterS := by
  cases retryAfterS with
  | some retryAfter =>
    exact le_min (le_min (hinterval.trans (le_max_right _ _)) hmax) hcap
  | none =>
    have hgrow : limiter.interval ≤ limiter.interval * throttleMultiplier := by
      have hpos := limiter.interval_pos
      norm_num [throttleMultiplier]
      linarith
    exact le_min (hinterval.trans hgrow) hmax

theorem Owes.answer {limiter : RateLimiter K} {since delay : K} {call : Call K}
    (howes : limiter.Owes since delay) (hclock : since ≤ call.now) :
    (limiter.answer call).2.Owes since delay := by
  cases call with
  | acquire now =>
    exact Or.inl ((howes.le_wake now).trans (limiter.wake_le_nextSlot now))
  | signalThrottle now retryAfterS =>
    rcases howes with hslot | ⟨-, hinterval, hmax, hcap⟩
    · exact Or.inl hslot
    · have hdelay := le_throttleDelay retryAfterS hinterval hmax hcap
      exact Or.inr
        ⟨add_le_add hclock hdelay, hinterval.trans (le_max_left _ _), hmax, hcap⟩

theorem acquire_owes (limiter : RateLimiter K) (now : K) :
    (limiter.acquire now).2.Owes now
      ((limiter.acquire now).1 + (limiter.acquire now).2.interval) := by
  apply Or.inl
  rw [← add_assoc, acquire_sendTime]
  exact le_rfl

theorem signalThrottle_owes (limiter : RateLimiter K) (now : K) (retryAfterS : Option K) :
    (limiter.signalThrottle now retryAfterS).2.Owes now
      (min (limiter.signalThrottle now retryAfterS).1 retryAfterCapS) := by
  apply Or.inr
  have hle : min (limiter.throttleDelay retryAfterS) retryAfterCapS ≤
      limiter.throttleDelay retryAfterS := min_le_left _ _
  exact ⟨add_le_add_right hle now, hle.trans (le_max_right _ _),
    hle.trans (limiter.throttleDelay_le_maxInterval retryAfterS), min_le_right _ _⟩

theorem answer_interval_le {limiter : RateLimiter K} (call : Call K)
    (hinterval : limiter.interval ≤ limiter.maxInterval) :
    (limiter.answer call).2.interval ≤ limiter.maxInterval := by
  cases call with
  | acquire now => exact (limiter.recoveredInterval_le now).trans hinterval
  | signalThrottle now retryAfterS =>
    exact max_le hinterval (limiter.throttleDelay_le_maxInterval retryAfterS)

end RateLimiter

/-! ### Whole runs -/

def intervals (limiter : RateLimiter K) (calls : List (Call K)) : List K :=
  limiter.interval :: (replies limiter calls).map Reply.interval

theorem intervals_cons (limiter : RateLimiter K) (call : Call K) (calls : List (Call K)) :
    intervals limiter (call :: calls) =
      limiter.interval :: intervals (limiter.answer call).2 calls := rfl

theorem minInterval_le_of_mem_intervals (limiter : RateLimiter K) (calls : List (Call K)) :
    ∀ interval ∈ intervals limiter calls, limiter.minInterval ≤ interval := by
  induction calls generalizing limiter with
  | nil => simp [intervals, replies, limiter.minInterval_le_interval]
  | cons call calls ih =>
    rw [intervals_cons, List.forall_mem_cons]
    have hlater := ih (limiter.answer call).2
    rw [RateLimiter.answer_minInterval] at hlater
    exact ⟨limiter.minInterval_le_interval, hlater⟩

variable [IsStrictOrderedRing K]

theorem Reply.le_sendTime_of_owes {limiter : RateLimiter K} {since delay : K}
    {calls : List (Call K)} (howes : limiter.Owes since delay) (hclock : ClockRuns since calls) :
    ∀ reply ∈ replies limiter calls, reply.call.isAcquire → since + delay ≤ reply.sendTime := by
  -- the clock reading moves on with the calls, the reading the debt dates from stays
  have hrun : ∀ start, since ≤ start → ClockRuns start calls →
      ∀ reply ∈ replies limiter calls, reply.call.isAcquire →
        since + delay ≤ reply.sendTime := by
    clear hclock
    induction calls generalizing limiter with
    | nil => simp [replies]
    | cons call calls ih =>
      intro start hstart hclock
      rw [clockRuns_cons] at hclock
      have hnow : since ≤ call.now := hstart.trans hclock.1
      simp only [replies, List.mem_cons, forall_eq_or_imp]
      constructor
      · intro hacquire
        cases call with
        | acquire now => exact (howes.le_wake now).trans_eq (limiter.acquire_sendTime now).symm
        | signalThrottle now retryAfterS => simp [Call.isAcquire] at hacquire
      · exact ih (howes.answer hnow) call.now hnow hclock.2
  exact hrun since le_rfl hclock

theorem le_maxInterval_of_mem_intervals {limiter : RateLimiter K}
    (hinterval : limiter.interval ≤ limiter.maxInterval) (calls : List (Call K)) :
    ∀ interval ∈ intervals limiter calls, interval ≤ limiter.maxInterval := by
  induction calls generalizing limiter with
  | nil => simp [intervals, replies, hinterval]
  | cons call calls ih =>
    rw [intervals_cons, List.forall_mem_cons]
    have hnext := RateLimiter.answer_interval_le call hinterval
    rw [← RateLimiter.answer_maxInterval limiter call] at hnext
    have hlater := ih hnext
    rw [RateLimiter.answer_maxInterval] at hlater
    exact ⟨hinterval, hlater⟩

/-- `earlier` was an `acquire`, `later` is one: the send times keep the distance of
the interval in force after the earlier grant. -/
def Reply.Spaced (earlier later : Reply K) : Prop :=
  earlier.call.isAcquire → later.call.isAcquire →
    earlier.interval ≤ later.sendTime - earlier.sendTime

/-- `later` is an `acquire` after the throttle `earlier`: it is not sent before the
delay that the throttle returned is over, that delay counted up to `limit`. -/
def Reply.Cooled (limit : K → K) (earlier later : Reply K) : Prop :=
  !earlier.call.isAcquire → later.call.isAcquire →
    earlier.call.now + limit earlier.delay ≤ later.sendTime

theorem replies_pairwise {start : K} {calls : List (Call K)} (limiter : RateLimiter K)
    (hclock : ClockRuns start calls) :
    (replies limiter calls).Pairwise fun earlier later =>
      earlier.Spaced later ∧ earlier.Cooled (min · retryAfterCapS) later := by
  induction calls generalizing limiter start with
  | nil => exact List.Pairwise.nil
  | cons call calls ih =>
    rw [clockRuns_cons] at hclock
    apply List.pairwise_cons.mpr
    refine ⟨fun later hlater => ?_, ih _ hclock.2⟩
    cases call with
    | acquire now =>
      have hslot := Reply.le_sendTime_of_owes (limiter.acquire_owes now) hclock.2 later hlater
      refine ⟨fun _ hacquire => ?_, fun hthrottle => by simp [Call.isAcquire] at hthrottle⟩
      have hgrant := hslot hacquire
      simp only [Reply.sendTime, Call.now] at hgrant ⊢
      linarith
    | signalThrottle now retryAfterS =>
      have hcool := Reply.le_sendTime_of_owes (limiter.signalThrottle_owes now retryAfterS)
        hclock.2 later hlater
      exact ⟨fun hacquire => by simp [Call.isAcquire] at hacquire, fun _ => hcool⟩

/-- The requests that go out in the window of length `span` after `opening`. -/
def sentWithin (opening span : K) (given : List (Reply K)) : List (Reply K) :=
  given.filter fun reply =>
    reply.call.isAcquire ∧ opening ≤ reply.sendTime ∧ reply.sendTime ≤ opening + span

omit [IsStrictOrderedRing K] in
theorem mem_sentWithin {opening span : K} {given : List (Reply K)} {reply : Reply K} :
    reply ∈ sentWithin opening span given ↔
      reply ∈ given ∧ reply.call.isAcquire ∧ opening ≤ reply.sendTime ∧ reply.sendTime ≤ opening + span := by
  rw [sentWithin, List.mem_filter, decide_eq_true_iff]

theorem length_mul_le_of_spaced {gap first last : K} {times : List K} (hgap : 0 ≤ gap)
    (hwindow : first ≤ last) (hspaced : times.Pairwise fun earlier later => earlier + gap ≤ later)
    (hin : ∀ time ∈ times, first ≤ time ∧ time ≤ last) :
    times.length * gap ≤ last - first + gap := by
  induction times generalizing first with
  | nil =>
    rw [List.length_nil, Nat.cast_zero, zero_mul]
    linarith
  | cons time times ih =>
    rw [List.pairwise_cons] at hspaced
    rw [List.forall_mem_cons] at hin
    obtain ⟨⟨hfirst, hlast⟩, hin⟩ := hin
    rw [List.length_cons, Nat.cast_succ, add_one_mul]
    cases times with
    | nil =>
      rw [List.length_nil, Nat.cast_zero, zero_mul]
      linarith
    | cons next times =>
      have hnext := (hspaced.1 next List.mem_cons_self).trans (hin next List.mem_cons_self).2
      have hrest := ih hnext hspaced.2 fun later hlater => ⟨hspaced.1 later hlater, (hin later hlater).2⟩
      linarith

end EdgarSec.RateLimit
