/-
# The interval between polls

The loop of `EventPoller` (`indexer/eventPoller.js`): a cycle polls once, and when it settles the next
one is scheduled.  Failures in a row stretch the interval by a factor each, up to a maximum, and an
indexed batch takes it back to the base; a skipped cycle leaves it as it is.

The interval is computed in doubles: the power is raised to 64 at most, can be infinite all the same,
and the maximum is taken last.  Of the fields that `getStatus` shows, only those that the loop reads
are kept.  `start` sees no timer while the first cycle is under way, so two loops can run at once;
what is said here holds of their cycles in any order (`interval_bounds`).
-/
import SmartDrop.Indexer.Poller
import SmartDrop.Lib.NumberOrder

namespace SmartDrop.Indexer

open Conc Binary64 JsonText Redis
open JsNumber (Number Power)

/-! ## 1. The loop -/

/-- The configuration of the loop. -/
structure PollConfig where
  enabled : Bool
  contractId : String
  basePollIntervalMs : Double
  maxPollIntervalMs : Double
  backoffFactor : Number

/-- The fields of the poller that the loop uses: a timer by the number of timers before it, the ones
that have not fired, how many cycles are under way, and the delays that `setTimeout` was given. -/
structure EventPoller where
  consecutiveFailures : ℕ
  currentPollIntervalMs : Number
  pollsSucceeded : ℕ
  pollsFailed : ℕ
  stopped : Bool
  timer : Option ℕ
  pendingTimers : List ℕ
  inFlight : ℕ
  scheduled : List Number

/-- What happens to the loop: its methods are called, a timer fires, a cycle settles. -/
inductive LoopEvent where
  | start
  | stop
  | fire (timer : ℕ)
  | settle (result : Except Err PollResult)

/-- The cycle indexed a batch. -/
def succeeded : Except Err PollResult → Bool
  | .ok (.indexed ..) => true
  | _ => false

variable (P : Power) (config : PollConfig)

/-- `computeBackoffMs`. -/
def computeBackoffMs (consecutiveFailures : ℕ) : Number :=
  if consecutiveFailures = 0 then .finite config.basePollIntervalMs.val
  else
    let exponent := min consecutiveFailures 64
    let scaled := (Number.finite config.basePollIntervalMs.val).mul (P.raise config.backoffFactor exponent)
    scaled.min (.finite config.maxPollIntervalMs.val)

namespace EventPoller

/-- The constructor. -/
def init : EventPoller where
  consecutiveFailures := 0
  currentPollIntervalMs := .finite config.basePollIntervalMs.val
  pollsSucceeded := 0
  pollsFailed := 0
  stopped := false
  timer := none
  pendingTimers := []
  inFlight := 0
  scheduled := []

/-- `recordPollSuccess`. -/
def recordPollSuccess (p : EventPoller) : EventPoller :=
  { p with
    pollsSucceeded := p.pollsSucceeded + 1
    consecutiveFailures := 0
    currentPollIntervalMs := .finite config.basePollIntervalMs.val }

/-- `recordPollFailure`. -/
def recordPollFailure (p : EventPoller) : EventPoller :=
  { p with
    pollsFailed := p.pollsFailed + 1
    consecutiveFailures := p.consecutiveFailures + 1
    currentPollIntervalMs := computeBackoffMs P config (p.consecutiveFailures + 1) }

/-- What a cycle records when it settles. -/
def record (p : EventPoller) : Except Err PollResult → EventPoller
  | .ok (.skipped _) => p
  | .ok (.indexed ..) => p.recordPollSuccess config
  | .error _ => p.recordPollFailure P config

/-- `scheduleNext`. -/
def scheduleNext (p : EventPoller) : EventPoller :=
  if p.stopped then p
  else
    { p with
      timer := some p.scheduled.length
      pendingTimers := p.scheduled.length :: p.pendingTimers
      scheduled := p.scheduled ++ [p.currentPollIntervalMs] }

/-- `start`; without a contract it throws. -/
def start (p : EventPoller) : EventPoller :=
  if p.timer.isSome || !config.enabled then p
  else if config.contractId = "" then p
  else { p with stopped := false, inFlight := p.inFlight + 1 }

/-- `stop`, up to the wait for a cycle under way. -/
def stop (p : EventPoller) : EventPoller :=
  { p with
    stopped := true
    timer := none
    pendingTimers := match p.timer with
      | none => p.pendingTimers
      | some id => p.pendingTimers.erase id }

/-- One event. -/
def step (p : EventPoller) : LoopEvent → EventPoller
  | .start => p.start config
  | .stop => p.stop
  | .fire timer =>
    if p.pendingTimers.contains timer then
      { p with pendingTimers := p.pendingTimers.erase timer, inFlight := p.inFlight + 1 }
    else p
  | .settle result =>
    if p.inFlight = 0 then p
    else { p.record P config result with inFlight := p.inFlight - 1 }.scheduleNext

end EventPoller

/-! ## 2. The interval of a number of failures -/

/-- A finite interval between the base and the maximum. -/
def PollConfig.Within (config : PollConfig) (interval : Number) : Prop :=
  ∃ ms, interval = .finite ms ∧ config.basePollIntervalMs.val ≤ ms ∧ ms ≤ config.maxPollIntervalMs.val

/-- `0 < base <= max`, and a factor of one or more. -/
structure PollConfig.Ordered (config : PollConfig) : Prop where
  base_pos : 0 < config.basePollIntervalMs.val
  base_le : config.basePollIntervalMs.val ≤ config.maxPollIntervalMs.val
  one_le : (Number.finite 1).atMost config.backoffFactor = true
  isValue : Power.IsValue config.backoffFactor

variable {P config} {m n : ℕ}

section Interval

variable (h : config.Ordered)

include h

theorem base_atMost_scaled :
    (Number.finite config.basePollIntervalMs.val).atMost
      ((Number.finite config.basePollIntervalMs.val).mul (P.raise config.backoffFactor n)) = true :=
  Number.atMost_mul h.base_pos config.basePollIntervalMs.isDouble
    (Power.one_atMost_raise h.isValue h.one_le n)

theorem base_atMost_computeBackoffMs :
    (Number.finite config.basePollIntervalMs.val).atMost (computeBackoffMs P config n) = true := by
  rw [computeBackoffMs]
  split
  · exact Number.atMost_refl Number.noConfusion
  · exact Number.atMost_min (base_atMost_scaled h) (Number.atMost_finite.mpr h.base_le)

theorem within_computeBackoffMs : config.Within (computeBackoffMs P config n) := by
  refine Number.exists_finite (base_atMost_computeBackoffMs h) ?_
  rw [computeBackoffMs]
  split
  · exact Number.atMost_finite.mpr h.base_le
  · exact Number.min_atMost_right (Number.ne_nan_right (base_atMost_scaled h)) Number.noConfusion

/-- More failures do not make the interval shorter. -/
theorem computeBackoffMs_mono (hmn : m ≤ n) :
    (computeBackoffMs P config m).atMost (computeBackoffMs P config n) = true := by
  rcases Nat.eq_zero_or_pos m with rfl | hm
  · exact base_atMost_computeBackoffMs h
  · rw [computeBackoffMs, if_neg hm.ne', computeBackoffMs, if_neg (hm.trans_le hmn).ne']
    refine Number.min_mono Number.noConfusion (Number.mul_mono h.base_pos ?_)
    exact Power.raise_mono h.isValue h.one_le (min_le_min_right 64 hmn)

end Interval

/-! ## 3. Runs -/

namespace EventPoller

variable {p : EventPoller} {e : LoopEvent}

/-- The interval is that of the failures in a row, and every delay is an interval. -/
structure Paced (P : Power) (config : PollConfig) (p : EventPoller) : Prop where
  current : p.currentPollIntervalMs = computeBackoffMs P config p.consecutiveFailures
  delays : ∀ delay ∈ p.scheduled, config.Within delay

/-- A cycle that is under way settles with a success. -/
def Recovers (p : EventPoller) : LoopEvent → Prop
  | .settle result => p.inFlight ≠ 0 ∧ succeeded result = true
  | _ => False

theorem scheduleNext_keeps :
    p.scheduleNext.currentPollIntervalMs = p.currentPollIntervalMs ∧
      p.scheduleNext.consecutiveFailures = p.consecutiveFailures := by
  rw [scheduleNext]
  split <;> exact ⟨rfl, rfl⟩

theorem scheduled_scheduleNext :
    p.scheduleNext.scheduled = p.scheduled ++ if p.stopped then [] else [p.currentPollIntervalMs] := by
  rw [scheduleNext]
  split <;> simp

/-- A result is recorded: the failures in a row and their interval. -/
theorem record_keeps (result : Except Err PollResult) :
    (p.record P config result).stopped = p.stopped ∧
      (p.record P config result).scheduled = p.scheduled := by
  rcases result with err | (reason | _) <;> exact ⟨rfl, rfl⟩

/-- **What an event does**: nothing to the interval, or it settles a cycle, which records its result
and schedules the next one. -/
theorem step_cases (P : Power) (config : PollConfig) (p : EventPoller) (e : LoopEvent) :
    ((p.step P config e).currentPollIntervalMs = p.currentPollIntervalMs ∧
      (p.step P config e).consecutiveFailures = p.consecutiveFailures ∧
        (p.step P config e).scheduled = p.scheduled ∧ ¬ p.Recovers e) ∨
      ∃ result, e = .settle result ∧ p.inFlight ≠ 0 ∧
        (p.step P config e).currentPollIntervalMs = (p.record P config result).currentPollIntervalMs ∧
          (p.step P config e).consecutiveFailures = (p.record P config result).consecutiveFailures ∧
            (p.step P config e).scheduled = p.scheduled ++
              if p.stopped then [] else [(p.step P config e).currentPollIntervalMs] := by
  cases e with
  | start =>
    left
    simp only [step, start]
    split
    · exact ⟨rfl, rfl, rfl, id⟩
    · split <;> exact ⟨rfl, rfl, rfl, id⟩
  | stop => exact .inl ⟨rfl, rfl, rfl, id⟩
  | fire timer =>
    left
    simp only [step]
    split <;> exact ⟨rfl, rfl, rfl, id⟩
  | settle result =>
    by_cases hflight : p.inFlight = 0
    · left
      rw [step, if_pos hflight]
      exact ⟨rfl, rfl, rfl, fun h => h.1 hflight⟩
    · right
      refine ⟨result, rfl, hflight, ?_⟩
      rw [step, if_neg hflight]
      refine ⟨scheduleNext_keeps.1, scheduleNext_keeps.2, ?_⟩
      rw [scheduled_scheduleNext, scheduleNext_keeps.1]
      dsimp only
      rw [(record_keeps result).1, (record_keeps result).2]

/-- Unless the cycle succeeds, what is recorded is a failure more or nothing. -/
theorem record_of_not_succeeded (P : Power) (config : PollConfig) (p : EventPoller)
    {result : Except Err PollResult} (h : succeeded result = false) :
    (p.record P config result) = p ∨ (p.record P config result) = p.recordPollFailure P config := by
  rcases result with err | (reason | _)
  · exact .inr rfl
  · exact .inl rfl
  · cases h

theorem record_of_succeeded {result : Except Err PollResult} (h : succeeded result = true) :
    (p.record P config result) = p.recordPollSuccess config := by
  rcases result with err | (reason | _)
  · cases h
  · cases h
  · rfl

/-- The interval of what a cycle records is that of its failures in a row. -/
theorem record_current (h : p.currentPollIntervalMs = computeBackoffMs P config p.consecutiveFailures)
    (result : Except Err PollResult) :
    (p.record P config result).currentPollIntervalMs =
      computeBackoffMs P config (p.record P config result).consecutiveFailures := by
  rcases result with err | (reason | _)
  · rfl
  · exact h
  · rfl

theorem paced_init (config : PollConfig) : (init config).Paced P config where
  current := rfl
  delays := by simp [init]

/-- **One event.** -/
theorem Paced.step (hconfig : config.Ordered) (h : p.Paced P config) (e : LoopEvent) :
    (p.step P config e).Paced P config := by
  rcases step_cases P config p e with ⟨hcurrent, hfailures, hscheduled, -⟩ |
    ⟨result, -, -, hcurrent, hfailures, hscheduled⟩
  · exact ⟨by rw [hcurrent, hfailures, h.current], by rw [hscheduled]; exact h.delays⟩
  · have hcomputed : (p.step P config e).currentPollIntervalMs =
        computeBackoffMs P config (p.step P config e).consecutiveFailures := by
      rw [hcurrent, hfailures]
      exact record_current h.current result
    refine ⟨hcomputed, fun delay hdelay => ?_⟩
    rw [hscheduled, List.mem_append] at hdelay
    rcases hdelay with hold | hnew
    · exact h.delays delay hold
    · split at hnew
      · cases hnew
      · obtain rfl := List.mem_singleton.mp hnew
        rw [hcomputed]
        exact within_computeBackoffMs hconfig

/-- An event that is no success takes no failure away. -/
theorem failures_le_step (h : ¬ p.Recovers e) :
    p.consecutiveFailures ≤ (p.step P config e).consecutiveFailures := by
  rcases step_cases P config p e with ⟨-, hfailures, -, -⟩ | ⟨result, rfl, hflight, -, hfailures, -⟩
  · exact hfailures.ge
  · rw [hfailures]
    have hfailed : succeeded result = false := by
      by_contra hsuccess
      exact h ⟨hflight, by simpa using hsuccess⟩
    rcases record_of_not_succeeded P config p hfailed with hsame | hmore
    · rw [hsame]
    · rw [hmore]
      exact Nat.le_succ _

/-- **Along failures the interval never decreases**, and neither do the delays that are scheduled. -/
theorem sorted_run (hconfig : config.Ordered) {es : List LoopEvent} (h : p.Paced P config)
    (hfailing : Along (step P config) (fun q e => ¬ q.Recovers e) p es) :
    ∃ delays, (run (step P config) p es).scheduled = p.scheduled ++ delays ∧
      (p.currentPollIntervalMs :: delays).Pairwise (fun a b => a.atMost b = true) ∧
        p.currentPollIntervalMs.atMost (run (step P config) p es).currentPollIntervalMs = true := by
  induction es generalizing p with
  | nil =>
    refine ⟨[], (List.append_nil _).symm, List.pairwise_singleton _ _, ?_⟩
    rw [run, List.foldl_nil, h.current]
    exact computeBackoffMs_mono hconfig le_rfl
  | cons e es ih =>
    obtain ⟨hfailed, hrest⟩ := hfailing
    have hnext := h.step hconfig e
    obtain ⟨delays, hscheduled, hsorted, hlast⟩ := ih hnext hrest
    have hstep : p.currentPollIntervalMs.atMost (p.step P config e).currentPollIntervalMs = true := by
      rw [h.current, hnext.current]
      exact computeBackoffMs_mono hconfig (failures_le_step hfailed)
    have hbelow : ∀ delay ∈ delays, p.currentPollIntervalMs.atMost delay = true := fun delay hdelay =>
      Number.atMost_trans hstep ((List.pairwise_cons.mp hsorted).1 delay hdelay)
    have hrun : run (step P config) p (e :: es) = run (step P config) (p.step P config e) es := rfl
    rw [hrun]
    rcases step_cases P config p e with ⟨-, -, hsame, -⟩ | ⟨-, -, -, -, -, hnew⟩
    · refine ⟨delays, by rw [hscheduled, hsame], ?_, Number.atMost_trans hstep hlast⟩
      exact List.pairwise_cons.mpr ⟨hbelow, (List.pairwise_cons.mp hsorted).2⟩
    · refine ⟨(if p.stopped then [] else [(p.step P config e).currentPollIntervalMs]) ++ delays, ?_, ?_,
        Number.atMost_trans hstep hlast⟩
      · rw [hscheduled, hnew, List.append_assoc]
      · split
        · exact List.pairwise_cons.mpr ⟨hbelow, (List.pairwise_cons.mp hsorted).2⟩
        · exact List.pairwise_cons.mpr ⟨List.forall_mem_cons.mpr ⟨hstep, hbelow⟩, hsorted⟩

/-- **The interval between polls**: for every number of failures it is finite and between the base and
the maximum; in every run every delay that is scheduled is; along failures the delays never decrease;
and the cycle that succeeds takes the interval back to the base, which is scheduled next. -/
theorem interval_bounds (P : Power) (config : PollConfig) (hconfig : config.Ordered) :
    (∀ n, config.Within (computeBackoffMs P config n)) ∧
      ∀ es : List LoopEvent,
        let p := run (step P config) (init config) es
        config.Within p.currentPollIntervalMs ∧ (∀ delay ∈ p.scheduled, config.Within delay) ∧
        (∀ fs : List LoopEvent, Along (step P config) (fun q e => ¬ q.Recovers e) p fs →
          ∃ delays, (run (step P config) p fs).scheduled = p.scheduled ++ delays ∧
            (p.currentPollIntervalMs :: delays).Pairwise (fun a b => a.atMost b = true) ∧
              p.currentPollIntervalMs.atMost (run (step P config) p fs).currentPollIntervalMs = true) ∧
        ∀ result, p.Recovers (.settle result) →
          (p.step P config (.settle result)).currentPollIntervalMs =
              .finite config.basePollIntervalMs.val ∧
            (p.step P config (.settle result)).scheduled = p.scheduled ++
              if p.stopped then [] else [.finite config.basePollIntervalMs.val] := by
  refine ⟨fun n => within_computeBackoffMs hconfig, fun es => ?_⟩
  have hpaced : (run (step P config) (init config) es).Paced P config :=
    run_inv_of_step (fun _ e h => h.step hconfig e) (paced_init config)
  dsimp only
  generalize run (step P config) (init config) es = p at hpaced
  refine ⟨?_, hpaced.delays, fun fs => sorted_run hconfig hpaced, fun result hrecovers => ?_⟩
  · rw [hpaced.current]
    exact within_computeBackoffMs hconfig
  · rcases step_cases P config p (.settle result) with ⟨-, -, -, hnot⟩ |
      ⟨result', hresult, -, hcurrent, -, hscheduled⟩
    · exact absurd hrecovers hnot
    · obtain rfl := LoopEvent.settle.inj hresult
      rw [record_of_succeeded hrecovers.2] at hcurrent
      exact ⟨hcurrent, by rw [hscheduled, hcurrent]; rfl⟩

/-- The defaults. -/
def samplePollConfig : PollConfig where
  enabled := true
  contractId := "CSMARTDROP"
  basePollIntervalMs := .ofNat 5000 (JsNumber.nearest_natCast (by decide))
  maxPollIntervalMs := .ofNat 300000 (JsNumber.nearest_natCast (by decide))
  backoffFactor := .finite 2

theorem samplePollConfig_ordered : samplePollConfig.Ordered where
  base_pos := by decide
  base_le := by decide
  one_le := by decide
  isValue x hx := by
    obtain rfl := Number.finite.inj hx
    exact JsNumber.nearest_natCast (n := 2) (by decide)

/-- Whatever the node does, the default intervals stay between five seconds and five minutes. -/
theorem interval_bounds_sample : (∀ n, samplePollConfig.Within (computeBackoffMs .rounded samplePollConfig n)) ∧
    ∀ es : List LoopEvent, ∀ delay ∈ (run (step .rounded samplePollConfig) (init samplePollConfig) es).scheduled,
      samplePollConfig.Within delay :=
  ⟨(interval_bounds .rounded samplePollConfig samplePollConfig_ordered).1, fun es =>
    ((interval_bounds .rounded samplePollConfig samplePollConfig_ordered).2 es).2.1⟩

end EventPoller

end SmartDrop.Indexer
