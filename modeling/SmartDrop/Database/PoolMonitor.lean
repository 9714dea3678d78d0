/-
# The monitor of the connection pool

`database/poolMonitor.js`: a `PoolMonitor` listens to the events of the pool, counts them, times every
acquisition and looks at the load when a connection is acquired or released.

What it reports is what has happened (`metrics_tallied`): the acquisitions that it has counted and not seen
settled are those that the pool still owes, and its durations are those of the acquisitions that have
succeeded since the last `reset`.  One that has failed makes the status `critical` until then.  Its alerts
are throttled: two of one level are more than a minute apart, and none is missed (`alerts_throttled`).
-/
import SmartDrop.Lib.Binary64
import SmartDrop.Lib.JsMap
import SmartDrop.Lib.Throttle
import Mathlib.Algebra.BigOperators.Group.List.Basic
import Mathlib.Data.List.Induction

namespace SmartDrop.PoolMonitor

open Binary64

/-! ## 1. The monitor -/

/-- What the pool says of itself. -/
structure Load where
  min : ℕ
  max : ℕ
  used : ℕ
  free : ℕ
  pendingAcquires : ℕ
  pendingCreates : ℕ

/-- The events that are listened to, but for `poolDestroying`. -/
inductive Event where
  | acquireRequest (eventId : ℕ)
  | acquireSuccess (eventId : ℕ)
  | acquireFail (eventId : ℕ) (err : Option String)
  | release
  | createRequest
  | createSuccess
  | createFail (err : Option String)
  | destroyRequest
  | destroySuccess
  | destroyFail

structure Counters where
  acquireRequests : ℕ := 0
  acquireSuccesses : ℕ := 0
  acquireFailures : ℕ := 0
  releases : ℕ := 0
  createRequests : ℕ := 0
  createSuccesses : ℕ := 0
  createFailures : ℕ := 0
  destroyRequests : ℕ := 0
  destroySuccesses : ℕ := 0
  destroyFailures : ℕ := 0
  timeouts : ℕ := 0

structure Timing where
  lastAcquireDurationMs : ℤ := 0
  maxAcquireDurationMs : ℤ := 0
  totalAcquireDurationMs : ℤ := 0
  acquireSamplesCount : ℕ := 0

/-- `lastFailure`, with its time as a number. -/
structure Failure where
  type : String
  error : String
  timestamp : ℕ

/-- A monitor that listens to a pool. -/
structure Monitor where
  warningThreshold : ℚ
  criticalThreshold : ℚ
  counters : Counters
  timing : Timing
  lastFailure : Option Failure
  lastWarningAt : Option ℕ
  lastCriticalAt : Option ℕ
  pendingAcquireTimers : JsMap ℕ ℕ

/-- `new PoolMonitor(options)`, once it is attached. -/
def Monitor.new (warningThreshold criticalThreshold : ℚ) : Monitor :=
  ⟨warningThreshold, criticalThreshold, {}, {}, none, none, none, .empty⟩

/-- `reset()`: the requests that are pending keep their timers. -/
def Monitor.reset (m : Monitor) : Monitor := { m with
  counters := {}
  timing := {}
  lastFailure := none
  lastWarningAt := none
  lastCriticalAt := none }

inductive Status where
  | healthy
  | warning
  | critical
deriving DecidableEq

/-- `getSnapshot()`. -/
structure Snapshot extends Load where
  utilization : ℚ
  saturation : ℚ
  status : Status

/-- `parseFloat(x.toFixed(digits))`, of a number below 10²¹. -/
def toFixed (digits : ℕ) (x : ℚ) : ℚ :=
  if x < 0 then -nearest (fixed digits (-x) / 10 ^ digits) else nearest (fixed digits x / 10 ^ digits)

/-- The part of the pool that so many connections are. -/
def share (connections max : ℕ) : ℚ :=
  if 0 < max then toFixed 4 (nearest ((connections : ℚ) / max)) else 0

def Monitor.getSnapshot (m : Monitor) (load : Load) : Snapshot :=
  let utilization := share load.used load.max
  { load with
    utilization
    saturation := share (load.used + load.pendingAcquires) load.max
    status :=
      if m.criticalThreshold ≤ utilization ∨ 0 < m.counters.acquireFailures then .critical
      else if m.warningThreshold ≤ utilization ∨ 0 < load.pendingAcquires then .warning
      else .healthy }

/-- The time between two alerts of one level. -/
def ALERT_INTERVAL_MS : ℕ := 60000

/-- What is logged, and passed to `onCritical` or `onWarning`. -/
structure Alert where
  critical : Bool
  time : ℕ
  stats : Snapshot

/-- `_checkHealth()`. -/
def Monitor.checkHealth (m : Monitor) (load : Load) (now : ℕ) : Monitor × List Alert :=
  let stats := m.getSnapshot load
  if stats.max = 0 then (m, [])
  else if m.criticalThreshold ≤ stats.utilization then
    if Throttle.due ALERT_INTERVAL_MS m.lastCriticalAt now then
      ({ m with lastCriticalAt := some now }, [⟨true, now, stats⟩])
    else (m, [])
  else if m.warningThreshold ≤ stats.utilization then
    if Throttle.due ALERT_INTERVAL_MS m.lastWarningAt now then
      ({ m with lastWarningAt := some now }, [⟨false, now, stats⟩])
    else (m, [])
  else (m, [])

/-- `_recordAcquireDuration`. -/
def Timing.record (t : Timing) (durationMs : ℤ) : Timing where
  lastAcquireDurationMs := durationMs
  totalAcquireDurationMs := t.totalAcquireDurationMs + durationMs
  acquireSamplesCount := t.acquireSamplesCount + 1
  maxAcquireDurationMs :=
    if t.maxAcquireDurationMs < durationMs then durationMs else t.maxAcquireDurationMs

/-- The timing once a request is answered; a timer of zero is none. -/
def Monitor.timed (m : Monitor) (eventId now : ℕ) : Monitor :=
  match m.pendingAcquireTimers.get? eventId with
  | none => m
  | some startTime =>
    if startTime = 0 then m
    else { m with
      timing := m.timing.record (now - startTime)
      pendingAcquireTimers := m.pendingAcquireTimers.delete eventId }

/-- The listeners. -/
def Monitor.on (m : Monitor) (event : Event) (now : ℕ) (load : Load) : Monitor × List Alert :=
  let c := m.counters
  match event with
  | .acquireRequest eventId => ({ m with
      counters := { c with acquireRequests := c.acquireRequests + 1 }
      pendingAcquireTimers := m.pendingAcquireTimers.set eventId now }, [])
  | .acquireSuccess eventId =>
    let counted := { m with counters := { c with acquireSuccesses := c.acquireSuccesses + 1 } }
    (counted.timed eventId now).checkHealth load now
  | .acquireFail eventId err => ({ m with
      counters := { c with acquireFailures := c.acquireFailures + 1 }
      lastFailure := some ⟨"acquireFail", err.getD "Unknown acquire failure", now⟩
      pendingAcquireTimers := m.pendingAcquireTimers.delete eventId }, [])
  | .release =>
    let counted := { m with counters := { c with releases := c.releases + 1 } }
    counted.checkHealth load now
  | .createRequest =>
    ({ m with counters := { c with createRequests := c.createRequests + 1 } }, [])
  | .createSuccess =>
    ({ m with counters := { c with createSuccesses := c.createSuccesses + 1 } }, [])
  | .createFail err => ({ m with
      counters := { c with createFailures := c.createFailures + 1 }
      lastFailure := some ⟨"createFail", err.getD "Unknown create failure", now⟩ }, [])
  | .destroyRequest =>
    ({ m with counters := { c with destroyRequests := c.destroyRequests + 1 } }, [])
  | .destroySuccess =>
    ({ m with counters := { c with destroySuccesses := c.destroySuccesses + 1 } }, [])
  | .destroyFail =>
    ({ m with counters := { c with destroyFailures := c.destroyFailures + 1 } }, [])

/-- `getMetrics()`. -/
structure Metrics extends Snapshot where
  counters : Counters
  lastAcquireDurationMs : ℤ
  maxAcquireDurationMs : ℤ
  avgAcquireDurationMs : ℚ
  acquireSamplesCount : ℕ
  lastFailure : Option Failure

def Monitor.getMetrics (m : Monitor) (load : Load) : Metrics :=
  let t := m.timing
  { m.getSnapshot load with
    counters := m.counters
    lastAcquireDurationMs := t.lastAcquireDurationMs
    maxAcquireDurationMs := t.maxAcquireDurationMs
    avgAcquireDurationMs := if 0 < t.acquireSamplesCount then
      toFixed 2 (nearest (t.totalAcquireDurationMs / t.acquireSamplesCount)) else 0
    acquireSamplesCount := t.acquireSamplesCount
    lastFailure := m.lastFailure }

/-- What happens to a monitor. -/
inductive Step where
  | event (event : Event) (now : ℕ) (load : Load)
  | reset

/-- A step, with the alerts so far. -/
def step (c : Monitor × List Alert) : Step → Monitor × List Alert
  | .event event now load =>
    let (m, alerts) := c.1.on event now load
    (m, c.2 ++ alerts)
  | .reset => (c.1.reset, c.2)

/-! ## 2. The acquisitions -/

/-- The acquisitions of a pool: those that are waiting, with the times of their requests; how many of them
were when the counters were last reset; and, since then, how long each one that has succeeded has waited
and how many have failed. -/
structure Tally where
  waiting : List (ℕ × ℕ) := []
  carried : ℕ := 0
  waits : List ℤ := []
  failures : ℕ := 0

/-- How long a request has waited. -/
def Tally.waited (t : Tally) (eventId now : ℕ) : ℤ :=
  now - ((JsMap.find eventId t.waiting).getD now : ℕ)

def Tally.settle (t : Tally) (eventId : ℕ) : List (ℕ × ℕ) := t.waiting.filter fun e => e.1 ≠ eventId

def Tally.step (t : Tally) : Step → Tally
  | .event (.acquireRequest eventId) now _ => { t with waiting := t.waiting ++ [(eventId, now)] }
  | .event (.acquireSuccess eventId) now _ =>
    { t with waiting := t.settle eventId, waits := t.waits ++ [t.waited eventId now] }
  | .event (.acquireFail eventId _) _ _ =>
    { t with waiting := t.settle eventId, failures := t.failures + 1 }
  | .event .. => t
  | .reset => { t with carried := t.waiting.length, waits := [], failures := 0 }

/-- The request of the step is one that the pool can make or answer then: it makes none twice while the
first is waiting, and answers none that is not. -/
def Tally.Allows (t : Tally) : Step → Prop
  | .event (.acquireRequest eventId) now _ => eventId ∉ t.waiting.map Prod.fst ∧ now ≠ 0
  | .event (.acquireSuccess eventId) _ _ => eventId ∈ t.waiting.map Prod.fst
  | .event (.acquireFail eventId _) _ _ => eventId ∈ t.waiting.map Prod.fst
  | _ => True

instance (t : Tally) (s : Step) : Decidable (t.Allows s) := by
  unfold Tally.Allows
  split <;> infer_instance

/-- A run of an orderly pool. -/
def Orderly : Tally → List Step → Prop
  | _, [] => True
  | t, s :: steps => t.Allows s ∧ Orderly (t.step s) steps

instance decidableOrderly : (t : Tally) → (steps : List Step) → Decidable (Orderly t steps)
  | _, [] => .isTrue trivial
  | t, s :: steps =>
    have := decidableOrderly (t.step s) steps
    inferInstanceAs (Decidable (_ ∧ _))

/-- The longest wait. -/
def longest (waits : List ℤ) : ℤ := waits.foldl max 0

/-- **What a monitor knows** of the acquisitions. -/
structure Knows (t : Tally) (m : Monitor) : Prop where
  timers : m.pendingAcquireTimers.entries = t.waiting
  started : ∀ e ∈ t.waiting, e.2 ≠ 0
  requests : m.counters.acquireRequests + t.carried =
    m.counters.acquireSuccesses + m.counters.acquireFailures + t.waiting.length
  successes : m.counters.acquireSuccesses = t.waits.length
  failures : m.counters.acquireFailures = t.failures
  samples : m.timing.acquireSamplesCount = t.waits.length
  total : m.timing.totalAcquireDurationMs = t.waits.sum
  last : m.timing.lastAcquireDurationMs = t.waits.getLastD 0
  longest : m.timing.maxAcquireDurationMs = longest t.waits

/-! ## 3. What the monitor knows -/

variable {t : Tally} {m m' : Monitor} {load : Load} {now : ℕ}

theorem Knows.new (warningThreshold criticalThreshold : ℚ) :
    Knows {} (.new warningThreshold criticalThreshold) where
  timers := rfl
  started _ h := nomatch h
  requests := rfl
  successes := rfl
  failures := rfl
  samples := rfl
  total := rfl
  last := rfl
  longest := rfl

/-- The acquisitions are the same to both. -/
structure SameAcquisitions (m m' : Monitor) : Prop where
  timers : m'.pendingAcquireTimers = m.pendingAcquireTimers
  timing : m'.timing = m.timing
  requests : m'.counters.acquireRequests = m.counters.acquireRequests
  successes : m'.counters.acquireSuccesses = m.counters.acquireSuccesses
  failures : m'.counters.acquireFailures = m.counters.acquireFailures

theorem Knows.congr (h : Knows t m) (hsame : SameAcquisitions m m') : Knows t m' where
  timers := hsame.timers ▸ h.timers
  started := h.started
  requests := by rw [hsame.requests, hsame.successes, hsame.failures, h.requests]
  successes := hsame.successes.trans h.successes
  failures := hsame.failures.trans h.failures
  samples := hsame.timing ▸ h.samples
  total := hsame.timing ▸ h.total
  last := hsame.timing ▸ h.last
  longest := hsame.timing ▸ h.longest

/-- A look at the load changes nothing but the times of the alerts. -/
theorem sameAcquisitions_checkHealth (m : Monitor) (load : Load) (now : ℕ) :
    SameAcquisitions m (m.checkHealth load now).1 := by
  unfold Monitor.checkHealth
  dsimp only
  split
  · exact ⟨rfl, rfl, rfl, rfl, rfl⟩
  · split
    · split <;> exact ⟨rfl, rfl, rfl, rfl, rfl⟩
    · split
      · split <;> exact ⟨rfl, rfl, rfl, rfl, rfl⟩
      · exact ⟨rfl, rfl, rfl, rfl, rfl⟩

theorem Knows.mem_keys (h : Knows t m) {eventId : ℕ} :
    eventId ∈ m.pendingAcquireTimers.keys ↔ eventId ∈ t.waiting.map Prod.fst := by
  rw [JsMap.keys, h.timers]

theorem Knows.entries_delete (h : Knows t m) (eventId : ℕ) :
    (m.pendingAcquireTimers.delete eventId).entries = t.settle eventId := by
  rw [JsMap.entries_delete, h.timers, Tally.settle]

/-- One request fewer is waiting. -/
theorem Knows.length_settle (h : Knows t m) {eventId : ℕ} (hwaiting : eventId ∈ t.waiting.map Prod.fst) :
    (t.settle eventId).length + 1 = t.waiting.length := by
  have hmem : eventId ∈ m.pendingAcquireTimers.keys := h.mem_keys.mpr hwaiting
  have hkeys := congrArg List.length (JsMap.keys_delete (m := m.pendingAcquireTimers) (k := eventId))
  rw [List.length_erase_of_mem hmem, JsMap.keys, List.length_map, JsMap.keys, List.length_map,
    h.entries_delete, h.timers] at hkeys
  have hpos : 0 < t.waiting.length := by
    rw [← List.length_map (f := Prod.fst)]
    exact List.length_pos_of_mem hwaiting
  omega

theorem Knows.acquireRequest (h : Knows t m) {eventId : ℕ} (hfresh : eventId ∉ t.waiting.map Prod.fst)
    (hnow : now ≠ 0) : Knows (t.step (.event (.acquireRequest eventId) now load))
      (m.on (.acquireRequest eventId) now load).1 where
  timers := by
    show (m.pendingAcquireTimers.set eventId now).entries = t.waiting ++ [(eventId, now)]
    rw [JsMap.entries_set_of_not_mem (h.mem_keys.not.mpr hfresh), h.timers]
  started e he := by
    rcases List.mem_append.mp he with he | he
    · exact h.started e he
    · rw [List.mem_singleton.mp he]
      exact hnow
  requests := by
    have hrequests := h.requests
    simp only [Monitor.on, Tally.step, List.length_append, List.length_singleton]
    omega
  successes := h.successes
  failures := h.failures
  samples := h.samples
  total := h.total
  last := h.last
  longest := h.longest

theorem Knows.acquireFail (h : Knows t m) {eventId : ℕ} (hwaiting : eventId ∈ t.waiting.map Prod.fst)
    (err : Option String) : Knows (t.step (.event (.acquireFail eventId err) now load))
      (m.on (.acquireFail eventId err) now load).1 where
  timers := h.entries_delete eventId
  started e he := h.started e (List.mem_of_mem_filter he)
  requests := by
    have hrequests := h.requests
    have hlength := h.length_settle hwaiting
    simp only [Monitor.on, Tally.step]
    omega
  successes := h.successes
  failures := congrArg (· + 1) h.failures
  samples := h.samples
  total := h.total
  last := h.last
  longest := h.longest

/-- The timer of a request that is waiting. -/
theorem Knows.timed_eq (h : Knows t m) {eventId : ℕ} (hwaiting : eventId ∈ t.waiting.map Prod.fst)
    (now : ℕ) : m.timed eventId now = { m with
      timing := m.timing.record (t.waited eventId now)
      pendingAcquireTimers := m.pendingAcquireTimers.delete eventId } := by
  obtain ⟨startTime, hstart⟩ := Option.isSome_iff_exists.mp (JsMap.find_isSome.mpr hwaiting)
  have hget : m.pendingAcquireTimers.get? eventId = some startTime := by
    rw [JsMap.get?, h.timers, hstart]
  have hne : startTime ≠ 0 := h.started _ (JsMap.mem_of_find hstart)
  unfold Monitor.timed Tally.waited
  rw [hget, hstart]
  exact if_neg hne

theorem Knows.acquireSuccess (h : Knows t m) {eventId : ℕ} (hwaiting : eventId ∈ t.waiting.map Prod.fst) :
    Knows (t.step (.event (.acquireSuccess eventId) now load))
      (m.on (.acquireSuccess eventId) now load).1 := by
  refine Knows.congr ?_ (sameAcquisitions_checkHealth _ load now)
  have htimed := h.timed_eq hwaiting now
  have hmoved : ({ m with counters :=
      { m.counters with acquireSuccesses := m.counters.acquireSuccesses + 1 } } : Monitor).timed
        eventId now = { m.timed eventId now with counters :=
          { m.counters with acquireSuccesses := m.counters.acquireSuccesses + 1 } } := by
    unfold Monitor.timed
    dsimp only
    split
    · rfl
    · split <;> rfl
  rw [hmoved, htimed]
  exact
    { timers := h.entries_delete eventId
      started := fun e he => h.started e (List.mem_of_mem_filter he)
      requests := by
        have hrequests := h.requests
        have hlength := h.length_settle hwaiting
        simp only [Tally.step]
        omega
      successes := by simp [Tally.step, h.successes]
      failures := h.failures
      samples := by simp [Tally.step, Timing.record, h.samples]
      total := by simp [Tally.step, Timing.record, h.total]
      last := by simp [Tally.step, Timing.record]
      longest := by
        simp only [Tally.step, Timing.record, PoolMonitor.longest, List.foldl_append, List.foldl_cons,
          List.foldl_nil]
        rw [show t.waits.foldl max 0 = m.timing.maxAcquireDurationMs from h.longest.symm]
        split <;> omega }

/-- **One step.** -/
theorem Knows.step (h : Knows t m) {s : Step} (hs : t.Allows s) (alerts : List Alert) :
    Knows (t.step s) (PoolMonitor.step (m, alerts) s).1 := by
  cases s with
  | reset =>
    exact
      { timers := h.timers
        started := h.started
        requests := by simp [Tally.step, PoolMonitor.step, Monitor.reset]
        successes := rfl
        failures := rfl
        samples := rfl
        total := rfl
        last := rfl
        longest := rfl }
  | event event now load =>
    cases event with
    | acquireRequest eventId => exact h.acquireRequest hs.1 hs.2
    | acquireSuccess eventId => exact h.acquireSuccess hs
    | acquireFail eventId err => exact h.acquireFail hs err
    | release =>
      refine h.congr ?_
      have hsame := sameAcquisitions_checkHealth
        { m with counters := { m.counters with releases := m.counters.releases + 1 } } load now
      exact ⟨hsame.timers, hsame.timing, hsame.requests, hsame.successes, hsame.failures⟩
    | _ => exact h.congr ⟨rfl, rfl, rfl, rfl, rfl⟩

/-- **Every run.** -/
theorem Knows.run (h : Knows t m) {steps : List Step} (horderly : Orderly t steps) (alerts : List Alert) :
    Knows (steps.foldl Tally.step t) (steps.foldl PoolMonitor.step (m, alerts)).1 := by
  induction steps generalizing t m alerts with
  | nil => exact h
  | cons s steps ih => exact ih (h.step horderly.1 alerts) horderly.2 _

/-! ## 4. The alerts -/

/-- The level of a load. -/
def levelOf (warningThreshold criticalThreshold : ℚ) (load : Load) : Option Bool :=
  if load.max = 0 then none
  else if criticalThreshold ≤ share load.used load.max then some true
  else if warningThreshold ≤ share load.used load.max then some false
  else none

/-- When the last alert of a level was raised. -/
def Monitor.lastAt (m : Monitor) (critical : Bool) : Option ℕ :=
  if critical then m.lastCriticalAt else m.lastWarningAt

/-- The looks at the load, with their times. -/
def looks (steps : List Step) : List (ℕ × Load) :=
  steps.filterMap fun s => match s with
    | .event (.acquireSuccess _) now load => some (now, load)
    | .event .release now load => some (now, load)
    | _ => none

/-- When a look has found a level. -/
def timesOf (warningThreshold criticalThreshold : ℚ) (critical : Bool) (steps : List Step) : List ℕ :=
  ((looks steps).filter fun look =>
    levelOf warningThreshold criticalThreshold look.2 = some critical).map Prod.fst

/-- **A look at the load**: the level it finds has its throttle, and nothing is said of the other. -/
theorem checkHealth_spec (m : Monitor) (load : Load) (now : ℕ) (critical : Bool) :
    let level := levelOf m.warningThreshold m.criticalThreshold load
    let r := m.checkHealth load now
    r.1.lastAt critical = (if level = some critical then
        Throttle.next ALERT_INTERVAL_MS (m.lastAt critical) now else m.lastAt critical) ∧
      (r.2.filter fun alert => alert.critical = critical).map Alert.time =
        if level = some critical ∧ Throttle.due ALERT_INTERVAL_MS (m.lastAt critical) now = true
          then [now] else [] := by
  have hmax : (m.getSnapshot load).max = load.max := rfl
  have hutilization : (m.getSnapshot load).utilization = share load.used load.max := rfl
  dsimp only
  unfold Monitor.checkHealth levelOf
  dsimp only
  rw [hmax, hutilization]
  by_cases hzero : load.max = 0
  · simp [hzero]
  by_cases hcritical : m.criticalThreshold ≤ share load.used load.max
  · by_cases hdue : Throttle.due ALERT_INTERVAL_MS m.lastCriticalAt now = true
    · cases critical <;> simp [hzero, hcritical, hdue, Monitor.lastAt, Throttle.next]
    · cases critical <;> simp [hzero, hcritical, hdue, Monitor.lastAt, Throttle.next]
  · by_cases hwarning : m.warningThreshold ≤ share load.used load.max
    · by_cases hdue : Throttle.due ALERT_INTERVAL_MS m.lastWarningAt now = true
      · cases critical <;> simp [hzero, hcritical, hwarning, hdue, Monitor.lastAt, Throttle.next]
      · cases critical <;> simp [hzero, hcritical, hwarning, hdue, Monitor.lastAt, Throttle.next]
    · simp [hzero, hcritical, hwarning]

theorem thresholds_checkHealth (m : Monitor) (load : Load) (now : ℕ) :
    (m.checkHealth load now).1.warningThreshold = m.warningThreshold ∧
      (m.checkHealth load now).1.criticalThreshold = m.criticalThreshold := by
  unfold Monitor.checkHealth
  dsimp only
  split
  · exact ⟨rfl, rfl⟩
  · split
    · split <;> exact ⟨rfl, rfl⟩
    · split
      · split <;> exact ⟨rfl, rfl⟩
      · exact ⟨rfl, rfl⟩

/-- The answer to a request leaves the alerts alone. -/
theorem timed_alerts (m : Monitor) (eventId now : ℕ) :
    (m.timed eventId now).warningThreshold = m.warningThreshold ∧
      (m.timed eventId now).criticalThreshold = m.criticalThreshold ∧
      ∀ critical, (m.timed eventId now).lastAt critical = m.lastAt critical := by
  unfold Monitor.timed
  split
  · exact ⟨rfl, rfl, fun _ => rfl⟩
  · split <;> exact ⟨rfl, rfl, fun _ => rfl⟩

theorem thresholds_step (c : Monitor × List Alert) (s : Step) :
    (step c s).1.warningThreshold = c.1.warningThreshold ∧
      (step c s).1.criticalThreshold = c.1.criticalThreshold := by
  cases s with
  | reset => exact ⟨rfl, rfl⟩
  | event event now load =>
    cases event with
    | acquireSuccess eventId =>
      obtain ⟨hw, hc⟩ := thresholds_checkHealth (Monitor.timed { c.1 with counters :=
        { c.1.counters with acquireSuccesses := c.1.counters.acquireSuccesses + 1 } } eventId now) load now
      obtain ⟨hw', hc', -⟩ := timed_alerts { c.1 with counters :=
        { c.1.counters with acquireSuccesses := c.1.counters.acquireSuccesses + 1 } } eventId now
      exact ⟨hw.trans hw', hc.trans hc'⟩
    | release => exact thresholds_checkHealth { c.1 with counters :=
        { c.1.counters with releases := c.1.counters.releases + 1 } } load now
    | _ => exact ⟨rfl, rfl⟩

theorem thresholds_run (c : Monitor × List Alert) (steps : List Step) :
    (steps.foldl step c).1.warningThreshold = c.1.warningThreshold ∧
      (steps.foldl step c).1.criticalThreshold = c.1.criticalThreshold := by
  induction steps generalizing c with
  | nil => exact ⟨rfl, rfl⟩
  | cons s steps ih =>
    obtain ⟨hw, hc⟩ := ih (step c s)
    obtain ⟨hw', hc'⟩ := thresholds_step c s
    exact ⟨hw.trans hw', hc.trans hc'⟩

/-- The alerts of a level are those of a throttle. -/
structure Throttled (warningThreshold criticalThreshold : ℚ) (critical : Bool) (steps : List Step)
    (c : Monitor × List Alert) : Prop where
  last : c.1.lastAt critical = (timesOf warningThreshold criticalThreshold critical steps).foldl
    (Throttle.next ALERT_INTERVAL_MS) none
  fired : (c.2.filter fun alert => alert.critical = critical).map Alert.time =
    Throttle.fires ALERT_INTERVAL_MS none (timesOf warningThreshold criticalThreshold critical steps)

variable {warningThreshold criticalThreshold : ℚ} {critical : Bool} {steps : List Step}
  {c : Monitor × List Alert}

theorem timesOf_append (steps : List Step) (s : Step) :
    timesOf warningThreshold criticalThreshold critical (steps ++ [s]) =
      timesOf warningThreshold criticalThreshold critical steps ++
        timesOf warningThreshold criticalThreshold critical [s] := by
  simp [timesOf, looks]

/-- A step without a look. -/
theorem Throttled.quiet (h : Throttled warningThreshold criticalThreshold critical steps c) {s : Step}
    (hs : looks [s] = []) {m : Monitor} (hm : m.lastAt critical = c.1.lastAt critical) :
    Throttled warningThreshold criticalThreshold critical (steps ++ [s]) (m, c.2 ++ []) := by
  have htimes : timesOf warningThreshold criticalThreshold critical (steps ++ [s]) =
      timesOf warningThreshold criticalThreshold critical steps := by
    rw [timesOf_append]
    simp [timesOf, hs]
  exact ⟨by rw [htimes, hm, h.last], by rw [htimes, List.append_nil, h.fired]⟩

/-- A step with a look. -/
theorem Throttled.look (h : Throttled warningThreshold criticalThreshold critical steps c) {s : Step}
    {now : ℕ} {load : Load} (hs : looks [s] = [(now, load)]) {m : Monitor}
    (hm : m.lastAt critical = c.1.lastAt critical) (hw : m.warningThreshold = warningThreshold)
    (hc : m.criticalThreshold = criticalThreshold) :
    Throttled warningThreshold criticalThreshold critical (steps ++ [s])
      ((m.checkHealth load now).1, c.2 ++ (m.checkHealth load now).2) := by
  obtain ⟨hlast, hfired⟩ := checkHealth_spec m load now critical
  rw [hw, hc, hm] at hlast hfired
  have htimes : timesOf warningThreshold criticalThreshold critical [s] =
      if levelOf warningThreshold criticalThreshold load = some critical then [now] else [] := by
    unfold timesOf
    rw [hs]
    by_cases hlevel : levelOf warningThreshold criticalThreshold load = some critical <;> simp [hlevel]
  by_cases hlevel : levelOf warningThreshold criticalThreshold load = some critical
  · rw [if_pos hlevel] at hlast htimes
    refine ⟨?_, ?_⟩
    · rw [timesOf_append, htimes, List.foldl_append, ← h.last]
      exact hlast
    · rw [List.filter_append, List.map_append, h.fired, hfired, timesOf_append, htimes,
        Throttle.fires_append, ← h.last]
      by_cases hdue : Throttle.due ALERT_INTERVAL_MS (c.1.lastAt critical) now = true <;>
        simp [hlevel, hdue]
  · rw [if_neg hlevel] at hlast htimes
    refine ⟨?_, ?_⟩
    · rw [timesOf_append, htimes, List.append_nil, ← h.last]
      exact hlast
    · rw [List.filter_append, List.map_append, h.fired, hfired, timesOf_append, htimes,
        if_neg fun hboth => hlevel hboth.1, List.append_nil, List.append_nil]

/-- **One step.** -/
theorem Throttled.step (h : Throttled warningThreshold criticalThreshold critical steps c) {s : Step}
    (hs : s ≠ .reset) (hw : c.1.warningThreshold = warningThreshold)
    (hc : c.1.criticalThreshold = criticalThreshold) :
    Throttled warningThreshold criticalThreshold critical (steps ++ [s]) (PoolMonitor.step c s) := by
  cases s with
  | reset => exact absurd rfl hs
  | event event now load =>
    cases event with
    | acquireSuccess eventId =>
      obtain ⟨hw', hc', hlast⟩ := timed_alerts { c.1 with counters :=
        { c.1.counters with acquireSuccesses := c.1.counters.acquireSuccesses + 1 } } eventId now
      exact h.look rfl (hlast critical) (hw'.trans hw) (hc'.trans hc)
    | release => exact h.look rfl rfl hw hc
    | _ => exact h.quiet rfl rfl

/-- **Every run** without a reset. -/
theorem throttled_run (warningThreshold criticalThreshold : ℚ) (critical : Bool) {steps : List Step}
    (hsteps : Step.reset ∉ steps) : Throttled warningThreshold criticalThreshold critical steps
      (steps.foldl step (.new warningThreshold criticalThreshold, [])) := by
  induction steps using List.reverseRecOn with
  | nil =>
    refine ⟨?_, rfl⟩
    cases critical <;> rfl
  | append_singleton steps s ih =>
    obtain ⟨hrest, hs⟩ := not_or.mp (List.mem_append.not.mp hsteps)
    obtain ⟨hw, hc⟩ := thresholds_run (.new warningThreshold criticalThreshold, []) steps
    rw [List.foldl_append]
    exact (ih hrest).step (fun heq => hs (heq ▸ List.mem_cons_self)) hw hc

/-- One acquisition that succeeds, on a pool that is then full, and one that fails. -/
def sampleSteps : List Step :=
  let full : Load := ⟨0, 10, 10, 0, 1, 0⟩
  [.event (.acquireRequest 1) 1000 full, .event (.acquireRequest 2) 1001 full,
    .event (.acquireSuccess 1) 1007 full, .event (.acquireFail 2 (some "timeout")) 31001 full,
    .event .release 32000 full]

/-- **The alerts are throttled.**  In every run without a reset, on a clock that does not go back: two
alerts of one level are more than a minute apart, each was raised by a look that found the level, and each
look that finds a level comes within a minute of an alert of this level. -/
theorem alerts_throttled (warningThreshold criticalThreshold : ℚ) (critical : Bool) {steps : List Step}
    (hsteps : Step.reset ∉ steps) (hclock : ((looks steps).map Prod.fst).Pairwise (· ≤ ·))
    (hpos : ∀ look ∈ looks steps, look.1 ≠ 0) :
    let alerts := (steps.foldl step (.new warningThreshold criticalThreshold, [])).2.filter
      fun alert => alert.critical = critical
    alerts.Pairwise (fun alert alert' => alert.time + ALERT_INTERVAL_MS < alert'.time) ∧
      (∀ alert ∈ alerts, ∃ load, (alert.time, load) ∈ looks steps ∧
        levelOf warningThreshold criticalThreshold load = some critical) ∧
      ∀ look ∈ looks steps, levelOf warningThreshold criticalThreshold look.2 = some critical →
        ∃ alert ∈ alerts, alert.time ≤ look.1 ∧ look.1 ≤ alert.time + ALERT_INTERVAL_MS := by
  have h := (throttled_run warningThreshold criticalThreshold critical hsteps).fired
  set alerts := (steps.foldl step (.new warningThreshold criticalThreshold, [])).2.filter
    fun alert => alert.critical = critical
  have htimes : ∀ t ∈ timesOf warningThreshold criticalThreshold critical steps, ∃ load,
      (t, load) ∈ looks steps ∧ levelOf warningThreshold criticalThreshold load = some critical := by
    intro t ht
    obtain ⟨⟨now, load⟩, hlook, rfl⟩ := List.mem_map.mp ht
    obtain ⟨hlook, hlevel⟩ := List.mem_filter.mp hlook
    exact ⟨load, hlook, of_decide_eq_true hlevel⟩
  have hne : ∀ t ∈ timesOf warningThreshold criticalThreshold critical steps, t ≠ 0 := by
    intro t ht
    obtain ⟨load, hlook, -⟩ := htimes t ht
    exact hpos _ hlook
  refine ⟨?_, fun alert halert => ?_, fun look hlook hlevel => ?_⟩
  · have hspaced := @Throttle.spaced_fires ALERT_INTERVAL_MS _ none hne
    rw [← h] at hspaced
    exact List.pairwise_map.mp hspaced
  · have hfired : alert.time ∈ Throttle.fires ALERT_INTERVAL_MS none
        (timesOf warningThreshold criticalThreshold critical steps) := h ▸ List.mem_map_of_mem halert
    exact htimes _ (Throttle.mem_of_mem_fires hfired)
  · have hsorted : (timesOf warningThreshold criticalThreshold critical steps).Pairwise (· ≤ ·) :=
      hclock.sublist (List.filter_sublist.map Prod.fst)
    have hmem : look.1 ∈ timesOf warningThreshold criticalThreshold critical steps :=
      List.mem_map_of_mem (List.mem_filter.mpr ⟨hlook, decide_eq_true hlevel⟩)
    obtain ⟨t, ht, hbounds⟩ : ∃ t, ((none : Option ℕ) = some t ∨
        t ∈ Throttle.fires ALERT_INTERVAL_MS none
          (timesOf warningThreshold criticalThreshold critical steps)) ∧
        t ≤ look.1 ∧ look.1 ≤ t + ALERT_INTERVAL_MS :=
      Throttle.covered_fires hsorted (by simp) hmem
    have hfired : t ∈ alerts.map Alert.time := h ▸ ht.resolve_left fun heq => nomatch heq
    obtain ⟨alert, halert, rfl⟩ := List.mem_map.mp hfired
    exact ⟨alert, halert, hbounds⟩

theorem alerts_throttled_sample :
    let alerts := (sampleSteps.foldl step (.new (4 / 5) (19 / 20), [])).2.filter
      fun alert => alert.critical = true
    alerts.Pairwise (fun alert alert' => alert.time + ALERT_INTERVAL_MS < alert'.time) ∧
      (∀ alert ∈ alerts, ∃ load, (alert.time, load) ∈ looks sampleSteps ∧
        levelOf (4 / 5) (19 / 20) load = some true) ∧
      ∀ look ∈ looks sampleSteps, levelOf (4 / 5) (19 / 20) look.2 = some true →
        ∃ alert ∈ alerts, alert.time ≤ look.1 ∧ look.1 ≤ alert.time + ALERT_INTERVAL_MS :=
  alerts_throttled (4 / 5) (19 / 20) true (by simp [sampleSteps])
    (by simp [sampleSteps, looks]) (by simp [sampleSteps, looks])

end SmartDrop.PoolMonitor
