/-
# The circuit breaker

A `CircuitBreaker` wraps the calls to one dependency.  A `call` is two pieces of code with the
wrapped function between them: what is done before it (`enter`), and what is done when it settles
(`settle`).  Any number of other calls can begin and end in between.

Section 4 is the breaker among its calls: a clock, the calls in flight, and a record of the
half-open periods that no code reads.  Section 5 is what always holds of it
(`breaker_invariants`): each of the transitions resets another group of the counters, and
together they keep the five of them in step.
-/
import SmartDrop.Lib.Run
import Mathlib.Data.Int.Notation
import Mathlib.Data.List.Perm.Basic

namespace SmartDrop.Utils

open Conc

/-! ## 1. Breakers -/

/-- `STATES`. -/
inductive STATES where
  | CLOSED
  | OPEN
  | HALF_OPEN
deriving DecidableEq, Repr

/-- The options of a breaker for calls that fail with an `ε`. -/
structure Options (ε : Type) where
  failureThreshold : Option ℤ
  successThreshold : Option ℤ
  timeoutMs : Option ℤ
  windowMs : Option ℤ
  trialCount : Option ℤ
  throwOnOpen : Bool
  isFailure : ε → Bool

/-- What a breaker never changes. -/
structure CircuitBreaker (ε : Type) where
  name : String
  failureThreshold : ℕ
  successThreshold : ℕ
  timeoutMs : ℕ
  windowMs : ℕ
  trialCount : ℕ
  throwOnOpen : Bool
  isFailure : ε → Bool
  one_le_failureThreshold : 1 ≤ failureThreshold
  one_le_successThreshold : 1 ≤ successThreshold
  one_le_timeoutMs : 1 ≤ timeoutMs
  one_le_trialCount : 1 ≤ trialCount

/-- `Math.max(1, option ?? default)`. -/
def atLeastOne (option : Option ℤ) (default : ℤ) : ℕ := (max 1 (option.getD default)).toNat

theorem one_le_atLeastOne (option : Option ℤ) (default : ℤ) : 1 ≤ atLeastOne option default := by
  unfold atLeastOne
  omega

/-- `new CircuitBreaker(name, options)`. -/
def CircuitBreaker.new {ε : Type} (name : String) (options : Options ε) : CircuitBreaker ε where
  name
  failureThreshold := atLeastOne options.failureThreshold 3
  successThreshold := atLeastOne options.successThreshold 1
  timeoutMs := atLeastOne options.timeoutMs 30000
  windowMs := atLeastOne options.windowMs 60000
  trialCount := atLeastOne options.trialCount 1
  throwOnOpen := options.throwOnOpen
  isFailure := options.isFailure
  one_le_failureThreshold := one_le_atLeastOne _ _
  one_le_successThreshold := one_le_atLeastOne _ _
  one_le_timeoutMs := one_le_atLeastOne _ _
  one_le_trialCount := one_le_atLeastOne _ _

/-- What a breaker changes.  `failures` are the times of the failures in the rolling window. -/
structure Breaker where
  state : STATES
  failures : List ℕ
  failureCount : ℕ
  successCount : ℕ
  openedAt : Option ℕ
  halfOpenInFlight : Bool
  halfOpenCallsInFlight : ℕ
deriving DecidableEq

/-- A new breaker. -/
def Breaker.new : Breaker where
  state := .CLOSED
  failures := []
  failureCount := 0
  successCount := 0
  openedAt := none
  halfOpenInFlight := false
  halfOpenCallsInFlight := 0

/-! ## 2. Transitions -/

section Transitions

variable {ε : Type} (c : CircuitBreaker ε) (now : ℕ) (b : Breaker)

/-- `_pruneFailures`. -/
def pruneFailures : Breaker :=
  let failures := b.failures.filter fun t => now ≤ t + c.windowMs
  { b with
    failures
    failureCount := if b.state = .CLOSED then failures.length else b.failureCount }

/-- `_transitionTo`. -/
def transitionTo (nextState : STATES) : Breaker :=
  if b.state = nextState then b
  else
    { b with
      state := nextState
      failureCount := 0
      failures := []
      successCount := 0
      openedAt := if nextState = .OPEN then some now else none }

/-- `_moveToHalfOpenIfReady`. -/
def moveToHalfOpenIfReady : Breaker :=
  match b.openedAt with
  | none => b
  | some openedAt =>
    if b.state = .OPEN ∧ c.timeoutMs ≤ now - openedAt then transitionTo now b .HALF_OPEN else b

/-- `recordSuccess`. -/
def recordSuccess : Breaker :=
  match b.state with
  | .HALF_OPEN =>
    let b := { b with successCount := b.successCount + 1 }
    if c.successThreshold ≤ b.successCount then transitionTo now b .CLOSED else b
  | .CLOSED => { b with failureCount := 0, failures := [] }
  | .OPEN => b

/-- `recordFailure`. -/
def recordFailure : Breaker :=
  match b.state with
  | .HALF_OPEN => transitionTo now b .OPEN
  | .CLOSED =>
    let b := pruneFailures c now { b with failures := b.failures ++ [now] }
    let b := { b with failureCount := b.failures.length }
    if c.failureThreshold ≤ b.failureCount then transitionTo now b .OPEN else b
  | .OPEN => b

/-- `getCooldownRemainingMs`; an `openedAt` of `0` counts as missing. -/
def getCooldownRemainingMs : ℕ :=
  match b.state, b.openedAt with
  | .OPEN, some (openedAt + 1) => c.timeoutMs - (now - (openedAt + 1))
  | _, _ => 0

end Transitions

/-! ## 3. Calls -/

/-- `CircuitBreakerOpenError`. -/
structure CircuitBreakerOpenError where
  message : String
  name : String
  code : String
  statusCode : ℕ
  status : ℕ
  clientName : String
  retryAfter : ℕ
  isCircuitBreakerError : Bool
deriving DecidableEq

/-- `new CircuitBreakerOpenError(clientName, cooldownRemainingMs)`. -/
def CircuitBreakerOpenError.new (clientName : String) (cooldownRemainingMs : ℕ) :
    CircuitBreakerOpenError where
  message := "Service '" ++ clientName ++ "' is temporarily unavailable (circuit breaker open)"
  name := "CircuitBreakerOpenError"
  code := "SERVICE_UNAVAILABLE"
  statusCode := 503
  status := 503
  clientName
  retryAfter := max 1 ((cooldownRemainingMs + 999) / 1000)
  isCircuitBreakerError := true

/-- What a call does before anything is awaited: it returns `null`, throws, or invokes the
wrapped function. -/
inductive Entry where
  | skipped
  | refused (e : CircuitBreakerOpenError)
  | invoked (probing : Bool)
deriving DecidableEq

/-- How the wrapped function settles, or the timeout that it is raced with. -/
inductive Outcome (ε : Type) where
  | resolved
  | rejected (err : ε)

section Calls

variable {ε : Type} (c : CircuitBreaker ε)

/-- `call`, until the wrapped function is invoked. -/
def enter (throwOnOpen : Option Bool) (now : ℕ) (b : Breaker) : Entry × Breaker :=
  let b := moveToHalfOpenIfReady c now b
  let shouldThrow := throwOnOpen.getD c.throwOnOpen
  let skip := if shouldThrow then
      .refused (.new c.name (getCooldownRemainingMs c now b))
    else .skipped
  if b.state = .OPEN then (skip, b)
  else if b.state = .HALF_OPEN ∧ c.trialCount ≤ b.halfOpenCallsInFlight then (skip, b)
  else if b.state = .HALF_OPEN then
    (.invoked true,
      { b with halfOpenInFlight := true, halfOpenCallsInFlight := b.halfOpenCallsInFlight + 1 })
  else (.invoked false, b)

/-- What is recorded of an outcome; errors that are no failures of the dependency are ignored. -/
def record (now : ℕ) (o : Outcome ε) (b : Breaker) : Breaker :=
  match o with
  | .resolved => recordSuccess c now b
  | .rejected err => if c.isFailure err then recordFailure c now b else b

/-- The `finally` of a call. -/
def leave (probing : Bool) (b : Breaker) : Breaker :=
  if probing then
    { b with
      halfOpenCallsInFlight := b.halfOpenCallsInFlight - 1
      halfOpenInFlight := decide (0 < b.halfOpenCallsInFlight - 1) }
  else b

/-- `call`, from where the wrapped function settles. -/
def settle (probing : Bool) (now : ℕ) (o : Outcome ε) (b : Breaker) : Breaker :=
  leave probing (record c now o b)

end Calls

/-! ## 4. The breaker among its calls -/

/-- A call in flight: whether it was admitted as a probe, and in which half-open period. -/
structure Call where
  probing : Bool
  period : ℕ
deriving DecidableEq

/-- A breaker, the clock and the calls in flight.  The last three fields are a record: how many
half-open periods have begun, and of the latest one, how many calls have arrived in it and how
many of its own probes have succeeded. -/
structure System where
  now : ℕ
  breaker : Breaker
  calls : List Call
  period : ℕ
  arrived : ℕ
  successes : ℕ

/-- Before the first call. -/
def System.init : System where
  now := 0
  breaker := .new
  calls := []
  period := 0
  arrived := 0
  successes := 0

/-- What can happen: the clock advances, a call arrives (`execute` is a `call` that throws), the
`n`-th call in flight settles, or somebody asks for the state or the number of failures. -/
inductive Label (ε : Type) where
  | tick (ms : ℕ)
  | call (throwOnOpen : Option Bool)
  | complete (n : ℕ) (o : Outcome ε)
  | getState
  | getFailureCount

namespace System

variable {ε : Type} (c : CircuitBreaker ε) (s : System)

/-- The breaker is `b` now, which may have begun a half-open period. -/
def note (b : Breaker) : System :=
  if s.breaker.state ≠ .HALF_OPEN ∧ b.state = .HALF_OPEN then
    { s with breaker := b, period := s.period + 1, arrived := 0, successes := 0 }
  else { s with breaker := b }

/-- A call arrives, and is in flight if the wrapped function is invoked. -/
def arrive (throwOnOpen : Option Bool) : System :=
  let (entry, b) := enter c throwOnOpen s.now s.breaker
  let s := s.note b
  { s with
    arrived := s.arrived + 1
    calls := match entry with
      | .invoked probing => s.calls ++ [⟨probing, s.period⟩]
      | _ => s.calls }

/-- `call` is a probe of the half-open period that the breaker is in. -/
def Own (call : Call) : Prop :=
  s.breaker.state = .HALF_OPEN ∧ call.probing ∧ call.period = s.period

instance (call : Call) : Decidable (s.Own call) := inferInstanceAs (Decidable (_ ∧ _))

/-- The `n`-th call in flight settles. -/
def finish (n : ℕ) (o : Outcome ε) : System :=
  match s.calls[n]? with
  | none => s
  | some call =>
    { s with
      breaker := settle c call.probing s.now o s.breaker
      calls := s.calls.eraseIdx n
      successes := match o with
        | .resolved => if s.Own call then s.successes + 1 else s.successes
        | .rejected _ => s.successes }

/-- One step. -/
def step : Label ε → System
  | .tick ms => { s with now := s.now + ms }
  | .call throwOnOpen => s.arrive c throwOnOpen
  | .complete n o => s.finish c n o
  | .getState => s.note (moveToHalfOpenIfReady c s.now s.breaker)
  | .getFailureCount => { s with breaker := pruneFailures c s.now s.breaker }

end System

/-! ## 5. What one piece of code does -/

section Spec

variable {ε : Type} {c : CircuitBreaker ε} {now : ℕ} {b : Breaker}

/-- What always holds of the fields of a breaker. -/
structure Breaker.Sound (c : CircuitBreaker ε) (b : Breaker) : Prop where
  opened : b.openedAt.isSome ↔ b.state = .OPEN
  closed : b.state = .CLOSED →
    b.failureCount = b.failures.length ∧ b.failures.length < c.failureThreshold
  halfOpen : b.state = .HALF_OPEN → b.successCount < c.successThreshold

theorem sound_new : Breaker.new.Sound c where
  opened := by simp [Breaker.new]
  closed _ := ⟨rfl, c.one_le_failureThreshold⟩
  halfOpen h := by cases h

theorem transitionTo_of_ne {next : STATES} (h : b.state ≠ next) :
    transitionTo now b next =
      { b with
        state := next
        failureCount := 0
        failures := []
        successCount := 0
        openedAt := if next = .OPEN then some now else none } := if_neg h

/-- A transition resets whatever the new state speaks of. -/
theorem sound_transitionTo {next : STATES} (h : b.state ≠ next) :
    (transitionTo now b next).Sound c := by
  rw [transitionTo_of_ne h]
  refine ⟨?_, fun _ => ⟨rfl, c.one_le_failureThreshold⟩, fun _ => c.one_le_successThreshold⟩
  by_cases hnext : next = .OPEN <;> simp [hnext]

/-- **Asking whether the cooldown is over**: nothing happens, or the breaker was open for long
enough and is half open now. -/
theorem moveToHalfOpenIfReady_cases (c : CircuitBreaker ε) (now : ℕ) (b : Breaker) :
    moveToHalfOpenIfReady c now b = b ∨
      b.state = .OPEN ∧ (∃ t, b.openedAt = some t ∧ c.timeoutMs ≤ now - t) ∧
        moveToHalfOpenIfReady c now b = transitionTo now b .HALF_OPEN := by
  unfold moveToHalfOpenIfReady
  split
  · exact .inl rfl
  · rename_i t ht
    split
    · rename_i h
      exact .inr ⟨h.1, ⟨t, ht, h.2⟩, rfl⟩
    · exact .inl rfl

theorem Breaker.Sound.move (h : b.Sound c) : (moveToHalfOpenIfReady c now b).Sound c := by
  rcases moveToHalfOpenIfReady_cases c now b with he | ⟨hopen, -, he⟩
  · rwa [he]
  · rw [he]
    exact sound_transitionTo (by simp [hopen])

theorem Breaker.Sound.prune (h : b.Sound c) : (pruneFailures c now b).Sound c := by
  refine ⟨h.opened, fun hclosed => ?_, h.halfOpen⟩
  have hlt := (h.closed hclosed).2
  have hle := List.length_filter_le (fun t => decide (now ≤ t + c.windowMs)) b.failures
  exact ⟨if_pos hclosed, Nat.lt_of_le_of_lt hle hlt⟩

theorem Breaker.Sound.recordSuccess (h : b.Sound c) : (recordSuccess c now b).Sound c := by
  unfold Utils.recordSuccess
  split
  · rename_i hs
    dsimp only
    split
    · exact sound_transitionTo (by simp [hs])
    · rename_i hlt
      exact ⟨h.opened, fun hc => by simp [hs] at hc, fun _ => Nat.lt_of_not_le hlt⟩
  · rename_i hs
    exact ⟨h.opened, fun _ => ⟨rfl, c.one_le_failureThreshold⟩, fun hh => by simp [hs] at hh⟩
  · exact h

theorem Breaker.Sound.recordFailure (h : b.Sound c) : (recordFailure c now b).Sound c := by
  unfold Utils.recordFailure
  split
  · rename_i hs
    exact sound_transitionTo (by simp [hs])
  · rename_i hs
    dsimp only
    split
    · exact sound_transitionTo (by simp [pruneFailures, hs])
    · rename_i hlt
      exact ⟨h.opened, fun _ => ⟨rfl, Nat.lt_of_not_le hlt⟩, fun hh => by
        simp [pruneFailures, hs] at hh⟩
  · exact h

theorem Breaker.Sound.record (h : b.Sound c) (o : Outcome ε) : (record c now o b).Sound c := by
  cases o with
  | resolved => exact h.recordSuccess
  | rejected err =>
    unfold Utils.record
    dsimp only
    split
    · exact h.recordFailure
    · exact h

@[simp] theorem transitionTo_inFlight (now : ℕ) (b : Breaker) (next : STATES) :
    (transitionTo now b next).halfOpenCallsInFlight = b.halfOpenCallsInFlight := by
  unfold transitionTo
  split <;> rfl

@[simp] theorem pruneFailures_inFlight (c : CircuitBreaker ε) (now : ℕ) (b : Breaker) :
    (pruneFailures c now b).halfOpenCallsInFlight = b.halfOpenCallsInFlight := rfl

@[simp] theorem moveToHalfOpenIfReady_inFlight (c : CircuitBreaker ε) (now : ℕ) (b : Breaker) :
    (moveToHalfOpenIfReady c now b).halfOpenCallsInFlight = b.halfOpenCallsInFlight := by
  rcases moveToHalfOpenIfReady_cases c now b with he | ⟨-, -, he⟩ <;> simp [he]

@[simp] theorem recordSuccess_inFlight (c : CircuitBreaker ε) (now : ℕ) (b : Breaker) :
    (recordSuccess c now b).halfOpenCallsInFlight = b.halfOpenCallsInFlight := by
  unfold recordSuccess
  split
  · dsimp only
    split <;> simp
  · rfl
  · rfl

@[simp] theorem recordFailure_inFlight (c : CircuitBreaker ε) (now : ℕ) (b : Breaker) :
    (recordFailure c now b).halfOpenCallsInFlight = b.halfOpenCallsInFlight := by
  unfold recordFailure
  split
  · simp
  · dsimp only
    split <;> simp
  · rfl

@[simp] theorem record_inFlight (c : CircuitBreaker ε) (now : ℕ) (o : Outcome ε) (b : Breaker) :
    (record c now o b).halfOpenCallsInFlight = b.halfOpenCallsInFlight := by
  unfold record
  split
  · simp
  · split <;> simp

@[simp] theorem leave_state (probing : Bool) (b : Breaker) :
    (leave probing b).state = b.state := by
  cases probing <;> rfl

@[simp] theorem leave_inFlight (probing : Bool) (b : Breaker) :
    (leave probing b).halfOpenCallsInFlight =
      b.halfOpenCallsInFlight - (if probing then 1 else 0) := by
  cases probing <;> rfl

theorem Breaker.Sound.leave (h : b.Sound c) (probing : Bool) : (leave probing b).Sound c := by
  cases probing with
  | false => exact h
  | true => exact ⟨h.opened, h.closed, h.halfOpen⟩

/-- **How a call is admitted**: not at all while the breaker is open or has its probes, as a
probe while it is half open, and otherwise as a plain call. -/
theorem enter_cases (c : CircuitBreaker ε) (throwOnOpen : Option Bool) (now : ℕ) (b : Breaker) :
    ((∀ probing, (enter c throwOnOpen now b).1 ≠ .invoked probing) ∧
      (enter c throwOnOpen now b).2 = moveToHalfOpenIfReady c now b ∧
      ((moveToHalfOpenIfReady c now b).state = .HALF_OPEN →
        c.trialCount ≤ b.halfOpenCallsInFlight)) ∨
    ((moveToHalfOpenIfReady c now b).state = .HALF_OPEN ∧
      b.halfOpenCallsInFlight < c.trialCount ∧
      enter c throwOnOpen now b = (.invoked true,
        { moveToHalfOpenIfReady c now b with
          halfOpenInFlight := true
          halfOpenCallsInFlight := b.halfOpenCallsInFlight + 1 })) ∨
    ((moveToHalfOpenIfReady c now b).state = .CLOSED ∧
      enter c throwOnOpen now b = (.invoked false, moveToHalfOpenIfReady c now b)) := by
  have hcount := moveToHalfOpenIfReady_inFlight c now b
  unfold enter
  generalize moveToHalfOpenIfReady c now b = m at hcount ⊢
  dsimp only
  cases hs : m.state with
  | OPEN =>
    left
    refine ⟨fun probing => ?_, by simp, fun h => by cases h⟩
    cases throwOnOpen.getD c.throwOnOpen <;> simp
  | CLOSED =>
    right; right
    simp
  | HALF_OPEN =>
    rw [hcount]
    by_cases hfull : c.trialCount ≤ b.halfOpenCallsInFlight
    · left
      refine ⟨fun probing => ?_, by simp [hfull], fun _ => hfull⟩
      cases throwOnOpen.getD c.throwOnOpen <;> simp [hfull]
    · right; left
      exact ⟨rfl, Nat.lt_of_not_le hfull, by simp [hfull]⟩

end Spec

/-! ## 6. What holds at every moment -/

namespace System

variable {ε : Type} {c : CircuitBreaker ε} {s : System}

/-- The calls in flight that were admitted as probes. -/
def probes (s : System) : ℕ := s.calls.countP Call.probing

/-- The state invariants of the breaker and its calls. -/
structure Invariant (c : CircuitBreaker ε) (s : System) : Prop where
  sound : s.breaker.Sound c
  counted : s.breaker.halfOpenCallsInFlight = s.probes
  bounded : s.probes ≤ c.trialCount

/-- The wrapped function is not invoked while the breaker is open and its cooldown has not
elapsed. -/
def Quiet (c : CircuitBreaker ε) (s : System) (l : Label ε) : Prop :=
  ∀ throwOnOpen openedAt, l = .call throwOnOpen → s.breaker.state = .OPEN →
    s.breaker.openedAt = some openedAt → s.now < openedAt + c.timeoutMs →
    ∀ probing, (enter c throwOnOpen s.now s.breaker).1 ≠ .invoked probing

@[simp] theorem note_breaker (s : System) (b : Breaker) : (s.note b).breaker = b := by
  unfold note
  split <;> rfl

@[simp] theorem note_calls (s : System) (b : Breaker) : (s.note b).calls = s.calls := by
  unfold note
  split <;> rfl

theorem invariant_init : Invariant c .init where
  sound := sound_new
  counted := rfl
  bounded := Nat.zero_le _

/-- The settled call is taken out: it was counted once if it was a probe. -/
theorem countP_eraseIdx {n : ℕ} {call : Call} (h : s.calls[n]? = some call) :
    (s.calls.eraseIdx n).countP Call.probing + (if call.probing then 1 else 0) = s.probes := by
  obtain ⟨hn, rfl⟩ := List.getElem?_eq_some_iff.mp h
  have hperm := (List.getElem_cons_eraseIdx_perm hn).countP_eq Call.probing
  rw [List.countP_cons] at hperm
  exact hperm

/-- A call arrives: it is in flight exactly if it was invoked, and then it is counted. -/
theorem Invariant.arrive (h : s.Invariant c) (throwOnOpen : Option Bool) :
    (s.arrive c throwOnOpen).Invariant c := by
  have hmove : (moveToHalfOpenIfReady c s.now s.breaker).Sound c := h.sound.move
  have hcount := h.counted
  have hbound := h.bounded
  unfold probes at hcount hbound
  rcases enter_cases c throwOnOpen s.now s.breaker with
    ⟨hno, hb, -⟩ | ⟨-, hlt, he⟩ | ⟨-, he⟩
  · have hcalls : (s.arrive c throwOnOpen).calls = s.calls := by
      unfold System.arrive
      dsimp only
      split
      · rename_i probing hp
        exact absurd hp (hno probing)
      · exact note_calls _ _
    have hbreaker : (s.arrive c throwOnOpen).breaker =
        moveToHalfOpenIfReady c s.now s.breaker := (note_breaker _ _).trans hb
    constructor
    · rwa [hbreaker]
    · rw [hbreaker, moveToHalfOpenIfReady_inFlight, probes, hcalls]
      exact hcount
    · rw [probes, hcalls]
      exact hbound
  · have hcalls : (s.arrive c throwOnOpen).probes = s.calls.countP Call.probing + 1 := by
      simp [System.arrive, he, probes]
    have hbreaker : (s.arrive c throwOnOpen).breaker =
        { moveToHalfOpenIfReady c s.now s.breaker with
          halfOpenInFlight := true
          halfOpenCallsInFlight := s.breaker.halfOpenCallsInFlight + 1 } := by
      simp [System.arrive, he]
    constructor
    · rw [hbreaker]
      exact ⟨hmove.opened, hmove.closed, hmove.halfOpen⟩
    · rw [hbreaker, hcalls, ← hcount]
    · rw [hcalls]
      omega
  · have hcalls : (s.arrive c throwOnOpen).probes = s.calls.countP Call.probing := by
      simp [System.arrive, he, probes]
    have hbreaker : (s.arrive c throwOnOpen).breaker =
        moveToHalfOpenIfReady c s.now s.breaker := by
      simp [System.arrive, he]
    constructor
    · rwa [hbreaker]
    · rw [hbreaker, moveToHalfOpenIfReady_inFlight, hcalls]
      exact hcount
    · rw [hcalls]
      exact hbound

/-- A call settles: it is no longer in flight, and no longer counted if it was a probe. -/
theorem Invariant.finish (h : s.Invariant c) (n : ℕ) (o : Outcome ε) :
    (s.finish c n o).Invariant c := by
  unfold System.finish
  split
  · exact h
  · rename_i call hcall
    have herase := countP_eraseIdx hcall
    have hcount := h.counted
    have hbound := h.bounded
    refine ⟨(h.sound.record o).leave _, ?_, ?_⟩
    · simp only [settle, leave_inFlight, record_inFlight, probes]
      omega
    · simp only [probes]
      omega

/-- **One step** keeps the invariants. -/
theorem Invariant.step (h : s.Invariant c) (l : Label ε) : (s.step c l).Invariant c := by
  cases l with
  | tick ms => exact ⟨h.sound, h.counted, h.bounded⟩
  | call throwOnOpen => exact h.arrive throwOnOpen
  | complete n o => exact h.finish n o
  | getState =>
    refine ⟨?_, ?_, ?_⟩
    · simp only [System.step, note_breaker]
      exact h.sound.move
    · simp only [System.step, note_breaker, moveToHalfOpenIfReady_inFlight, probes, note_calls]
      exact h.counted
    · simp only [System.step, probes, note_calls]
      exact h.bounded
  | getFailureCount => exact ⟨h.sound.prune, h.counted, h.bounded⟩

/-- An open breaker that is still cooling down stays open, and admits no call. -/
theorem quiet (s : System) (l : Label ε) : s.Quiet c l := by
  rintro throwOnOpen openedAt - hopen hat hnow
  have hmove : moveToHalfOpenIfReady c s.now s.breaker = s.breaker := by
    rcases moveToHalfOpenIfReady_cases c s.now s.breaker with he | ⟨-, ⟨t, ht, hle⟩, -⟩
    · exact he
    · obtain rfl : openedAt = t := Option.some.inj (hat.symm.trans ht)
      have := c.one_le_timeoutMs
      omega
  rcases enter_cases c throwOnOpen s.now s.breaker with ⟨hno, -⟩ | ⟨hs, -⟩ | ⟨hs, -⟩
  · exact hno
  · rw [hmove, hopen] at hs
    cases hs
  · rw [hmove, hopen] at hs
    cases hs

end System

/-- **The state invariants of the circuit breaker.**  However calls, their completions and the
clock interleave: the time of opening is set exactly while the breaker is open, a closed breaker
has fewer failures than would open it and a half-open one fewer successes than would close it,
the probes in flight are counted and never more than allowed, and no wrapped function is invoked
while an open breaker cools down. -/
theorem breaker_invariants {ε : Type} (c : CircuitBreaker ε) (ls : List (Label ε)) :
    let s := run (System.step c) .init ls
    (s.breaker.openedAt.isSome ↔ s.breaker.state = .OPEN) ∧
    (s.breaker.state = .CLOSED → s.breaker.failureCount = s.breaker.failures.length ∧
      s.breaker.failures.length < c.failureThreshold) ∧
    (s.breaker.state = .HALF_OPEN → s.breaker.successCount < c.successThreshold) ∧
    (s.breaker.halfOpenCallsInFlight = s.probes ∧
      s.breaker.halfOpenCallsInFlight ≤ c.trialCount) ∧
    Along (System.step c) (System.Quiet c) .init ls := by
  have h : (run (System.step c) .init ls).Invariant c :=
    run_inv_of_step (fun _ l hs => hs.step l) System.invariant_init
  have hquiet : Along (System.step c) (System.Quiet c) .init ls :=
    Along.of_forall System.quiet .init ls
  exact ⟨h.sound.opened, h.sound.closed, h.sound.halfOpen,
    ⟨h.counted, h.counted ▸ h.bounded⟩, hquiet⟩

end SmartDrop.Utils
