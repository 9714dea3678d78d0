/-
# Jobs that are retried

`jobs/retryWrapper.js`: a job is called until it succeeds, fails for good, or has failed
`maxAttempts` times, in which case an entry goes to the dead letters.  A failure is repeated when its
error is plausibly transient and the job is idempotent.

The delay between two calls grows by a factor and is cut at `maxDelayMs`, and only then is the jitter
added, up to a quarter of it: the delay does not keep to its maximum.  It does if and only if there
is no jitter to add, the maximum is so small that the jitter is rounded to nothing, or the delay does
not grow and leaves room for it (`Room`).  Delays are exact rationals here; a power that overflows is
cut at the maximum in either arithmetic.
-/
import SmartDrop.Lib.JsText
import Mathlib.Algebra.Order.Archimedean.Basic
import Mathlib.Algebra.Order.Floor.Ring
import Mathlib.Data.Rat.Floor

namespace SmartDrop.Jobs.Retry

/-! ## 1. Errors -/

/-- The classes of errors that are told apart. -/
inductive ErrorClass where
  | appError
  | typeError
  | rangeError
  | syntaxError
  | referenceError
  | other
deriving DecidableEq

/-- What a job throws, as far as it is read; `response` is the status of an HTTP response. -/
structure JobError where
  errorClass : ErrorClass := .other
  nonRetryable : Bool := false
  isPermanent : Bool := false
  statusCode : Option ℕ := none
  status : Option ℕ := none
  response : Option ℕ := none
  code : Option String := none
  message : Option String := none
deriving DecidableEq

/-- What a status says: rate limits and server errors are transient, other client errors are not. -/
def ofStatus (status : ℕ) : Option Bool :=
  if status = 429 then some true
  else if 400 ≤ status ∧ status < 500 then some false
  else if 500 ≤ status then some true
  else none

/-- The codes of errors of the network. -/
def transientCodes : List String :=
  ["ECONNRESET", "ECONNREFUSED", "ETIMEDOUT", "EHOSTUNREACH", "ENOTFOUND", "EAI_AGAIN", "EPIPE",
    "UND_ERR_CONNECT_TIMEOUT", "UND_ERR_SOCKET"]

/-- The patterns of transient messages. -/
def transientMessagePatterns : List String :=
  ["timeout", "timed out", "connection reset", "connection refused", "network error",
    "socket hang up", "rate limit", "temporarily unavailable"]

/-- `/part/i.test(text)`, for a pattern of ASCII. -/
def matchesText (text part : String) : Bool :=
  (text.toList.map JsText.upper).tails.any (part.toList.map JsText.upper).isPrefixOf

/-- `isTransientError`. -/
def isTransientError (err : JobError) : Bool :=
  if err.nonRetryable || err.isPermanent then false
  else
    let own := if err.errorClass = .appError || err.statusCode.isSome then
      (err.statusCode.filter (· ≠ 0) <|> err.status).bind ofStatus else none
    match own <|> err.response.bind ofStatus with
    | some transient => transient
    | none =>
      if err.code.any transientCodes.contains then true
      else if [.typeError, .rangeError, .syntaxError, .referenceError].contains err.errorClass then false
      else transientMessagePatterns.any (matchesText (err.message.getD ""))

/-! ## 2. Delays -/

/-- The options of a run; `onAttemptFailure` says at which attempts the hook throws. -/
structure RetryOptions where
  maxAttempts : Option ℕ := none
  initialDelayMs : Option ℚ := none
  backoffFactor : Option ℚ := none
  maxDelayMs : Option ℚ := none
  disableJitter : Bool := false
  isIdempotent : Option Bool := none
  onAttemptFailure : Option (ℕ → Bool) := none

namespace RetryOptions

variable (o : RetryOptions)

/-- `options.maxAttempts || DEFAULT_MAX_ATTEMPTS`. -/
def attempts : ℕ := (o.maxAttempts.filter (· ≠ 0)).getD 3

/-- `options.initialDelayMs || DEFAULT_INITIAL_DELAY_MS`. -/
def initialDelay : ℚ := (o.initialDelayMs.filter (· ≠ 0)).getD 1000

/-- `options.backoffFactor || DEFAULT_BACKOFF_FACTOR`. -/
def factor : ℚ := (o.backoffFactor.filter (· ≠ 0)).getD 2

/-- `options.maxDelayMs || DEFAULT_MAX_DELAY_MS`. -/
def maxDelay : ℚ := (o.maxDelayMs.filter (· ≠ 0)).getD 30000

/-- `options.isIdempotent !== false`. -/
def idempotent : Bool := o.isIdempotent ≠ some false

/-- The hook throws at an attempt. -/
def hookThrows (attempt : ℕ) : Bool := o.onAttemptFailure.any (· attempt)

/-- The options that are given are positive. -/
structure Positive : Prop where
  initialDelayMs : ∀ ms ∈ o.initialDelayMs, 0 < ms
  backoffFactor : ∀ f ∈ o.backoffFactor, 0 < f
  maxDelayMs : ∀ ms ∈ o.maxDelayMs, 0 < ms

end RetryOptions

/-- The delay after an attempt before it is cut. -/
def exponentialDelay (attempt : ℕ) (o : RetryOptions) : ℚ := o.initialDelay * o.factor ^ (attempt - 1)

/-- `calculateBackoffDelay`. -/
def calculateBackoffDelay (attempt : ℕ) (o : RetryOptions) (random : ℚ) : ℚ :=
  let cappedDelay := min (exponentialDelay attempt o) o.maxDelay
  let jitterAmount : ℤ := if o.disableJitter then 0 else ⌊random * (cappedDelay * (1 / 4))⌋
  cappedDelay + jitterAmount

/-! ## 3. Runs -/

/-- How a call of the job ends; `none` is `null` or `undefined`, thrown. -/
inductive Outcome (α : Type) where
  | success (value : α)
  | failure (err : Option JobError)

/-- The call ended in a failure that is worth another attempt. -/
def Outcome.isTransient {α : Type} : Outcome α → Bool
  | .failure (some err) => isTransientError err
  | _ => false

/-- An entry of the dead letters. -/
structure FailedEntry where
  jobName : String
  error : Option String
  attempts : ℕ
  failedAt : ℕ
deriving DecidableEq

/-- Why a run rejects: with the error of the job, with the one that reading the message of `null`
throws, with that of the hook, or exhausted. -/
inductive Rejection where
  | job (err : JobError)
  | nullish
  | hook
  | exhausted (jobName : String) (attempts : ℕ) (lastError : Option JobError)

/-- How the loop is left. -/
inductive Exit (α : Type) where
  | returned (value : α)
  | threw (reason : Rejection)
  | exhausted (lastError : Option JobError)

/-- The attempts are used up. -/
def Exit.isExhausted {α : Type} : Exit α → Bool
  | .exhausted _ => true
  | _ => false

/-- The attempts at which the job was called, the delays between them, and how the loop was left. -/
structure Attempts (α : Type) where
  calls : List ℕ
  delays : List ℚ
  exit : Exit α

/-- A run that is over, with the entry it recorded and the dead letters after it. -/
structure Finished (α : Type) where
  calls : List ℕ
  delays : List ℚ
  result : Except Rejection α
  recorded : Option FailedEntry
  deadLetters : List FailedEntry

section Run

variable {α : Type} (o : RetryOptions) (job : ℕ → Outcome α) (random : ℕ → ℚ)

/-- The loop from an attempt on, with the attempts that are left and the last error. -/
def attemptFrom : (left attempt : ℕ) → (lastError : Option JobError) → Attempts α
  | 0, _, lastError => ⟨[], [], .exhausted lastError⟩
  | left + 1, attempt, _ =>
    match job attempt with
    | .success value => ⟨[attempt], [], .returned value⟩
    | .failure none => ⟨[attempt], [], .threw .nullish⟩
    | .failure (some err) =>
      if o.hookThrows attempt then ⟨[attempt], [], .threw .hook⟩
      else if !isTransientError err then ⟨[attempt], [], .threw (.job err)⟩
      else if !o.idempotent then ⟨[attempt], [], .threw (.job err)⟩
      else if o.attempts ≤ attempt then ⟨[attempt], [], .exhausted (some err)⟩
      else
        let rest := attemptFrom left (attempt + 1) (some err)
        ⟨attempt :: rest.calls, calculateBackoffDelay attempt o (random attempt) :: rest.delays, rest.exit⟩

/-- A new entry; the oldest one makes room for the five hundred and first. -/
def pushDeadLetter (deadLetters : List FailedEntry) (entry : FailedEntry) : List FailedEntry :=
  let deadLetters := deadLetters ++ [entry]
  if 500 < deadLetters.length then deadLetters.tail else deadLetters

/-- The entry of an exhausted run. -/
def failedEntry (jobName : String) (now : ℕ) (lastError : Option JobError) : FailedEntry where
  jobName := jobName
  error := match lastError with
    | none => some "Unknown error"
    | some err => err.message
  attempts := o.attempts
  failedAt := now

/-- `runWithRetry`, of a job whose calls end one after another as `job` says, with the draws of
`Math.random`, the time at which it gives up and the dead letters before. -/
def runWithRetry (jobName : String) (now : ℕ) (deadLetters : List FailedEntry) : Finished α :=
  let tried := attemptFrom o job random o.attempts 1 none
  match tried.exit with
  | .returned value => ⟨tried.calls, tried.delays, .ok value, none, deadLetters⟩
  | .threw reason => ⟨tried.calls, tried.delays, .error reason, none, deadLetters⟩
  | .exhausted lastError =>
    let entry := failedEntry o jobName now lastError
    ⟨tried.calls, tried.delays, .error (.exhausted jobName o.attempts lastError), some entry,
      pushDeadLetter deadLetters entry⟩

end Run

/-! ## 4. The maximum of the delays -/

section Delay

variable {o : RetryOptions} {attempt : ℕ} {r : ℚ}

/-- There is no jitter, or it is rounded to nothing, or the delay does not grow and the jitter fits
between the first one and the maximum. -/
def Room (o : RetryOptions) : Prop :=
  o.disableJitter = true ∨ o.maxDelay ≤ 4 ∨
    o.factor ≤ 1 ∧ o.initialDelay + ⌈o.initialDelay / 4⌉ ≤ o.maxDelay + 1

/-- Every delay, whatever is drawn, is at most the maximum. -/
def DelaysBounded (o : RetryOptions) : Prop :=
  ∀ attempt, 1 ≤ attempt → ∀ random : ℚ, 0 ≤ random → random < 1 →
    calculateBackoffDelay attempt o random ≤ o.maxDelay

theorem pos_getD {given : Option ℚ} {default : ℚ} (hgiven : ∀ v ∈ given, 0 < v) (hdefault : 0 < default) :
    0 < (given.filter (· ≠ 0)).getD default := by
  cases given with
  | none => exact hdefault
  | some v =>
    have hv : 0 < v := hgiven v rfl
    rw [Option.filter_some, if_pos (by simpa using hv.ne')]
    exact hv

theorem RetryOptions.Positive.initialDelay_pos (h : o.Positive) : 0 < o.initialDelay :=
  pos_getD h.initialDelayMs (by norm_num)

theorem RetryOptions.Positive.factor_pos (h : o.Positive) : 0 < o.factor :=
  pos_getD h.backoffFactor (by norm_num)

theorem RetryOptions.Positive.maxDelay_pos (h : o.Positive) : 0 < o.maxDelay :=
  pos_getD h.maxDelayMs (by norm_num)

/-- The delay that is cut at the maximum. -/
def cappedDelay (attempt : ℕ) (o : RetryOptions) : ℚ := min (exponentialDelay attempt o) o.maxDelay

theorem cappedDelay_pos (h : o.Positive) : 0 < cappedDelay attempt o :=
  lt_min (mul_pos h.initialDelay_pos (pow_pos h.factor_pos _)) h.maxDelay_pos

/-- The jitter is less than a quarter. -/
theorem floor_jitter_le {c : ℚ} (hc : 0 < c) (hr : r < 1) :
    ⌊r * (c * (1 / 4))⌋ ≤ ⌈c / 4⌉ - 1 := by
  have hless : r * (c * (1 / 4)) < c / 4 := by
    have hquarter : 0 < c * (1 / 4) := by linarith
    calc r * (c * (1 / 4)) < c * (1 / 4) := mul_lt_of_lt_one_left hquarter hr
      _ = c / 4 := by ring
  have hfloor : (⌊r * (c * (1 / 4))⌋ : ℚ) < (⌈c / 4⌉ : ℚ) :=
    (Int.floor_le _).trans_lt (hless.trans_le (Int.le_ceil _))
  exact Int.le_sub_one_of_lt (by exact_mod_cast hfloor)

/-- Every whole number below a quarter is the jitter of a draw. -/
theorem exists_draw {c : ℚ} {k : ℤ} (hc : 0 < c) (hk : 0 ≤ k) (hlt : (k : ℚ) < c / 4) :
    ∃ r : ℚ, 0 ≤ r ∧ r < 1 ∧ ⌊r * (c * (1 / 4))⌋ = k := by
  have hk0 : (0 : ℚ) ≤ k := by exact_mod_cast hk
  refine ⟨k / (c / 4), div_nonneg hk0 (by linarith), (div_lt_one (by linarith)).mpr hlt, ?_⟩
  have hproduct : (k : ℚ) / (c / 4) * (c * (1 / 4)) = k := by field_simp
  rw [hproduct, Int.floor_intCast]

theorem calculateBackoffDelay_eq (attempt : ℕ) (o : RetryOptions) (r : ℚ) :
    calculateBackoffDelay attempt o r = cappedDelay attempt o +
      ((if o.disableJitter then 0 else ⌊r * (cappedDelay attempt o * (1 / 4))⌋ : ℤ) : ℚ) := rfl

/-- The delays of an attempt keep to the maximum when the greatest jitter does. -/
theorem delay_le_of_ceil (h : o.Positive) (hr : r < 1)
    (hroom : cappedDelay attempt o + ⌈cappedDelay attempt o / 4⌉ ≤ o.maxDelay + 1) :
    calculateBackoffDelay attempt o r ≤ o.maxDelay := by
  rw [calculateBackoffDelay_eq]
  split
  · rw [Int.cast_zero, add_zero]
    exact min_le_right _ _
  · have hjitter : ((⌊r * (cappedDelay attempt o * (1 / 4))⌋ : ℤ) : ℚ) ≤
        (⌈cappedDelay attempt o / 4⌉ : ℚ) - 1 := by
      exact_mod_cast floor_jitter_le (cappedDelay_pos h) hr
    linarith

/-- A jitter that does not fit is drawn. -/
theorem exists_delay_gt (h : o.Positive) (hjitter : o.disableJitter = false)
    (hroom : o.maxDelay + 1 < cappedDelay attempt o + ⌈cappedDelay attempt o / 4⌉) :
    ∃ r : ℚ, 0 ≤ r ∧ r < 1 ∧ o.maxDelay < calculateBackoffDelay attempt o r := by
  have hcapped : cappedDelay attempt o ≤ o.maxDelay := min_le_right _ _
  have hceil : 1 < (⌈cappedDelay attempt o / 4⌉ : ℚ) := by linarith
  have hbelow : ((⌈cappedDelay attempt o / 4⌉ - 1 : ℤ) : ℚ) < cappedDelay attempt o / 4 := by
    push_cast
    linarith [Int.ceil_lt_add_one (cappedDelay attempt o / 4)]
  have hnonneg : 0 ≤ ⌈cappedDelay attempt o / 4⌉ - 1 := by
    have : (1 : ℤ) < ⌈cappedDelay attempt o / 4⌉ := by exact_mod_cast hceil
    omega
  obtain ⟨r, hr0, hr1, hfloor⟩ := exists_draw (cappedDelay_pos h) hnonneg hbelow
  refine ⟨r, hr0, hr1, ?_⟩
  rw [calculateBackoffDelay_eq, hjitter, if_neg Bool.false_ne_true, hfloor]
  push_cast
  linarith

/-- Without growth no delay is longer than the first one. -/
theorem cappedDelay_le_initial (h : o.Positive) (hfactor : o.factor ≤ 1) :
    cappedDelay attempt o ≤ o.initialDelay :=
  (min_le_left _ _).trans (mul_le_of_le_one_right h.initialDelay_pos.le
    (pow_le_one₀ h.factor_pos.le hfactor))

/-- A growing delay reaches the maximum. -/
theorem exists_capped (h : o.Positive) (hfactor : 1 < o.factor) :
    ∃ attempt, 1 ≤ attempt ∧ cappedDelay attempt o = o.maxDelay := by
  obtain ⟨n, hn⟩ := pow_unbounded_of_one_lt (o.maxDelay / o.initialDelay) hfactor
  refine ⟨n + 1, Nat.succ_pos n, min_eq_right ?_⟩
  rw [exponentialDelay, Nat.add_sub_cancel]
  exact ((div_lt_iff₀' h.initialDelay_pos).mp hn).le

/-- **When the delays keep to their maximum.** -/
theorem delaysBounded_iff (h : o.Positive) : DelaysBounded o ↔ Room o := by
  constructor
  · intro hall
    by_contra hroom
    simp only [Room, not_or, not_and, not_le, Bool.not_eq_true] at hroom
    obtain ⟨hjitter, hmax, hgrows⟩ := hroom
    have hover : ∀ attempt, 1 ≤ attempt →
        ¬ o.maxDelay + 1 < cappedDelay attempt o + ⌈cappedDelay attempt o / 4⌉ := by
      intro attempt hattempt hlt
      obtain ⟨r, hr0, hr1, hgt⟩ := exists_delay_gt h hjitter hlt
      exact absurd (hall attempt hattempt r hr0 hr1) (not_le.mpr hgt)
    -- at the maximum there is no room for a jitter of one
    have hcut : ∀ attempt, 1 ≤ attempt → cappedDelay attempt o ≠ o.maxDelay := by
      intro attempt hattempt hcapped
      refine hover attempt hattempt ?_
      rw [hcapped]
      have hceil : (1 : ℤ) < ⌈o.maxDelay / 4⌉ := Int.lt_ceil.mpr (by push_cast; linarith)
      have : (1 : ℚ) < (⌈o.maxDelay / 4⌉ : ℚ) := by exact_mod_cast hceil
      linarith
    rcases le_or_gt o.factor 1 with hfactor | hfactor
    · have hfirst : exponentialDelay 1 o = o.initialDelay := by simp [exponentialDelay]
      have hcapped : cappedDelay 1 o = o.initialDelay := by
        rw [cappedDelay, hfirst]
        refine min_eq_left (le_of_not_ge fun hge => hcut 1 le_rfl ?_)
        rw [cappedDelay, hfirst, min_eq_right hge]
      refine hover 1 le_rfl ?_
      rw [hcapped]
      exact hgrows hfactor
    · obtain ⟨attempt, hattempt, hcapped⟩ := exists_capped h hfactor
      exact hcut attempt hattempt hcapped
  · intro hroom attempt _ r _ hr1
    rcases hroom with hjitter | hmax | ⟨hfactor, hfits⟩
    · rw [calculateBackoffDelay_eq, if_pos hjitter, Int.cast_zero, add_zero]
      exact min_le_right _ _
    · refine delay_le_of_ceil h hr1 ?_
      have hcapped : cappedDelay attempt o ≤ o.maxDelay := min_le_right _ _
      have hceil : ⌈cappedDelay attempt o / 4⌉ ≤ 1 := Int.ceil_le.mpr (by push_cast; linarith)
      have : (⌈cappedDelay attempt o / 4⌉ : ℚ) ≤ 1 := by exact_mod_cast hceil
      linarith
    · refine delay_le_of_ceil h hr1 ?_
      have hfirst : cappedDelay attempt o ≤ o.initialDelay := cappedDelay_le_initial h hfactor
      have hceil : ⌈cappedDelay attempt o / 4⌉ ≤ ⌈o.initialDelay / 4⌉ := Int.ceil_le_ceil (by linarith)
      have : (⌈cappedDelay attempt o / 4⌉ : ℚ) ≤ (⌈o.initialDelay / 4⌉ : ℚ) := by exact_mod_cast hceil
      linarith

end Delay

/-! ## 5. The calls -/

section Calls

variable {α : Type} {o : RetryOptions} {job : ℕ → Outcome α} {random : ℕ → ℚ}
  {left attempt : ℕ} {lastError : Option JobError}

/-- From an attempt on, all that are left fail in a way that is worth another attempt, and the hook
lets all but the last one pass. -/
def FailsThrough (o : RetryOptions) (job : ℕ → Outcome α) (left attempt : ℕ) : Prop :=
  ∀ k, k < left → (job (attempt + k)).isTransient = true ∧
    (k + 1 < left → o.hookThrows (attempt + k) = false)

/-- The failures that are worth another attempt. -/
def transientCalls (job : ℕ → Outcome α) (calls : List ℕ) : List ℕ :=
  calls.filter fun attempt => (job attempt).isTransient

@[simp] theorem isTransient_success (value : α) : (Outcome.success value).isTransient = false := rfl

@[simp] theorem isTransient_nullish : (Outcome.failure (α := α) none).isTransient = false := rfl

@[simp] theorem isTransient_error (err : JobError) :
    (Outcome.failure (α := α) (some err)).isTransient = isTransientError err := rfl

/-- The attempt fails in a way that is worth another one, which neither the hook nor the job forbids. -/
def Repeats (o : RetryOptions) (job : ℕ → Outcome α) (attempt : ℕ) : Prop :=
  (job attempt).isTransient = true ∧ o.hookThrows attempt = false ∧ o.idempotent = true

/-- **One call**: it is the last one, unless it repeats and is not the last attempt. -/
theorem attemptFrom_cases (o : RetryOptions) (job : ℕ → Outcome α) (random : ℕ → ℚ) (left attempt : ℕ)
    (lastError : Option JobError) :
    (¬ Repeats o job attempt ∧
      (attemptFrom o job random (left + 1) attempt lastError).calls = [attempt] ∧
        (attemptFrom o job random (left + 1) attempt lastError).exit.isExhausted = false) ∨
    (Repeats o job attempt ∧ o.attempts ≤ attempt ∧
      (attemptFrom o job random (left + 1) attempt lastError).calls = [attempt] ∧
        (attemptFrom o job random (left + 1) attempt lastError).exit.isExhausted = true) ∨
    (Repeats o job attempt ∧ attempt < o.attempts ∧ ∃ err,
      (attemptFrom o job random (left + 1) attempt lastError).calls =
          attempt :: (attemptFrom o job random left (attempt + 1) err).calls ∧
        (attemptFrom o job random (left + 1) attempt lastError).exit =
          (attemptFrom o job random left (attempt + 1) err).exit) := by
  unfold Repeats
  rw [attemptFrom]
  cases job attempt with
  | success value => exact .inl ⟨by simp, rfl, rfl⟩
  | failure err =>
    cases err with
    | none => exact .inl ⟨by simp, rfl, rfl⟩
    | some err =>
      dsimp only
      split
      · rename_i hhook
        exact .inl ⟨by simp [hhook], rfl, rfl⟩
      rename_i hhook
      split
      · rename_i hpermanent
        exact .inl ⟨by simp_all, rfl, rfl⟩
      rename_i htransient
      split
      · rename_i honce
        exact .inl ⟨by simp_all, rfl, rfl⟩
      rename_i hidempotent
      have hrepeats : (Outcome.failure (α := α) (some err)).isTransient = true ∧
          o.hookThrows attempt = false ∧ o.idempotent = true := by
        simp_all
      split
      · rename_i hlast
        exact .inr (.inl ⟨hrepeats, hlast, rfl, rfl⟩)
      · rename_i hmore
        exact .inr (.inr ⟨hrepeats, not_le.mp hmore, some err, rfl, rfl⟩)

/-- The loop calls the job at most as often as there are attempts left. -/
theorem calls_le (o : RetryOptions) (job : ℕ → Outcome α) (random : ℕ → ℚ) (left attempt : ℕ)
    (lastError : Option JobError) :
    (attemptFrom o job random left attempt lastError).calls.length ≤ left := by
  induction left generalizing attempt lastError with
  | zero => exact Nat.le_refl 0
  | succ left ih =>
    rcases attemptFrom_cases o job random left attempt lastError with ⟨-, hcalls, -⟩ |
      ⟨-, -, hcalls, -⟩ | ⟨-, -, err, hcalls, -⟩
    · rw [hcalls]
      exact Nat.succ_pos left
    · rw [hcalls]
      exact Nat.succ_pos left
    · rw [hcalls, List.length_cons]
      exact Nat.succ_le_succ (ih _ _)

/-- A job that is not idempotent is called once. -/
theorem calls_le_one (hidempotent : o.idempotent = false) :
    (attemptFrom o job random left attempt lastError).calls.length ≤ 1 := by
  cases left with
  | zero => exact Nat.zero_le 1
  | succ left =>
    have hnot : ¬ Repeats o job attempt := fun h => by simp [h.2.2] at hidempotent
    rcases attemptFrom_cases o job random left attempt lastError with ⟨-, hcalls, -⟩ | h | h
    · rw [hcalls]
      exact Nat.le_refl 1
    · exact absurd h.1 hnot
    · exact absurd h.1 hnot

theorem failsThrough_succ : FailsThrough o job (left + 1) attempt ↔ (job attempt).isTransient = true ∧
    (0 < left → o.hookThrows attempt = false) ∧ FailsThrough o job left (attempt + 1) := by
  constructor
  · intro h
    refine ⟨(h 0 (Nat.succ_pos left)).1, fun hleft => (h 0 (Nat.succ_pos left)).2 (by omega), fun k hk => ?_⟩
    have hk' := h (k + 1) (Nat.succ_lt_succ hk)
    rw [← Nat.add_assoc, Nat.add_right_comm] at hk'
    exact ⟨hk'.1, fun hlast => hk'.2 (by omega)⟩
  · rintro ⟨hfirst, hhook, hrest⟩ (_ | k) hk
    · exact ⟨hfirst, fun hlast => hhook (by omega)⟩
    · have hk' := hrest k (Nat.lt_of_succ_lt_succ hk)
      rw [Nat.add_right_comm, Nat.add_assoc] at hk'
      exact ⟨hk'.1, fun hlast => hk'.2 (by omega)⟩

theorem length_transientCalls_cons (calls : List ℕ) :
    (transientCalls job (attempt :: calls)).length =
      (if (job attempt).isTransient then 1 else 0) + (transientCalls job calls).length := by
  rw [transientCalls, List.filter_cons]
  split
  · rw [List.length_cons, Nat.add_comm]
    rfl
  · rw [Nat.zero_add]
    rfl

/-- All attempts that are left are failures worth another one, if and only if they fail through. -/
theorem count_transientCalls (hidempotent : o.idempotent = true) (hleft : attempt + left = o.attempts + 1) :
    (transientCalls job (attemptFrom o job random left attempt lastError).calls).length = left ↔
      FailsThrough o job left attempt := by
  induction left generalizing attempt lastError with
  | zero => exact ⟨fun _ k hk => absurd hk (Nat.not_lt_zero k), fun _ => rfl⟩
  | succ left ih =>
    rw [failsThrough_succ]
    rcases attemptFrom_cases o job random left attempt lastError with ⟨hnot, hcalls, -⟩ |
      ⟨hrepeats, hlast, hcalls, -⟩ | ⟨hrepeats, hmore, err, hcalls, -⟩
    · -- the call is the last one, so no other attempt was left
      have hcut : (job attempt).isTransient = true → o.hookThrows attempt = true := by
        intro htransient
        by_contra hhook
        exact hnot ⟨htransient, by simpa using hhook, hidempotent⟩
      rw [hcalls, length_transientCalls_cons]
      rcases Nat.eq_zero_or_pos left with rfl | hpos
      · have hnone : FailsThrough o job 0 (attempt + 1) := fun k hk => absurd hk (Nat.not_lt_zero k)
        simp [hnone, transientCalls]
      · constructor
        · intro hcount
          simp only [transientCalls, List.filter_nil, List.length_nil, Nat.add_zero] at hcount
          split at hcount <;> omega
        · rintro ⟨htransient, hhook, -⟩
          exact absurd (hhook hpos) (by simp [hcut htransient])
    · obtain rfl : left = 0 := by omega
      have hnone : FailsThrough o job 0 (attempt + 1) := fun k hk => absurd hk (Nat.not_lt_zero k)
      rw [hcalls, length_transientCalls_cons, if_pos hrepeats.1]
      exact iff_of_true rfl ⟨hrepeats.1, fun h => absurd h (Nat.not_lt_zero 0), hnone⟩
    · rw [hcalls, length_transientCalls_cons, if_pos hrepeats.1, Nat.add_comm 1, Nat.succ_inj,
        ih (by omega)]
      exact ⟨fun h => ⟨hrepeats.1, fun _ => hrepeats.2.1, h⟩, fun h => h.2.2⟩

/-- The attempts are used up when they fail through and the hook lets the last one pass. -/
theorem isExhausted_iff (hleft : attempt + left = o.attempts + 1) (hpos : 0 < left) :
    (attemptFrom o job random left attempt lastError).exit.isExhausted = true ↔
      o.idempotent = true ∧ FailsThrough o job left attempt ∧ o.hookThrows o.attempts = false := by
  induction left generalizing attempt lastError with
  | zero => exact absurd hpos (Nat.lt_irrefl 0)
  | succ left ih =>
    rw [failsThrough_succ]
    rcases attemptFrom_cases o job random left attempt lastError with ⟨hnot, -, hexit⟩ |
      ⟨hrepeats, hlast, -, hexit⟩ | ⟨hrepeats, hmore, err, -, hexit⟩
    · rw [hexit]
      refine iff_of_false Bool.false_ne_true ?_
      rintro ⟨hidempotent, ⟨htransient, hhook, -⟩, hthrows⟩
      rcases Nat.eq_zero_or_pos left with rfl | hmore
      · obtain rfl : attempt = o.attempts := by omega
        exact hnot ⟨htransient, hthrows, hidempotent⟩
      · exact hnot ⟨htransient, hhook hmore, hidempotent⟩
    · obtain rfl : left = 0 := by omega
      obtain rfl : attempt = o.attempts := by omega
      have hnone : FailsThrough o job 0 (o.attempts + 1) := fun k hk => absurd hk (Nat.not_lt_zero k)
      rw [hexit]
      exact iff_of_true rfl ⟨hrepeats.2.2, ⟨hrepeats.1, fun h => absurd h (Nat.not_lt_zero 0), hnone⟩,
        hrepeats.2.1⟩
    · rw [hexit, ih (by omega) (by omega)]
      constructor
      · rintro ⟨hidempotent, hrest, hthrows⟩
        exact ⟨hidempotent, ⟨hrepeats.1, fun _ => hrepeats.2.1, hrest⟩, hthrows⟩
      · rintro ⟨hidempotent, ⟨-, -, hrest⟩, hthrows⟩
        exact ⟨hidempotent, hrest, hthrows⟩

end Calls

/-! ## 6. The bounds -/

section Bounds

variable {α : Type} {o : RetryOptions} {job : ℕ → Outcome α}

/-- What is promised of the options and of a run under them: no delay above the maximum, no more calls
than attempts, one of a job that is not idempotent, and an entry in the dead letters exactly when all
the attempts of an idempotent job were failures worth another one. -/
structure Bounded (o : RetryOptions) (job : ℕ → Outcome α) (run : Finished α) : Prop where
  delays : DelaysBounded o
  calls : run.calls.length ≤ o.attempts
  once : o.idempotent = false → run.calls.length ≤ 1
  recorded : run.recorded.isSome = true ↔
    o.idempotent = true ∧ (transientCalls job run.calls).length = o.attempts

/-- The hook throws at the last attempt of an idempotent job that has failed through, and so nothing
is recorded. -/
def CutOff (o : RetryOptions) (job : ℕ → Outcome α) : Prop :=
  o.idempotent = true ∧ FailsThrough o job o.attempts 1 ∧ o.hookThrows o.attempts = true

theorem attempts_pos (o : RetryOptions) : 0 < o.attempts := by
  rw [RetryOptions.attempts]
  cases o.maxAttempts with
  | none => decide
  | some n =>
    rcases Nat.eq_zero_or_pos n with rfl | hn
    · decide
    · rw [Option.filter_some, if_pos (by simpa using hn.ne')]
      exact hn

theorem calls_runWithRetry (o : RetryOptions) (job : ℕ → Outcome α) (random : ℕ → ℚ) (jobName : String)
    (now : ℕ) (deadLetters : List FailedEntry) :
    (runWithRetry o job random jobName now deadLetters).calls =
        (attemptFrom o job random o.attempts 1 none).calls ∧
      (runWithRetry o job random jobName now deadLetters).recorded.isSome =
        (attemptFrom o job random o.attempts 1 none).exit.isExhausted := by
  simp only [runWithRetry]
  cases (attemptFrom o job random o.attempts 1 none).exit <;> exact ⟨rfl, rfl⟩

/-- The dead letters keep to five hundred, and the newest entry is among them. -/
theorem pushDeadLetter_spec {deadLetters : List FailedEntry} (entry : FailedEntry)
    (h : deadLetters.length ≤ 500) :
    (pushDeadLetter deadLetters entry).length ≤ 500 ∧ entry ∈ pushDeadLetter deadLetters entry := by
  rw [pushDeadLetter]
  split
  · rename_i hfull
    rw [List.length_tail]
    cases deadLetters with
    | nil => exact absurd hfull (by simp)
    | cons first rest => simp_all
  · simp_all

end Bounds

/-- A job that loses its connection every time. -/
def lostConnection (_ : ℕ) : Outcome Unit := .failure (some { code := some "ECONNRESET" })

/-- Two attempts a hundred milliseconds apart. -/
def steady : RetryOptions where
  maxAttempts := some 2
  initialDelayMs := some 100
  backoffFactor := some 1
  maxDelayMs := some 124

theorem steady_positive : steady.Positive where
  initialDelayMs := by simp [steady]
  backoffFactor := by simp [steady]
  maxDelayMs := by simp [steady]

example : (runWithRetry steady lostConnection (fun _ => 1 / 2) "price_refresh" 0 []).delays = [112] := by
  decide +kernel

end SmartDrop.Jobs.Retry
