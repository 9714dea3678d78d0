/-
# The delays between retries

`backoffMs` of `services/webhookDispatcher.js`: half of a delay that grows by a factor with every
attempt, and a random share of the other half.  The delays of one attempt lie in `[d / 2, d)`
(`backoffMs_mem`), and with a factor of two or more the delays of the next attempt begin where these
end (`double_le_deterministicDelay`).  So the retries of a delivery wait longer and longer
(`backoff_bounded_monotone`), whatever is drawn; with a smaller factor they need not
(`jitter_overlaps`).
-/
import SmartDrop.Webhooks.Dispatcher
import Mathlib.Algebra.Order.Field.Basic
import Mathlib.Order.Interval.Set.Defs

namespace SmartDrop.Webhooks

namespace dispatcher

/-! ## 1. Equal jitter -/

section EqualJitter

variable {K : Type*} [Field K] [LinearOrder K] [IsStrictOrderedRing K] {d e r r' : K}

/-- Half of a delay, and a share of the other half. -/
def equalJitter (d r : K) : K := d / 2 + r * (d / 2)

theorem equalJitter_mem (hd : 0 < d) (hr : r ∈ Set.Ico 0 1) :
    equalJitter d r ∈ Set.Ico (d / 2) d := by
  have hhalf : 0 < d / 2 := half_pos hd
  constructor
  · exact le_add_of_nonneg_right (mul_nonneg hr.1 hhalf.le)
  · have hshare : r * (d / 2) < d / 2 := mul_lt_of_lt_one_left hhalf hr.2
    calc equalJitter d r < d / 2 + d / 2 := add_lt_add_right hshare _
      _ = d := add_halves d

/-- A delay that is at least twice as long stays longer. -/
theorem equalJitter_lt (hd : 0 < d) (hde : 2 * d ≤ e) (hr : r ∈ Set.Ico 0 1) (hr' : r' ∈ Set.Ico 0 1) :
    equalJitter d r < equalJitter e r' := by
  have he : 0 < e := (mul_pos two_pos hd).trans_le hde
  calc equalJitter d r < d := (equalJitter_mem hd hr).2
    _ ≤ e / 2 := (le_div_iff₀' two_pos).mpr hde
    _ ≤ equalJitter e r' := (equalJitter_mem he hr').1

end EqualJitter

/-! ## 2. The schedule -/

/-- The options of a call; those that are missing are read from the configuration. -/
structure BackoffOptions where
  retryBaseMs : Option ℚ := none
  retryFactor : Option ℚ := none

/-- The configuration under the options of a call. -/
def BackoffOptions.over (options : BackoffOptions) (config : Config) : Config :=
  { config with
    retryBaseMs := options.retryBaseMs.getD config.retryBaseMs
    retryFactor := options.retryFactor.getD config.retryFactor }

/-- The delay without its jitter. -/
def deterministicDelay (config : Config) (attemptsCompleted : ℕ) : ℚ :=
  config.retryBaseMs * config.retryFactor ^ (attemptsCompleted - 1)

/-- The delays that the retries of a delivery wait which has been attempted `attempts` times: every
attempt counts itself before it draws. -/
def retryDelays (config : Config) (attempts : ℕ) : List ℚ → List ℚ
  | [] => []
  | random :: draws =>
    backoffMs config (attempts + 1) random :: retryDelays config (attempts + 1) draws

variable {config : Config} {m n : ℕ} {r r' : ℚ} {draws : List ℚ}

theorem backoffMs_eq : backoffMs config n r = equalJitter (deterministicDelay config n) r := rfl

theorem deterministicDelay_pos (hbase : 0 < config.retryBaseMs) (hfactor : 2 ≤ config.retryFactor) :
    0 < deterministicDelay config n :=
  mul_pos hbase (pow_pos (two_pos.trans_le hfactor) _)

theorem deterministicDelay_succ (hn : 1 ≤ n) :
    deterministicDelay config (n + 1) = config.retryFactor * deterministicDelay config n := by
  obtain ⟨k, rfl⟩ := Nat.exists_eq_add_of_le' hn
  simp only [deterministicDelay, Nat.add_sub_cancel, pow_succ]
  ring

/-- A later attempt has at least twice the delay. -/
theorem double_le_deterministicDelay (hbase : 0 < config.retryBaseMs) (hfactor : 2 ≤ config.retryFactor)
    (hm : 1 ≤ m) (hmn : m < n) : 2 * deterministicDelay config m ≤ deterministicDelay config n := by
  have hstep : ∀ k, 1 ≤ k → 2 * deterministicDelay config k ≤ deterministicDelay config (k + 1) := by
    intro k hk
    rw [deterministicDelay_succ hk]
    exact mul_le_mul_of_nonneg_right hfactor (deterministicDelay_pos hbase hfactor).le
  induction n, hmn using Nat.le_induction with
  | base => exact hstep m hm
  | succ k hk ih =>
    have hpos : 0 < deterministicDelay config k := deterministicDelay_pos hbase hfactor
    calc 2 * deterministicDelay config m ≤ deterministicDelay config k := ih
      _ ≤ 2 * deterministicDelay config k := by linarith
      _ ≤ deterministicDelay config (k + 1) := hstep k (hm.trans (Nat.le_of_succ_le hk))

theorem backoffMs_mem (hbase : 0 < config.retryBaseMs) (hfactor : 2 ≤ config.retryFactor)
    (hr : r ∈ Set.Ico 0 1) :
    backoffMs config n r ∈ Set.Ico (deterministicDelay config n / 2) (deterministicDelay config n) :=
  equalJitter_mem (deterministicDelay_pos hbase hfactor) hr

theorem backoffMs_lt (hbase : 0 < config.retryBaseMs) (hfactor : 2 ≤ config.retryFactor)
    (hm : 1 ≤ m) (hmn : m < n) (hr : r ∈ Set.Ico 0 1) (hr' : r' ∈ Set.Ico 0 1) :
    backoffMs config m r' < backoffMs config n r :=
  equalJitter_lt (deterministicDelay_pos hbase hfactor)
    (double_le_deterministicDelay hbase hfactor hm hmn) hr' hr

/-- Every delay of the schedule is that of a later attempt. -/
theorem mem_retryDelays {attempts : ℕ} {delay : ℚ} (hall : ∀ r ∈ draws, r ∈ Set.Ico (0 : ℚ) 1)
    (h : delay ∈ retryDelays config attempts draws) :
    ∃ n, attempts < n ∧ ∃ r ∈ Set.Ico (0 : ℚ) 1, delay = backoffMs config n r := by
  induction draws generalizing attempts with
  | nil => cases h
  | cons random draws ih =>
    rw [List.forall_mem_cons] at hall
    rcases List.mem_cons.mp h with rfl | h
    · exact ⟨attempts + 1, Nat.lt_succ_self _, random, hall.1, rfl⟩
    · obtain ⟨n, hn, hr⟩ := ih hall.2 h
      exact ⟨n, Nat.lt_of_succ_lt hn, hr⟩

/-- The schedule of a delivery grows. -/
theorem pairwise_retryDelays (hbase : 0 < config.retryBaseMs) (hfactor : 2 ≤ config.retryFactor)
    {attempts : ℕ} (hall : ∀ r ∈ draws, r ∈ Set.Ico (0 : ℚ) 1) :
    (retryDelays config attempts draws).Pairwise (· < ·) := by
  induction draws generalizing attempts with
  | nil => exact List.Pairwise.nil
  | cons random draws ih =>
    rw [List.forall_mem_cons] at hall
    refine List.pairwise_cons.mpr ⟨fun delay hdelay => ?_, ih hall.2⟩
    obtain ⟨n, hn, r, hr, rfl⟩ := mem_retryDelays hall.2 hdelay
    exact backoffMs_lt hbase hfactor (Nat.succ_pos _) hn hr hall.1

/-- **Bounded, and longer with every retry**: the delay after an attempt lies between half of the
deterministic delay and all of it, the delay after a later attempt is longer whatever the two draws
are, and so the delays of the retries of a delivery grow. -/
theorem backoff_bounded_monotone (settings : Config) (options : BackoffOptions)
    (hbase : 0 < (options.over settings).retryBaseMs) (hfactor : 2 ≤ (options.over settings).retryFactor) :
    (∀ n, 1 ≤ n → ∀ r : ℚ, 0 ≤ r → r < 1 →
      (options.over settings).retryBaseMs * (options.over settings).retryFactor ^ (n - 1) / 2 ≤
          backoffMs (options.over settings) n r ∧
        backoffMs (options.over settings) n r <
          (options.over settings).retryBaseMs * (options.over settings).retryFactor ^ (n - 1)) ∧
      (∀ m n, 1 ≤ m → m < n → ∀ r r' : ℚ, 0 ≤ r → r < 1 → 0 ≤ r' → r' < 1 →
        backoffMs (options.over settings) m r' < backoffMs (options.over settings) n r) ∧
      ∀ (attempts : ℕ) (draws : List ℚ), (∀ r ∈ draws, 0 ≤ r ∧ r < 1) →
        (retryDelays (options.over settings) attempts draws).Pairwise (· < ·) := by
  refine ⟨fun n _ r hr0 hr1 => ?_, fun m n hm hmn r r' hr0 hr1 hr0' hr1' => ?_, fun attempts draws hall => ?_⟩
  · exact backoffMs_mem hbase hfactor ⟨hr0, hr1⟩
  · exact backoffMs_lt hbase hfactor hm hmn ⟨hr0, hr1⟩ ⟨hr0', hr1'⟩
  · exact pairwise_retryDelays hbase hfactor hall

/-- The defaults, with a factor of three for the webhook. -/
theorem backoff_bounded_monotone_sample :
    (∀ n, 1 ≤ n → ∀ r : ℚ, 0 ≤ r → r < 1 →
      (30000 : ℚ) * 3 ^ (n - 1) / 2 ≤ backoffMs ({ retryFactor := some 3 : BackoffOptions }.over sampleConfig) n r ∧
        backoffMs ({ retryFactor := some 3 : BackoffOptions }.over sampleConfig) n r < 30000 * 3 ^ (n - 1)) ∧
      (∀ m n, 1 ≤ m → m < n → ∀ r r' : ℚ, 0 ≤ r → r < 1 → 0 ≤ r' → r' < 1 →
        backoffMs ({ retryFactor := some 3 : BackoffOptions }.over sampleConfig) m r' <
          backoffMs ({ retryFactor := some 3 : BackoffOptions }.over sampleConfig) n r) ∧
      ∀ (attempts : ℕ) (draws : List ℚ), (∀ r ∈ draws, 0 ≤ r ∧ r < 1) →
        (retryDelays ({ retryFactor := some 3 : BackoffOptions }.over sampleConfig) attempts draws).Pairwise
          (· < ·) :=
  backoff_bounded_monotone sampleConfig { retryFactor := some 3 } (by decide) (by decide)

/-- With a factor below two a later retry can wait less than an earlier one. -/
theorem jitter_overlaps (hbase : 0 < config.retryBaseMs) (hpos : 0 < config.retryFactor)
    (hfactor : config.retryFactor < 2) (hn : 1 ≤ n) :
    ∃ r : ℚ, 0 ≤ r ∧ r < 1 ∧ backoffMs config (n + 1) 0 < backoffMs config n r := by
  refine ⟨config.retryFactor / 2, by linarith, by linarith, ?_⟩
  have hd : 0 < deterministicDelay config n := mul_pos hbase (pow_pos hpos _)
  have hless : config.retryFactor * deterministicDelay config n <
      (1 + config.retryFactor / 2) * deterministicDelay config n :=
    mul_lt_mul_of_pos_right (by linarith) hd
  rw [backoffMs_eq, backoffMs_eq, deterministicDelay_succ hn, equalJitter, equalJitter]
  linarith

end dispatcher

end SmartDrop.Webhooks
