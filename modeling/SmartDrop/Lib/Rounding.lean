/-
# Rounding to doubles

`nearest` on all positive rationals.  What is said of it comes from where the rounding step is:
`Step u q` says that `u` is a power of two that is the distance of the doubles at `q`, and it
determines `u` (`ulp_eq_of_step`).  From it follow that rounding is monotone
(`nearest_mono`), that its values are kept (`nearest_nearest`), that it is off by half a step at
most (`abs_nearest_sub_le`), and that what is near a double is rounded to it
(`nearest_of_relative`).
-/
import SmartDrop.Lib.IntegerText
import Mathlib.Algebra.Order.Field.Power

namespace Binary64

/-! ## 1. Powers -/

theorem pow2_eq_zpow (e : ℤ) : pow2 e = (2 : ℚ) ^ e := by
  unfold pow2
  rcases Int.eq_nat_or_neg e with ⟨n, rfl | rfl⟩
  · rw [if_pos (by omega), Int.toNat_natCast, zpow_natCast]
    push_cast
    rfl
  · rw [neg_neg, Int.toNat_natCast, zpow_neg, zpow_natCast]
    split
    · obtain rfl : n = 0 := by omega
      simp
    · push_cast
      rw [one_div]

theorem pow10_eq_zpow (e : ℤ) : pow10 e = (10 : ℚ) ^ e := by
  unfold pow10
  rcases Int.eq_nat_or_neg e with ⟨n, rfl | rfl⟩
  · rw [if_pos (by omega), Int.toNat_natCast, zpow_natCast]
    push_cast
    rfl
  · rw [neg_neg, Int.toNat_natCast, zpow_neg, zpow_natCast]
    split
    · obtain rfl : n = 0 := by omega
      simp
    · push_cast
      rw [one_div]

theorem pow2_pos (e : ℤ) : (0 : ℚ) < 2 ^ e := zpow_pos (by norm_num) e

theorem pow10_pos (e : ℤ) : (0 : ℚ) < 10 ^ e := zpow_pos (by norm_num) e

/-- The next power. -/
theorem pow2_succ (e : ℤ) : (2 : ℚ) ^ (e + 1) = 2 * 2 ^ e := by
  rw [zpow_add_one₀ (by norm_num), mul_comm]

theorem pow2_le {d e : ℤ} (h : d ≤ e) : (2 : ℚ) ^ d ≤ 2 ^ e :=
  zpow_le_zpow_right₀ (by norm_num) h

theorem pow2_lt_iff {d e : ℤ} : (2 : ℚ) ^ d < 2 ^ e ↔ d < e :=
  zpow_lt_zpow_iff_right₀ (by norm_num)

theorem pow10_lt_iff {d e : ℤ} : (10 : ℚ) ^ d < 10 ^ e ↔ d < e :=
  zpow_lt_zpow_iff_right₀ (by norm_num)

/-- A power is a whole multiple of a smaller one. -/
theorem pow2_split {d e : ℤ} (h : d ≤ e) : (2 : ℚ) ^ e = (2 ^ (e - d).toNat : ℕ) * 2 ^ d := by
  push_cast
  rw [← zpow_natCast, ← zpow_add₀ (by norm_num)]
  congr 1
  omega

/-! ## 2. Logarithms -/

variable {p q x u : ℚ}

theorem le_floor_nat {n : ℕ} (hq : 0 ≤ q) (h : n ≤ ⌊q⌋₊) : (n : ℚ) ≤ q :=
  le_trans (by exact_mod_cast h) (Nat.floor_le hq)

/-- A number below one, and the last whole number below its inverse. -/
theorem below_one (hq : 0 < q) (h : q < 1) {b k : ℕ} (hlo : b ^ k ≤ ⌈q⁻¹⌉₊ - 1)
    (hhi : ⌈q⁻¹⌉₊ - 1 < b ^ (k + 1)) (hb : 0 < b) :
    (1 : ℚ) / b ^ (k + 1) ≤ q ∧ q < 1 / b ^ k := by
  have hb' : (0 : ℚ) < b := by exact_mod_cast hb
  have hinv : 1 < q⁻¹ := (one_lt_inv₀ hq).mpr h
  constructor
  · have hle : ⌈q⁻¹⌉₊ ≤ b ^ (k + 1) := by omega
    have hle' : q⁻¹ ≤ b ^ (k + 1) := by exact_mod_cast Nat.ceil_le.mp hle
    rw [one_div]
    exact (inv_le_comm₀ (by positivity) hq).mpr hle'
  · have hlt : b ^ k < ⌈q⁻¹⌉₊ := by
      have : 0 < b ^ k := by positivity
      omega
    have hlt' : (b : ℚ) ^ k < q⁻¹ := by exact_mod_cast Nat.lt_ceil.mp hlt
    rw [one_div]
    exact (lt_inv_comm₀ (by positivity) hq).mp hlt'

theorem log2_spec (hq : 0 < q) : (2 : ℚ) ^ log2 q ≤ q ∧ q < 2 ^ (log2 q + 1) := by
  unfold log2
  split
  · rename_i h
    have hpos : ⌊q⌋₊ ≠ 0 := (Nat.floor_pos.mpr h).ne'
    have hhi := (Nat.floor_lt hq.le).mp (Nat.lt_log2_self (n := ⌊q⌋₊))
    have hlo := le_floor_nat hq.le (Nat.log2_self_le hpos)
    constructor
    · rw [zpow_natCast]
      exact_mod_cast hlo
    · have hcast : ((⌊q⌋₊.log2 : ℕ) : ℤ) + 1 = ((⌊q⌋₊.log2 + 1 : ℕ) : ℤ) := by push_cast; rfl
      rw [hcast, zpow_natCast]
      exact_mod_cast hhi
  · rename_i h
    have hlt := not_le.mp h
    have hceil : 1 < ⌈q⁻¹⌉₊ := Nat.lt_ceil.mpr (by simpa using (one_lt_inv₀ hq).mpr hlt)
    have hpos : ⌈q⁻¹⌉₊ - 1 ≠ 0 := by omega
    obtain ⟨hlo, hhi⟩ := below_one hq hlt (Nat.log2_self_le hpos) Nat.lt_log2_self (by norm_num)
    generalize (⌈q⁻¹⌉₊ - 1).log2 = k at hlo hhi
    constructor
    · rw [zpow_neg, zpow_natCast, ← one_div]
      exact_mod_cast hlo
    · rw [show -((k + 1 : ℕ) : ℤ) + 1 = -(k : ℤ) by push_cast; ring, zpow_neg, zpow_natCast,
        ← one_div]
      exact_mod_cast hhi

theorem digitsBefore_spec (hq : 0 < q) :
    (10 : ℚ) ^ (digitsBefore q - 1) ≤ q ∧ q < 10 ^ digitsBefore q := by
  unfold digitsBefore
  split
  · rename_i h
    have hpos : 0 < ⌊q⌋₊ := Nat.floor_pos.mpr h
    have hsize := size_pos ⌊q⌋₊
    have hhi := (Nat.floor_lt hq.le).mp (lt_pow_size ⌊q⌋₊)
    have hlo := le_floor_nat hq.le (pow_le_of_lt_size hpos (Nat.sub_one_lt hsize.ne'))
    change 10 ^ ((size ⌊q⌋₊ : ℤ) - 1) ≤ q ∧ q < 10 ^ (size ⌊q⌋₊ : ℤ)
    constructor
    · rw [show (size ⌊q⌋₊ : ℤ) - 1 = ((size ⌊q⌋₊ - 1 : ℕ) : ℤ) by omega, zpow_natCast]
      exact_mod_cast hlo
    · rw [zpow_natCast]
      exact_mod_cast hhi
  · rename_i h
    have hlt := not_le.mp h
    have hceil : 1 < ⌈q⁻¹⌉₊ := Nat.lt_ceil.mpr (by simpa using (one_lt_inv₀ hq).mpr hlt)
    rw [if_neg (by omega)]
    have hpos : 0 < ⌈q⁻¹⌉₊ - 1 := by omega
    have hsize := size_pos (⌈q⁻¹⌉₊ - 1)
    have hend : size (⌈q⁻¹⌉₊ - 1) - 1 + 1 = size (⌈q⁻¹⌉₊ - 1) := by omega
    obtain ⟨hlo, hhi⟩ := below_one hq hlt (b := 10)
      (pow_le_of_lt_size hpos (Nat.sub_one_lt hsize.ne')) (by rw [hend]; exact lt_pow_size _)
      (by norm_num)
    change 10 ^ (1 - (size (⌈q⁻¹⌉₊ - 1) : ℤ) - 1) ≤ q ∧ q < 10 ^ (1 - (size (⌈q⁻¹⌉₊ - 1) : ℤ))
    generalize size (⌈q⁻¹⌉₊ - 1) = k at hlo hhi hsize hend
    rw [hend] at hlo
    constructor
    · rw [show 1 - (k : ℤ) - 1 = -(k : ℤ) by ring, zpow_neg, zpow_natCast, ← one_div]
      exact_mod_cast hlo
    · rw [show 1 - (k : ℤ) = -((k - 1 : ℕ) : ℤ) by omega, zpow_neg, zpow_natCast, ← one_div]
      exact_mod_cast hhi

/-! ## 3. The nearest whole number -/

theorem roundEven_intCast (m : ℤ) : roundEven m = m :=
  roundEven_of_near (by rw [sub_self, abs_zero]; norm_num)

theorem roundEven_le_floor_add_one (q : ℚ) : roundEven q ≤ ⌊q⌋ + 1 := by
  unfold roundEven
  dsimp only
  split_ifs <;> omega

theorem roundEven_mono (h : p ≤ q) : roundEven p ≤ roundEven q := by
  rcases (Int.floor_mono h).lt_or_eq with hlt | heq
  · exact (roundEven_le_floor_add_one p).trans
      ((Int.add_one_le_iff.mpr hlt).trans (floor_le_roundEven q))
  · unfold roundEven
    dsimp only
    rw [heq]
    split_ifs <;> first | omega | linarith

/-- The nearest whole number is as far as a half at most. -/
theorem abs_roundEven_sub_le (q : ℚ) : |(roundEven q : ℚ) - q| ≤ 1 / 2 := by
  have hlo := Int.floor_le q
  have hhi := Int.lt_floor_add_one q
  unfold roundEven
  dsimp only
  split_ifs <;> rw [abs_le] <;> constructor <;> push_cast <;> linarith

/-- What is as far from a whole number as something that is rounded to it, is rounded to it. -/
theorem roundEven_of_closer {m : ℤ} (hp : roundEven p = m) (h : |q - m| ≤ |p - m|) :
    roundEven q = m := by
  have hhalf : |p - m| ≤ 1 / 2 := by
    rw [← hp, abs_sub_comm]
    exact abs_roundEven_sub_le p
  rcases (h.trans hhalf).lt_or_eq with hlt | heq
  · exact roundEven_of_near hlt
  -- both are half way, and then `m` is even
  have hp' : |p - m| = 1 / 2 := le_antisymm hhalf (heq ▸ h)
  have heven : m % 2 = 0 := by
    rcases (abs_eq (by norm_num)).mp hp' with hup | hdown
    · have hfloor : ⌊p⌋ = m := Int.floor_eq_iff.mpr ⟨by linarith, by linarith⟩
      unfold roundEven at hp
      simp only [hfloor] at hp
      rw [if_neg (by linarith), if_neg (by linarith)] at hp
      by_contra hodd
      rw [if_neg hodd] at hp
      omega
    · have hfloor : ⌊p⌋ = m - 1 :=
        Int.floor_eq_iff.mpr ⟨by push_cast; linarith, by push_cast; linarith⟩
      unfold roundEven at hp
      simp only [hfloor] at hp
      rw [if_neg (by push_cast; linarith), if_neg (by push_cast; linarith)] at hp
      split_ifs at hp <;> omega
  rcases (abs_eq (by norm_num)).mp heq with hup | hdown
  · have hfloor : ⌊q⌋ = m := Int.floor_eq_iff.mpr ⟨by linarith, by linarith⟩
    unfold roundEven
    simp only [hfloor]
    rw [if_neg (by linarith), if_neg (by linarith), if_pos heven]
  · have hfloor : ⌊q⌋ = m - 1 :=
      Int.floor_eq_iff.mpr ⟨by push_cast; linarith, by push_cast; linarith⟩
    unfold roundEven
    simp only [hfloor]
    rw [if_neg (by push_cast; linarith), if_neg (by push_cast; linarith), if_neg (by omega)]
    omega

/-! ## 4. The rounding step -/

/-- `2 ^ k` is the distance of neighbouring doubles at `q`: a significand of 53 bits, unless the
step is the least one. -/
structure Step (k : ℤ) (q : ℚ) : Prop where
  least : -1074 ≤ k
  lt : q < 2 ^ 53 * 2 ^ k
  le : k = -1074 ∨ 2 ^ 52 * 2 ^ k ≤ q

theorem exists_step (hq : 0 < q) : ∃ k, Step k q ∧ ulp q = 2 ^ k := by
  obtain ⟨hlo, hhi⟩ := log2_spec hq
  refine ⟨max (log2 q - 52) (-1074), ⟨le_max_right _ _, ?_, ?_⟩, pow2_eq_zpow _⟩
  · refine lt_of_lt_of_le hhi ?_
    rw [← zpow_natCast, ← zpow_add₀ (by norm_num)]
    exact pow2_le (by push_cast; omega)
  · rcases le_total (log2 q - 52) (-1074) with h | h
    · exact .inl (max_eq_right h)
    · rw [max_eq_left h, ← zpow_natCast, ← zpow_add₀ (by norm_num)]
      exact .inr (by simpa using hlo)

theorem Step.unique {j k : ℤ} (hj : Step j q) (hk : Step k q) : j = k := by
  have key : ∀ {j k : ℤ}, Step j q → Step k q → ¬ j < k := by
    intro j k hj hk hlt
    rcases hk.le with rfl | hle
    · exact absurd hj.least (by omega)
    · have hpow : (2 : ℚ) ^ (j + 1) ≤ 2 ^ k := pow2_le (by omega)
      rw [pow2_succ] at hpow
      linarith [hj.lt]
  have h₁ := key hj hk
  have h₂ := key hk hj
  omega

theorem Step.ulp_eq {k : ℤ} (h : Step k q) (hq : 0 < q) : ulp q = 2 ^ k := by
  obtain ⟨j, hj, hulp⟩ := exists_step hq
  rw [hulp, hj.unique h]

theorem Step.nearest_eq {k : ℤ} (h : Step k q) (hq : 0 < q) :
    nearest q = roundEven (q / 2 ^ k) * 2 ^ k := by
  rw [nearest, if_neg hq.ne', if_pos hq, h.ulp_eq hq]

/-- The significand has 53 bits at most. -/
theorem Step.roundEven_le {k : ℤ} (h : Step k q) : roundEven (q / 2 ^ k) ≤ 2 ^ 53 := by
  refine roundEven_le_of_lt ?_
  rw [div_lt_iff₀ (pow2_pos k)]
  push_cast
  exact h.lt

theorem Step.nonneg_roundEven {k : ℤ} (hq : 0 ≤ q) : 0 ≤ roundEven (q / 2 ^ k) := by
  rw [← roundEven_intCast 0]
  exact roundEven_mono (by push_cast; exact div_nonneg hq (pow2_pos k).le)

/-! ## 5. Laws of rounding -/

@[simp] theorem nearest_zero : nearest 0 = 0 := by rw [nearest, if_pos rfl]

theorem nearest_nonneg (hq : 0 ≤ q) : 0 ≤ nearest q := by
  rcases hq.eq_or_lt with rfl | hq
  · rw [nearest_zero]
  · obtain ⟨k, hk, -⟩ := exists_step hq
    rw [hk.nearest_eq hq]
    exact mul_nonneg (by exact_mod_cast Step.nonneg_roundEven hq.le) (pow2_pos k).le

/-- **The doubles**: the multiples of a step by a significand of 53 bits at most. -/
theorem nearest_mul_pow2 {m k : ℤ} (hm : 0 ≤ m) (hm' : m ≤ 2 ^ 53) (hk : -1074 ≤ k) :
    nearest (m * 2 ^ k) = m * 2 ^ k := by
  rcases hm.eq_or_lt with rfl | hm
  · simp
  have hpow := pow2_pos k
  have hpos : (0 : ℚ) < m * 2 ^ k := mul_pos (by exact_mod_cast hm) hpow
  obtain ⟨j, hj, -⟩ := exists_step hpos
  have hm53 : (m : ℚ) ≤ 2 ^ 53 := by exact_mod_cast hm'
  -- the number is a multiple of its own step
  obtain ⟨n, hn⟩ : ∃ n : ℤ, (m : ℚ) * 2 ^ k = n * 2 ^ j := by
    rcases le_or_gt j k with hjk | hkj
    · refine ⟨m * (2 ^ (k - j).toNat : ℕ), ?_⟩
      rw [pow2_split hjk]
      push_cast
      ring
    · have hle : 2 ^ 52 * 2 ^ j ≤ (m : ℚ) * 2 ^ k := by
        rcases hj.le with rfl | hle
        · exact absurd hkj (by omega)
        · exact hle
      have hnext : (2 : ℚ) ^ (k + 1) ≤ 2 ^ j := pow2_le (by omega)
      rw [pow2_succ] at hnext
      have hmax : (m : ℚ) * 2 ^ k ≤ 2 ^ 53 * 2 ^ k := mul_le_mul_of_nonneg_right hm53 hpow.le
      exact ⟨2 ^ 52, by push_cast; linarith⟩
  rw [hj.nearest_eq hpos, hn, mul_div_cancel_right₀ _ (pow2_pos j).ne', roundEven_intCast]

/-- **Rounding keeps what it yields.** -/
theorem nearest_nearest (q : ℚ) : nearest (nearest q) = nearest q := by
  have key : ∀ {q : ℚ}, 0 < q → nearest (nearest q) = nearest q := by
    intro q hq
    obtain ⟨k, hk, -⟩ := exists_step hq
    rw [hk.nearest_eq hq]
    exact nearest_mul_pow2 (Step.nonneg_roundEven hq.le) hk.roundEven_le hk.least
  rcases lt_trichotomy q 0 with hneg | rfl | hpos
  · have h := key (neg_pos.mpr hneg)
    rw [nearest_neg, nearest_neg] at h
    exact neg_inj.mp h
  · rw [nearest_zero, nearest_zero]
  · exact key hpos

/-- The double nearest to a rational. -/
def Double.round (q : ℚ) : Double := ⟨nearest q, nearest_nearest q⟩

/-- **Rounding is monotone.** -/
theorem nearest_mono (h : p ≤ q) : nearest p ≤ nearest q := by
  have key : ∀ {p q : ℚ}, 0 < p → p ≤ q → nearest p ≤ nearest q := by
    intro p q hp h
    have hq := lt_of_lt_of_le hp h
    obtain ⟨j, hj, -⟩ := exists_step hp
    obtain ⟨k, hk, -⟩ := exists_step hq
    rw [hj.nearest_eq hp, hk.nearest_eq hq]
    rcases lt_trichotomy j k with hlt | rfl | hgt
    · -- a whole power of two lies between them
      have hle : 2 ^ 52 * 2 ^ k ≤ q := by
        rcases hk.le with rfl | hle
        · exact absurd hj.least (by omega)
        · exact hle
      have hnext : (2 : ℚ) ^ (j + 1) ≤ 2 ^ k := pow2_le (by omega)
      rw [pow2_succ] at hnext
      have hupper : (roundEven (p / 2 ^ j) : ℚ) ≤ 2 ^ 53 := by exact_mod_cast hj.roundEven_le
      have hlower : (2 ^ 52 : ℤ) ≤ roundEven (q / 2 ^ k) := by
        rw [← roundEven_intCast (2 ^ 52)]
        refine roundEven_mono ?_
        rw [le_div_iff₀ (pow2_pos k)]
        push_cast
        exact hle
      have hlower' : (2 ^ 52 : ℚ) ≤ roundEven (q / 2 ^ k) := by exact_mod_cast hlower
      have h₁ := mul_le_mul_of_nonneg_right hupper (pow2_pos j).le
      have h₂ := mul_le_mul_of_nonneg_right hlower' (pow2_pos k).le
      linarith
    · have hround : roundEven (p / 2 ^ j) ≤ roundEven (q / 2 ^ j) :=
        roundEven_mono (div_le_div_of_nonneg_right h (pow2_pos j).le)
      exact mul_le_mul_of_nonneg_right (by exact_mod_cast hround) (pow2_pos j).le
    · exfalso
      rcases hj.le with rfl | hle
      · exact absurd hk.least (by omega)
      · have hnext : (2 : ℚ) ^ (k + 1) ≤ 2 ^ j := pow2_le (by omega)
        rw [pow2_succ] at hnext
        linarith [hk.lt]
  rcases lt_or_ge 0 p with hp | hp
  · exact key hp h
  · rcases lt_or_ge q 0 with hq | hq
    · have := key (neg_pos.mpr hq) (neg_le_neg h)
      rw [nearest_neg, nearest_neg] at this
      linarith
    · have hp' := nearest_nonneg (neg_nonneg.mpr hp)
      rw [nearest_neg] at hp'
      linarith [nearest_nonneg hq]

/-- What rounds to less is less. -/
theorem lt_of_nearest_lt (h : nearest p < nearest q) : p < q :=
  lt_of_not_ge fun hle => absurd (nearest_mono hle) (not_le.mpr h)

/-- **Rounding is off by half a step at most.** -/
theorem abs_nearest_sub_le (hq : 0 < q) : |nearest q - q| ≤ ulp q / 2 := by
  obtain ⟨k, hk, hulp⟩ := exists_step hq
  have hpow := pow2_pos k
  have hround := abs_roundEven_sub_le (q / 2 ^ k)
  have hfactor : nearest q - q = (roundEven (q / 2 ^ k) - q / 2 ^ k) * 2 ^ k := by
    rw [hk.nearest_eq hq]
    field_simp
  rw [hfactor, hulp, abs_mul, abs_of_pos hpow]
  linarith [mul_le_mul_of_nonneg_right hround hpow.le]

/-- A number from the least normal one on, and its step. -/
theorem ulp_le (hq : (2 : ℚ) ^ (-1022 : ℤ) ≤ q) : ulp q ≤ q / 2 ^ 52 := by
  have hpos := lt_of_lt_of_le (pow2_pos _) hq
  obtain ⟨k, hk, hulp⟩ := exists_step hpos
  rw [hulp, le_div_iff₀ (by norm_num)]
  rcases hk.le with rfl | hle
  · refine le_trans (le_of_eq ?_) hq
    rw [← zpow_natCast, ← zpow_add₀ (by norm_num)]
    norm_num
  · linarith

/-- A double is a whole number of steps, less than `2 ^ 53`. -/
theorem Step.exists_mul {k : ℤ} (hk : Step k q) (hq : 0 < q) (hdouble : nearest q = q) :
    ∃ m : ℤ, q = m * 2 ^ k ∧ 1 ≤ m ∧ m ≤ 2 ^ 53 - 1 := by
  have hpow := pow2_pos k
  have hm := hdouble.symm.trans (hk.nearest_eq hq)
  have hlt := hk.lt
  generalize roundEven (q / 2 ^ k) = m at hm
  rw [hm] at hq hlt
  have hm0 : (0 : ℚ) < m := pos_of_mul_pos_left hq hpow.le
  have hm1 : (m : ℚ) < 2 ^ 53 := lt_of_mul_lt_mul_right hlt hpow.le
  refine ⟨m, hm, ?_, ?_⟩
  · exact_mod_cast hm0
  · exact Int.le_sub_one_of_lt (by exact_mod_cast hm1)

/-- What is within half a step of a double is rounded to it, unless it lies below a power of two,
where the steps are half as long. -/
theorem Step.nearest_of_close {k : ℤ} (hk : Step k q) (hq : 0 < q) (hdouble : nearest q = q)
    (h : |x - q| < 2 ^ k / 2)
    (hlow : k = -1074 ∨ 2 ^ 52 * 2 ^ k ≤ x ∨ |x - q| < 2 ^ k / 4) : nearest x = q := by
  have hpow := pow2_pos k
  obtain ⟨hlo, hhi⟩ := abs_lt.mp h
  obtain ⟨m, hm, hm1, hmtop⟩ := hk.exists_mul hq hdouble
  have hqk : (2 : ℚ) ^ k ≤ q := by
    rw [hm]
    exact le_mul_of_one_le_left hpow.le (by exact_mod_cast hm1)
  have hx : 0 < x := by linarith
  have htop : q ≤ (2 ^ 53 - 1) * 2 ^ k := by
    rw [hm]
    exact mul_le_mul_of_nonneg_right (by exact_mod_cast hmtop) hpow.le
  by_cases hsame : k = -1074 ∨ 2 ^ 52 * 2 ^ k ≤ x
  · have hxk : Step k x := ⟨hk.least, by linarith, hsame⟩
    rw [hxk.nearest_eq hx, roundEven_of_near (m := m), ← hm]
    rw [show x / 2 ^ k - m = (x - q) / 2 ^ k by rw [hm]; field_simp, abs_div, abs_of_pos hpow,
      div_lt_iff₀ hpow]
    linarith
  · obtain ⟨hk1, hx52⟩ := not_or.mp hsame
    have hquarter := (hlow.resolve_left hk1).resolve_left hx52
    obtain ⟨hlo', hhi'⟩ := abs_lt.mp hquarter
    have hle : 2 ^ 52 * 2 ^ k ≤ q := hk.le.resolve_left hk1
    have hleast := hk.least
    obtain ⟨j, rfl⟩ : ∃ j, k = j + 1 := ⟨k - 1, by omega⟩
    have hj := pow2_pos j
    rw [pow2_succ] at *
    have hxj : Step j x := ⟨by omega, by linarith, .inr (by linarith)⟩
    rw [hxj.nearest_eq hx, roundEven_of_near (m := 2 * m)]
    · rw [hm]
      push_cast
      ring
    · push_cast
      rw [show x / 2 ^ j - 2 * m = (x - q) / 2 ^ j by rw [hm]; field_simp, abs_div,
        abs_of_pos hj, div_lt_iff₀ hj]
      linarith

/-- The two neighbours of a double are a part in `2 ^ 53` away from it at least. -/
theorem nearest_of_relative (hpos : 0 < q) (hdouble : nearest q = q)
    (h : |x - q| * 2 ^ 54 < q) : nearest x = q := by
  obtain ⟨k, hk, -⟩ := exists_step hpos
  have hpow := pow2_pos k
  have hlt := hk.lt
  refine hk.nearest_of_close hpos hdouble (by linarith) ?_
  rcases hk.le with rfl | hle
  · exact .inl rfl
  rcases le_or_gt (2 ^ 52 * 2 ^ k) x with hx | hx
  · exact .inr (.inl hx)
  -- the double is the power of two itself
  obtain ⟨m, hm, hm1, -⟩ := hk.exists_mul hpos hdouble
  obtain ⟨hlo, hhi⟩ := abs_lt.mp (show |x - q| < 2 ^ k / 2 by linarith)
  have hm52 : m ≤ 2 ^ 52 := by
    by_contra hgt
    have : ((2 ^ 52 + 1 : ℤ) : ℚ) ≤ m := by exact_mod_cast (show 2 ^ 52 + 1 ≤ m by omega)
    have hmul := mul_le_mul_of_nonneg_right this hpow.le
    rw [← hm] at hmul
    push_cast at hmul
    linarith
  have hm52' : (m : ℚ) ≤ 2 ^ 52 := by exact_mod_cast hm52
  have hmul := mul_le_mul_of_nonneg_right hm52' hpow.le
  rw [← hm] at hmul
  exact .inr (.inr (by linarith))

end Binary64
