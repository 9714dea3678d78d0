/-
# Numbers written with a fixed number of digits

`significant digits q` is the decimal that `printf`'s `%.<digits>g` writes for `q`.  A double that
is written and read back this way is the same double exactly when a decimal of so many digits
reads as it (`nearest_significant_iff`), for fifteen digits at most.
-/
import SmartDrop.Lib.Rounding

namespace Binary64

/-- The decimal of so many significant digits that is nearest to `q`; a tie goes to the even
digit. -/
def significant (digits : ℕ) (q : ℚ) : ℚ :=
  if q = 0 then 0
  else if 0 < q then
    roundEven (q / pow10 (digitsBefore q - digits)) * pow10 (digitsBefore q - digits)
  else -(roundEven (-q / pow10 (digitsBefore (-q) - digits)) * pow10 (digitsBefore (-q) - digits))

/-- A decimal of so many digits reads as `q`. -/
def HasDigits (digits : ℕ) (q : ℚ) : Prop :=
  ∃ m : ℕ, m < 10 ^ digits ∧ ∃ e : ℤ, nearest (m * 10 ^ e) = q

variable {digits : ℕ} {p q v : ℚ}

theorem significant_zero : significant digits 0 = 0 := if_pos rfl

theorem significant_of_pos (hq : 0 < q) : significant digits q =
    roundEven (q / 10 ^ (digitsBefore q - digits)) * 10 ^ (digitsBefore q - digits) := by
  rw [significant, if_neg hq.ne', if_pos hq, pow10_eq_zpow]

theorem significant_neg (q : ℚ) : significant digits (-q) = -significant digits q := by
  have key : ∀ {q : ℚ}, 0 < q → significant digits (-q) = -significant digits q := by
    intro q hq
    rw [significant_of_pos hq, significant, if_neg (by linarith), if_neg (by linarith), neg_neg,
      pow10_eq_zpow]
  rcases lt_trichotomy q 0 with hneg | rfl | hpos
  · have h := key (neg_pos.mpr hneg)
    rw [neg_neg] at h
    rw [h, neg_neg]
  · rw [neg_zero, significant_zero, neg_zero]
  · exact key hpos

/-- What is written has so many digits. -/
theorem significant_digits (hq : 0 < q) (hdigits : 0 < digits) :
    ∃ m : ℕ, m < 10 ^ digits ∧ ∃ e : ℤ, significant digits q = m * 10 ^ e := by
  obtain ⟨-, hhi⟩ := digitsBefore_spec hq
  have hpow := pow10_pos (digitsBefore q - digits)
  have hround : roundEven (q / 10 ^ (digitsBefore q - digits)) ≤ 10 ^ digits := by
    refine roundEven_le_of_lt ((div_lt_iff₀ hpow).mpr (lt_of_lt_of_le hhi (le_of_eq ?_)))
    push_cast
    rw [← zpow_natCast, ← zpow_add₀ (by norm_num), add_sub_cancel]
  have hnonneg : 0 ≤ roundEven (q / 10 ^ (digitsBefore q - digits)) := by
    rw [← roundEven_intCast 0]
    exact roundEven_mono (by push_cast; positivity)
  rw [significant_of_pos hq]
  obtain ⟨m, hm⟩ := Int.eq_ofNat_of_zero_le hnonneg
  rw [hm] at hround ⊢
  have hround' : m ≤ 10 ^ digits := by exact_mod_cast hround
  rcases hround'.lt_or_eq with hlt | heq
  · exact ⟨m, hlt, _, rfl⟩
  · -- the digits have been rounded up to the next power of ten
    refine ⟨1, Nat.one_lt_pow hdigits.ne' (by norm_num), digitsBefore q, ?_⟩
    rw [heq]
    push_cast
    rw [one_mul, ← zpow_natCast, ← zpow_add₀ (by norm_num), add_sub_cancel]

/-- What reads as a double is half a step away from it at most. -/
theorem Step.of_reads {k : ℤ} (hk : Step k q) (hq : 0 < q) (hv : nearest v = q) :
    0 < v ∧ v < 2 ^ 53 * 2 ^ k ∧ |v - q| ≤ 2 ^ k / 2 := by
  have hpow := pow2_pos k
  have hvpos : 0 < v := by
    refine lt_of_nearest_lt ?_
    rwa [nearest_zero, hv]
  have hlt : v < 2 ^ 53 * 2 ^ k := by
    refine lt_of_nearest_lt ?_
    have hexact : nearest (2 ^ 53 * 2 ^ k) = 2 ^ 53 * 2 ^ k := by
      exact_mod_cast nearest_mul_pow2 (m := 2 ^ 53) (by positivity) le_rfl hk.least
    rw [hexact, hv]
    exact hk.lt
  refine ⟨hvpos, hlt, ?_⟩
  obtain ⟨j, hj, hulp⟩ := exists_step hvpos
  have hjk : j ≤ k := by
    rcases hj.le with rfl | hle
    · exact hk.least
    · have hlt' : (2 : ℚ) ^ j < 2 ^ (k + 1) := by
        rw [pow2_succ]
        linarith
      have := pow2_lt_iff.mp hlt'
      omega
  have herror := abs_nearest_sub_le hvpos
  rw [hulp, hv, abs_sub_comm] at herror
  linarith [pow2_le hjk]

/-- Where all steps are the least one, what is as near to a double as something that reads as it
reads as it, too. -/
theorem Step.reads_of_closer (hk : Step (-1074) q) (hq : 0 < q) (hdouble : nearest q = q)
    (hv : nearest v = q) (h : |p - q| ≤ |v - q|) : nearest p = q := by
  have hpow := pow2_pos (-1074)
  obtain ⟨hvpos, hvlt, hclose⟩ := hk.of_reads hq hv
  obtain ⟨m, hm, hm1, hmtop⟩ := hk.exists_mul hq hdouble
  have hm1' : (1 : ℚ) ≤ m := by exact_mod_cast hm1
  have hmtop' : (m : ℚ) ≤ 2 ^ 53 - 1 := by exact_mod_cast hmtop
  have hlow := mul_le_mul_of_nonneg_right hm1' hpow.le
  have hhigh := mul_le_mul_of_nonneg_right hmtop' hpow.le
  rw [← hm] at hlow hhigh
  obtain ⟨hlo, hhi⟩ := abs_le.mp (h.trans hclose)
  have hppos : 0 < p := by linarith
  have hpk : Step (-1074) p := ⟨le_rfl, by linarith, .inl rfl⟩
  have hvk : Step (-1074) v := ⟨le_rfl, hvlt, .inl rfl⟩
  have hvm : roundEven (v / 2 ^ (-1074 : ℤ)) = m := by
    rw [hvk.nearest_eq hvpos, hm] at hv
    exact_mod_cast mul_right_cancel₀ hpow.ne' hv
  have hscaled : ∀ x : ℚ, x / 2 ^ (-1074 : ℤ) - m = (x - q) / 2 ^ (-1074 : ℤ) := by
    intro x
    rw [sub_div, hm, mul_div_cancel_right₀ _ hpow.ne']
  rw [hpk.nearest_eq hppos, roundEven_of_closer hvm, ← hm]
  rw [hscaled, hscaled, abs_div, abs_div]
  exact div_le_div_of_nonneg_right h (abs_nonneg _)

/-- No whole number is nearer than the nearest. -/
theorem abs_roundEven_sub_le_abs (q : ℚ) (i : ℤ) : |(roundEven q : ℚ) - q| ≤ |(i : ℚ) - q| := by
  by_cases h : |q - i| < 1 / 2
  · rw [roundEven_of_near h]
  · rw [abs_sub_comm (i : ℚ)]
    exact (abs_roundEven_sub_le q).trans (not_lt.mp h)

/-- A multiple of the last digit that reads as the double. -/
theorem HasDigits.exists_multiple (h : HasDigits digits q) (hq : 0 < q) (hdouble : nearest q = q)
    (hdigits : 0 < digits) : ∃ i : ℤ, nearest (i * 10 ^ (digitsBefore q - digits)) = q := by
  obtain ⟨m, hm, e, hv⟩ := h
  obtain ⟨hlo, -⟩ := digitsBefore_spec hq
  rcases le_or_gt ((10 : ℚ) ^ (digitsBefore q - 1)) (m * 10 ^ e) with hge | hlt
  · have hbound : (m : ℚ) * 10 ^ e < 10 ^ (digits + e) := by
      rw [zpow_add₀ (by norm_num), zpow_natCast]
      exact mul_lt_mul_of_pos_right (by exact_mod_cast hm) (pow10_pos e)
    have hexp := pow10_lt_iff.mp (lt_of_le_of_lt hge hbound)
    refine ⟨m * 10 ^ (e - (digitsBefore q - digits)).toNat, (congrArg nearest ?_).trans hv⟩
    push_cast
    rw [mul_assoc, ← zpow_natCast, ← zpow_add₀ (by norm_num)]
    congr 2
    omega
  · -- the decimal lies below the power of ten that the double has reached
    refine ⟨10 ^ (digits - 1), ?_⟩
    have hpower : ((10 ^ (digits - 1) : ℤ) : ℚ) * 10 ^ (digitsBefore q - digits) =
        10 ^ (digitsBefore q - 1) := by
      push_cast
      rw [← zpow_natCast, ← zpow_add₀ (by norm_num)]
      congr 1
      omega
    rw [hpower]
    refine le_antisymm ?_ ?_
    · have := nearest_mono hlo
      rwa [hdouble] at this
    · have := nearest_mono hlt.le
      rwa [hv] at this

/-- A multiple of the last digit that reads as the double is the one that is written, or no nearer
than it. -/
theorem nearest_significant_of_multiple (hq : 0 < q) (hdouble : nearest q = q) (hdigits : digits ≤ 15)
    {i : ℤ} (hi : nearest (i * 10 ^ (digitsBefore q - digits)) = q) :
    nearest (significant digits q) = q := by
  have hpow := pow10_pos (digitsBefore q - digits)
  obtain ⟨k, hk, -⟩ := exists_step hq
  obtain ⟨-, -, hclose⟩ := hk.of_reads hq hi
  have hscaled : ∀ j : ℤ, (j : ℚ) * 10 ^ (digitsBefore q - digits) - q =
      (j - q / 10 ^ (digitsBefore q - digits)) * 10 ^ (digitsBefore q - digits) := by
    intro j
    rw [sub_mul, div_mul_cancel₀ _ hpow.ne']
  rw [significant_of_pos hq]
  rcases hk.le with rfl | hle
  · refine hk.reads_of_closer hq hdouble hi ?_
    rw [hscaled, hscaled, abs_mul, abs_mul]
    exact mul_le_mul_of_nonneg_right (abs_roundEven_sub_le_abs _ i) (abs_nonneg _)
  · -- half of the last digit is more than a step
    obtain ⟨-, hhi⟩ := digitsBefore_spec hq
    have hsplit : (10 : ℚ) ^ digitsBefore q = 10 ^ digits * 10 ^ (digitsBefore q - digits) := by
      rw [← zpow_natCast, ← zpow_add₀ (by norm_num), add_sub_cancel]
    have hten : (10 : ℚ) ^ digits ≤ 10 ^ 15 := pow_le_pow_right₀ (by norm_num) hdigits
    have hbound := mul_le_mul_of_nonneg_right hten hpow.le
    rw [hsplit] at hhi
    have hnear : |q / 10 ^ (digitsBefore q - digits) - i| < 1 / 2 := by
      rw [hscaled, abs_mul, abs_of_pos hpow] at hclose
      rw [abs_sub_comm]
      refine lt_of_mul_lt_mul_right ?_ hpow.le
      linarith
    rw [roundEven_of_near hnear, hi]

/-- **What is written with so many digits reads back** exactly when a decimal of so many digits
reads as the number. -/
theorem nearest_significant_iff (hdouble : nearest q = q) (hdigits : 0 < digits) (hfew : digits ≤ 15) :
    nearest (significant digits q) = q ↔ HasDigits digits |q| := by
  have key : ∀ {q : ℚ}, 0 < q → nearest q = q →
      (nearest (significant digits q) = q ↔ HasDigits digits q) := by
    intro q hq hdouble
    constructor
    · intro h
      obtain ⟨m, hm, e, he⟩ := significant_digits hq hdigits
      exact ⟨m, hm, e, he ▸ h⟩
    · intro h
      obtain ⟨i, hi⟩ := h.exists_multiple hq hdouble hdigits
      exact nearest_significant_of_multiple hq hdouble hfew hi
  rcases lt_trichotomy q 0 with hneg | rfl | hpos
  · have hneg' : nearest (-q) = -q := by rw [nearest_neg, hdouble]
    have h := key (neg_pos.mpr hneg) hneg'
    rw [significant_neg, nearest_neg, neg_inj] at h
    rw [h, abs_of_neg hneg]
  · rw [significant_zero, nearest_zero, abs_zero]
    exact iff_of_true rfl ⟨0, by positivity, 0, by simp⟩
  · rw [key hpos hdouble, abs_of_pos hpos]

end Binary64
