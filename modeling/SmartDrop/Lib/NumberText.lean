/-
# Whole numbers keep their texts

A whole number that is a double is read back from the text that `write` gives for it, however
large it is (`read_write`).  Below `2 ^ 53` the text is the number in full; above, it is the
shortest decimal that reads back, padded with zeros, or in scientific notation from `10 ^ 21`
on.  What makes it work is that seventeen digits tell two doubles apart (`nearest_of_near`,
`withDigits_seventeen`).
-/
import SmartDrop.Lib.JsNumber
import SmartDrop.Lib.Json
import Mathlib.Algebra.Order.Floor.Semifield

namespace Binary64

/-! ## 1. What is near a double -/

/-- A number within a half of a whole one is rounded to it. -/
theorem roundEven_of_near {q : ℚ} {m : ℤ} (h : |q - m| < 1 / 2) : roundEven q = m := by
  obtain ⟨hlo, hhi⟩ := abs_lt.mp h
  unfold roundEven
  rcases le_or_gt (m : ℚ) q with hle | hlt
  · have hfloor : ⌊q⌋ = m := Int.floor_eq_iff.mpr ⟨hle, by linarith⟩
    simp only [hfloor]
    rw [if_pos hhi]
  · have hfloor : ⌊q⌋ = m - 1 :=
      Int.floor_eq_iff.mpr ⟨by push_cast; linarith, by push_cast; linarith⟩
    simp only [hfloor]
    rw [if_neg (by push_cast; linarith), if_pos (by push_cast; linarith)]
    omega

theorem log2_eq {q : ℚ} {e : ℕ} (hlo : 2 ^ e ≤ q) (hhi : q < 2 ^ (e + 1)) : log2 q = e := by
  have hone : (1 : ℚ) ≤ q := le_trans (one_le_pow₀ (by norm_num)) hlo
  have hfloor : Nat.log2 ⌊q⌋₊ = e := by
    have hlo' : 2 ^ e ≤ ⌊q⌋₊ := Nat.le_floor (by push_cast; exact hlo)
    have hhi' : ⌊q⌋₊ < 2 ^ (e + 1) :=
      (Nat.floor_lt (by linarith)).mpr (by push_cast; exact hhi)
    have hpos : ⌊q⌋₊ ≠ 0 := by
      have := Nat.two_pow_pos e
      omega
    exact (Nat.log2_eq_iff hpos).mpr ⟨hlo', hhi'⟩
  rw [log2, if_pos hone, hfloor]

theorem ulp_eq {q : ℚ} {e : ℕ} (hlo : 2 ^ (e + 52) ≤ q) (hhi : q < 2 ^ (e + 53)) :
    ulp q = 2 ^ e := by
  rw [ulp, log2_eq hlo hhi, pow2, if_pos (by omega)]
  have he : (max (((e + 52 : ℕ) : ℤ) - 52) (-1074)).toNat = e := by omega
  rw [he]
  push_cast
  rfl

/-- The double nearest to a number between two powers of two. -/
theorem nearest_eq {q : ℚ} {e : ℕ} (hlo : 2 ^ (e + 52) ≤ q) (hhi : q < 2 ^ (e + 53)) :
    nearest q = roundEven (q / 2 ^ e) * 2 ^ e := by
  have hpos : (0 : ℚ) < q := lt_of_lt_of_le (by positivity) hlo
  rw [nearest, if_neg hpos.ne', if_pos hpos, ulp_eq hlo hhi]

/-- A number that is near enough to a multiple of `2 ^ e` is rounded to it. -/
theorem nearest_of_multiple {x : ℚ} {m : ℤ} {e : ℕ} (hlo : 2 ^ (e + 52) ≤ x)
    (hhi : x < 2 ^ (e + 53)) (hx : |x - m * 2 ^ e| < 2 ^ e / 2) : nearest x = m * 2 ^ e := by
  have hpow : (0 : ℚ) < 2 ^ e := by positivity
  rw [nearest_eq hlo hhi, roundEven_of_near]
  have hdiv : x / 2 ^ e - m = (x - m * 2 ^ e) / 2 ^ e := by field_simp
  rw [hdiv, abs_div, abs_of_pos hpow, div_lt_div_iff₀ hpow (by norm_num)]
  linarith

/-- A double of 54 bits or more is a number of steps of its size. -/
theorem exists_steps {n : ℕ} (hn : 2 ^ 53 ≤ n) (hdouble : nearest n = n) :
    ∃ (e : ℕ) (m : ℤ), (n : ℚ) = m * 2 ^ (e + 1) ∧ 2 ^ 52 ≤ m ∧ m < 2 ^ 53 := by
  have hpos : n ≠ 0 := by
    rintro rfl
    exact absurd hn (by decide)
  have hlog : 53 ≤ n.log2 := (Nat.le_log2 hpos).mpr hn
  obtain ⟨e, he⟩ : ∃ e, n.log2 = e + 53 := ⟨n.log2 - 53, (Nat.sub_add_cancel hlog).symm⟩
  have hlo : (2 : ℚ) ^ (e + 1 + 52) ≤ n := by
    have := Nat.log2_self_le hpos
    rw [he] at this
    exact_mod_cast this
  have hhi : (n : ℚ) < 2 ^ (e + 1 + 53) := by
    have := Nat.lt_log2_self (n := n)
    rw [he] at this
    exact_mod_cast this
  have hm := hdouble.symm.trans (nearest_eq hlo hhi)
  have hpow : (0 : ℚ) < 2 ^ (e + 1) := by positivity
  refine ⟨e, _, hm, ?_, ?_⟩
  · have : (2 ^ 52 : ℚ) ≤ roundEven (n / 2 ^ (e + 1)) := by
      refine le_of_mul_le_mul_right ?_ hpow
      rw [← hm, ← pow_add, add_comm]
      exact hlo
    exact_mod_cast this
  · have : (roundEven (n / 2 ^ (e + 1)) : ℚ) < 2 ^ 53 := by
      refine lt_of_mul_lt_mul_right ?_ hpow.le
      rw [← hm, ← pow_add, add_comm]
      exact hhi
    exact_mod_cast this

/-- **What is near a double is rounded to it**: two neighbours of a double are a part in `2 ^ 53`
away from it. -/
theorem nearest_of_near {n : ℕ} {x : ℚ} (hn : 2 ^ 53 ≤ n) (hdouble : nearest n = n)
    (hx : |x - n| * 2 ^ 54 < n) : nearest x = n := by
  obtain ⟨e, m, hm, hmlo, hmhi⟩ := exists_steps hn hdouble
  have hxn : |x - n| < n / 2 ^ 54 := by
    rw [lt_div_iff₀ (by positivity)]
    exact hx
  obtain ⟨hxlo, hxhi⟩ := abs_lt.mp hxn
  have hpow : (0 : ℚ) < 2 ^ e := by positivity
  have hupper : (n : ℚ) ≤ (2 ^ 53 - 1) * (2 * 2 ^ e) := by
    have : (m : ℚ) ≤ 2 ^ 53 - 1 := by exact_mod_cast Int.le_sub_one_of_lt hmhi
    rw [hm, pow_succ']
    exact mul_le_mul_of_nonneg_right this (by positivity)
  rcases le_or_gt ((2 : ℚ) ^ (e + 1 + 52)) x with hle | hlt
  · rw [hm]
    refine nearest_of_multiple hle ?_ ?_
    · rw [pow_add, pow_succ']
      linarith
    · rw [← hm, pow_succ', abs_lt]
      constructor <;> linarith
  · -- below the double there is a power of two, so it is that power
    have hpower : m = 2 ^ 52 := by
      refine le_antisymm (Int.not_lt.mp fun hgt => ?_) hmlo
      have : ((2 ^ 52 + 1 : ℤ) : ℚ) ≤ m := by exact_mod_cast hgt
      have hlower : (2 ^ 52 + 1) * (2 * 2 ^ e) ≤ (n : ℚ) := by
        rw [hm, pow_succ' 2 e]
        refine mul_le_mul_of_nonneg_right ?_ (by positivity)
        exact_mod_cast this
      rw [pow_add, pow_succ'] at hlt
      linarith
    have heq : (n : ℚ) = ((2 ^ 53 : ℤ) : ℚ) * 2 ^ e := by
      rw [hm, hpower, pow_succ']
      push_cast
      ring
    have heq' : (n : ℚ) = 2 ^ 53 * 2 ^ e := by
      rw [heq]
      push_cast
      rfl
    rw [pow_add, pow_succ'] at hlt
    rw [heq]
    refine nearest_of_multiple ?_ ?_ ?_
    · rw [pow_add]
      linarith
    · rw [pow_add]
      linarith
    · rw [← heq, abs_lt]
      constructor <;> linarith

/-! ## 2. The shortest decimal of a whole number -/

/-- The number of digits of a whole number. -/
def size (n : ℕ) : ℕ := (Nat.toDigits 10 n).length

theorem lt_pow_size (n : ℕ) : n < 10 ^ size n :=
  (Nat.length_toDigits_le_iff (by omega) Nat.length_toDigits_pos).mp le_rfl

theorem pow_le_of_lt_size {n k : ℕ} (hn : 0 < n) (hk : k < size n) : 10 ^ k ≤ n := by
  rcases Nat.eq_zero_or_pos k with rfl | hpos
  · exact hn
  · by_contra hlt
    have := (Nat.length_toDigits_le_iff (by omega) hpos).mpr (Nat.not_le.mp hlt)
    exact absurd hk (Nat.not_lt.mpr this)

theorem size_pos (n : ℕ) : 0 < size n := Nat.length_toDigits_pos

theorem digitsBefore_natCast {n : ℕ} (hn : 0 < n) : digitsBefore n = size n := by
  have hone : (1 : ℚ) ≤ n := by exact_mod_cast hn
  rw [digitsBefore, if_pos hone, Nat.floor_natCast]
  rfl

theorem pow10_natCast (k : ℕ) : pow10 k = 10 ^ k := by
  rw [pow10, if_pos (by omega), Int.toNat_natCast]
  push_cast
  rfl

/-- A decimal whose digits are all there, none of them before the point being cut off. -/
structure Decimal.Whole (d : Decimal) : Prop where
  count_pos : 0 < d.count
  digits_ge : 10 ^ (d.count - 1) ≤ d.digits
  digits_lt : d.digits < 10 ^ d.count
  count_le : (d.count : ℤ) ≤ d.point

theorem Decimal.Whole.value {d : Decimal} (h : d.Whole) :
    d.value = d.digits * 10 ^ (d.point.toNat - d.count) := by
  have hle := h.count_le
  rw [Decimal.value, show d.point - d.count = ((d.point.toNat - d.count : ℕ) : ℤ) by omega,
    pow10_natCast]

/-- A candidate for a number of `size` digits. -/
theorem candidate_whole {j k m : ℕ} (hk : 0 < k) (hkm : k ≤ m) (hlo : 10 ^ (k - 1) ≤ j)
    (hhi : j ≤ 10 ^ k) : (candidate j k m).Whole ∧ (candidate j k m).value = j * 10 ^ (m - k) := by
  unfold candidate
  by_cases hj : j = 10 ^ k
  · rw [if_pos hj]
    have hwhole : (⟨1, 1, (m : ℤ) + 1⟩ : Decimal).Whole := by
      constructor
      · exact Nat.one_pos
      · exact le_rfl
      · exact show 1 < 10 ^ 1 by decide
      · show ((1 : ℕ) : ℤ) ≤ (m : ℤ) + 1
        omega
    refine ⟨hwhole, ?_⟩
    rw [hwhole.value, hj, show ((m : ℤ) + 1).toNat - 1 = k + (m - k) by omega, pow_add]
    push_cast
    ring
  · rw [if_neg hj]
    have hwhole : (⟨j, k, (m : ℤ)⟩ : Decimal).Whole :=
      ⟨hk, hlo, lt_of_le_of_ne hhi hj, Int.ofNat_le.mpr hkm⟩
    refine ⟨hwhole, ?_⟩
    rw [hwhole.value, Int.toNat_natCast]

/-- What is asked of the shortest decimal of a whole number. -/
def IsTextOf (n : ℕ) (d : Decimal) : Prop := d.Whole ∧ nearest d.value = n

/-- The first `k` digits of a number. -/
theorem floor_scaled {n k : ℕ} (hn : 0 < n) (hk : 0 < k) (hkn : k ≤ size n) :
    10 ^ (k - 1) ≤ ⌊(n : ℚ) / pow10 (size n - k)⌋₊ ∧ ⌊(n : ℚ) / pow10 (size n - k)⌋₊ < 10 ^ k := by
  have hpow : pow10 ((size n : ℤ) - k) = ((10 ^ (size n - k) : ℕ) : ℚ) := by
    rw [show (size n : ℤ) - k = ((size n - k : ℕ) : ℤ) by omega, pow10_natCast]
    push_cast
    rfl
  rw [hpow, Nat.floor_div_eq_div]
  constructor
  · refine (Nat.le_div_iff_mul_le (by positivity)).mpr ?_
    rw [← pow_add]
    exact pow_le_of_lt_size hn (by omega)
  · refine (Nat.div_lt_iff_lt_mul (by positivity)).mpr ?_
    rw [← pow_add, Nat.add_sub_cancel' hkn]
    exact lt_pow_size n

theorem withDigits_spec {n k : ℕ} {d : Decimal} (hn : 0 < n) (hk : 0 < k) (hkn : k ≤ size n)
    (h : withDigits n k = some d) : IsTextOf n d := by
  obtain ⟨hlo, hhi⟩ := floor_scaled hn hk hkn
  unfold withDigits at h
  rw [digitsBefore_natCast hn] at h
  dsimp only at h
  generalize ⌊(n : ℚ) / pow10 (size n - k)⌋₊ = j at h hlo hhi
  have hlow := (candidate_whole hk hkn hlo hhi.le).1
  have hhigh := (candidate_whole hk hkn (hlo.trans (Nat.le_succ j)) hhi).1
  split at h
  · rename_i hboth
    split at h
    · obtain rfl := Option.some.inj h
      exact ⟨hlow, hboth.1⟩
    · obtain rfl := Option.some.inj h
      exact ⟨hhigh, hboth.2⟩
  split at h
  · rename_i hreads
    obtain rfl := Option.some.inj h
    exact ⟨hlow, hreads⟩
  split at h
  · rename_i hreads
    obtain rfl := Option.some.inj h
    exact ⟨hhigh, hreads⟩
  · cases h

theorem withDigits_of_low {q : ℚ} {k : ℕ}
    (h : nearest (candidate ⌊q / pow10 (digitsBefore q - k)⌋₊ k (digitsBefore q)).value = q) :
    ∃ d, withDigits q k = some d := by
  unfold withDigits
  dsimp only
  split
  · split <;> exact ⟨_, rfl⟩
  · exact ⟨_, rfl⟩

theorem withDigits_of_high {q : ℚ} {k : ℕ}
    (h : nearest (candidate (⌊q / pow10 (digitsBefore q - k)⌋₊ + 1) k (digitsBefore q)).value = q) :
    ∃ d, withDigits q k = some d := by
  unfold withDigits
  dsimp only
  split
  · split <;> exact ⟨_, rfl⟩
  split
  · exact ⟨_, rfl⟩
  · exact ⟨_, rfl⟩

/-- All digits of a double read back. -/
theorem withDigits_size {n : ℕ} (hn : 0 < n) (hdouble : nearest n = n) :
    ∃ d, withDigits n (size n) = some d := by
  refine withDigits_of_low ?_
  obtain ⟨hlo, hhi⟩ := floor_scaled hn (size_pos n) le_rfl
  rw [digitsBefore_natCast hn, (candidate_whole (size_pos n) le_rfl hlo hhi.le).2, sub_self,
    Nat.sub_self, pow_zero, mul_one, pow10, if_pos le_rfl]
  simpa using hdouble

/-- **Seventeen digits of a double read back.** -/
theorem withDigits_seventeen {n : ℕ} (hsize : 17 < size n) (hdouble : nearest n = n) :
    ∃ d, withDigits n 17 = some d := by
  have hn : 10 ^ 17 ≤ n := pow_le_of_lt_size (Nat.pos_of_ne_zero fun h => by
    rw [h] at hsize
    exact absurd hsize (by decide)) hsize
  have hpos : 0 < n := lt_of_lt_of_le (by norm_num) hn
  obtain ⟨hlo, hhi⟩ := floor_scaled hpos (k := 17) (by norm_num) hsize.le
  have hlow := (candidate_whole (by norm_num) hsize.le hlo hhi.le).2
  have hhigh := (candidate_whole (by norm_num) hsize.le (hlo.trans (Nat.le_succ _)) hhi).2
  -- the unit of the seventeenth digit, and the two multiples of it around the number
  have hpow : pow10 ((size n : ℤ) - (17 : ℕ)) = ((10 ^ (size n - 17) : ℕ) : ℚ) := by
    rw [show (size n : ℤ) - (17 : ℕ) = ((size n - 17 : ℕ) : ℤ) by omega, pow10_natCast]
    push_cast
    rfl
  have hfirst : 10 ^ 16 * 10 ^ (size n - 17) ≤ n := by
    rw [← pow_add, show 16 + (size n - 17) = size n - 1 by omega]
    exact pow_le_of_lt_size hpos (by omega)
  rw [hpow, Nat.floor_div_eq_div] at hlow hhigh
  have hdiv := Nat.div_add_mod n (10 ^ (size n - 17))
  have hmod := Nat.mod_lt n (show 0 < 10 ^ (size n - 17) by positivity)
  set unit := 10 ^ (size n - 17) with hunit
  set j := n / unit with hj
  have hunit' : (10 : ℚ) ^ (size n - 17) = (unit : ℕ) := by
    rw [hunit]
    push_cast
    rfl
  have hfirst' : (10 ^ 16 : ℚ) * unit ≤ n := by exact_mod_cast hfirst
  have hsplit : (unit : ℚ) * j + (n % unit : ℕ) = n := by exact_mod_cast hdiv
  have hmod' : ((n % unit : ℕ) : ℚ) < unit := by exact_mod_cast hmod
  have hmod0 : (0 : ℚ) ≤ (n % unit : ℕ) := Nat.cast_nonneg _
  have hunit0 : (0 : ℚ) < unit := by
    have : 0 < unit := lt_of_le_of_lt (Nat.zero_le _) hmod
    exact_mod_cast this
  have hbig : 2 ^ 53 ≤ n := le_trans (by norm_num) hn
  rcases le_or_gt (2 * ((n % unit : ℕ) : ℚ)) unit with hnear | hnear
  · refine withDigits_of_low ?_
    rw [digitsBefore_natCast hpos, hpow, Nat.floor_div_eq_div, hlow, hunit']
    refine nearest_of_near hbig hdouble ?_
    rw [show (j : ℚ) * unit - n = -(n % unit : ℕ) by linarith, abs_neg, abs_of_nonneg hmod0]
    linarith
  · refine withDigits_of_high ?_
    rw [digitsBefore_natCast hpos, hpow, Nat.floor_div_eq_div, hhigh, hunit']
    refine nearest_of_near hbig hdouble ?_
    push_cast
    rw [show ((j : ℚ) + 1) * unit - n = unit - (n % unit : ℕ) by linarith, abs_of_nonneg (by linarith)]
    linarith

/-- The search stops at a number of digits that reads back. -/
theorem shortestFrom_spec {q : ℚ} {d : Decimal} {fuel k j : ℕ} (hj : j < fuel)
    (h : withDigits q (k + j) = some d) :
    ∃ i ≤ j, withDigits q (k + i) = some (shortestFrom q fuel k) := by
  induction fuel generalizing k j with
  | zero => exact absurd hj (Nat.not_lt_zero _)
  | succ fuel ih =>
    unfold shortestFrom
    cases hk : withDigits q k with
    | some d' => exact ⟨0, Nat.zero_le _, hk⟩
    | none =>
      cases j with
      | zero =>
        rw [Nat.add_zero, hk] at h
        cases h
      | succ j =>
        rw [← Nat.add_assoc, Nat.add_right_comm] at h
        obtain ⟨i, hi, hw⟩ := ih (Nat.lt_of_succ_lt_succ hj) h
        refine ⟨i + 1, Nat.succ_le_succ hi, ?_⟩
        rw [← Nat.add_assoc, Nat.add_right_comm]
        exact hw

/-- **The shortest decimal of a double** that is a whole number reads back, and its digits end
before the point. -/
theorem shortest_isTextOf {n : ℕ} (hn : 0 < n) (hdouble : nearest n = n) :
    IsTextOf n (shortest n) := by
  obtain ⟨j, d, hj, hjn, hd⟩ : ∃ j d, j < 17 ∧ 1 + j ≤ size n ∧ withDigits n (1 + j) = some d := by
    rcases Nat.lt_or_ge 17 (size n) with hlarge | hsmall
    · obtain ⟨d, hd⟩ := withDigits_seventeen hlarge hdouble
      exact ⟨16, d, by norm_num, hlarge.le, hd⟩
    · obtain ⟨d, hd⟩ := withDigits_size hn hdouble
      have hpos := size_pos n
      refine ⟨size n - 1, d, by omega, by omega, ?_⟩
      rwa [Nat.add_sub_cancel' hpos]
  obtain ⟨i, hi, hw⟩ := shortestFrom_spec hj hd
  exact withDigits_spec hn (by omega) (by omega) hw

/-! ## 3. The largest double -/

theorem floor_le_roundEven (q : ℚ) : ⌊q⌋ ≤ roundEven q := by
  unfold roundEven
  dsimp only
  split_ifs <;> omega

/-- Half way to an even number the rounding goes up. -/
theorem le_roundEven_of_half {q : ℚ} {m : ℤ} (heven : m % 2 = 0) (h : m - 1 / 2 ≤ q) :
    m ≤ roundEven q := by
  rcases le_or_gt (m : ℚ) q with hle | hlt
  · exact (Int.le_floor.mpr hle).trans (floor_le_roundEven q)
  · have hfloor : ⌊q⌋ = m - 1 :=
      Int.floor_eq_iff.mpr ⟨by push_cast; linarith, by push_cast; linarith⟩
    unfold roundEven
    simp only [hfloor]
    rw [if_neg (by push_cast; linarith)]
    split_ifs <;> omega

/-- A positive number from `2 ^ 52` on lies between two powers of two. -/
theorem exists_binade {q : ℚ} (hq : 2 ^ 52 ≤ q) :
    ∃ e : ℕ, 2 ^ (e + 52) ≤ q ∧ q < 2 ^ (e + 53) := by
  have hfloor : 2 ^ 52 ≤ ⌊q⌋₊ := Nat.le_floor (by push_cast; exact hq)
  have hpos : ⌊q⌋₊ ≠ 0 := by
    intro h
    rw [h] at hfloor
    exact absurd hfloor (by decide)
  have hq0 : 0 ≤ q := le_trans (by positivity) hq
  have hlog : 52 ≤ Nat.log2 ⌊q⌋₊ := (Nat.le_log2 hpos).mpr hfloor
  obtain ⟨e, he⟩ : ∃ e, Nat.log2 ⌊q⌋₊ = e + 52 :=
    ⟨Nat.log2 ⌊q⌋₊ - 52, (Nat.sub_add_cancel hlog).symm⟩
  refine ⟨e, ?_, ?_⟩
  · have hle : 2 ^ (e + 52) ≤ ⌊q⌋₊ := he ▸ Nat.log2_self_le hpos
    exact le_trans (by exact_mod_cast hle) (Nat.floor_le hq0)
  · have hlt : ⌊q⌋₊ < 2 ^ (e + 53) := by
      have := Nat.lt_log2_self (n := ⌊q⌋₊)
      rwa [he] at this
    have := (Nat.floor_lt hq0).mp hlt
    exact_mod_cast this

/-- What is too large is not rounded to less. -/
theorem overflow_le_nearest {q : ℚ} (hq : JsNumber.overflow ≤ q) :
    JsNumber.overflow ≤ nearest q := by
  obtain ⟨unit, hunit⟩ : ∃ unit : ℚ, unit = 2 ^ 970 := ⟨_, rfl⟩
  have hone : 1 ≤ unit := by
    rw [hunit]
    exact one_le_pow₀ (by norm_num)
  unfold JsNumber.overflow at hq ⊢
  rw [← hunit] at hq ⊢
  obtain ⟨e, hlo, hhi⟩ := exists_binade (q := q) (by linarith only [hq, hone])
  have hpow : (0 : ℚ) < 2 ^ e := by positivity
  rw [nearest_eq hlo hhi]
  rw [pow_add] at hlo hhi
  rcases Nat.lt_trichotomy e 971 with hlt | he | hgt
  · exfalso
    have hle : (2 : ℚ) ^ e ≤ unit := by
      rw [hunit]
      exact pow_le_pow_right₀ (by norm_num) (by omega)
    linarith only [hq, hhi, hle, hone]
  · have htwo : (2 : ℚ) ^ e = 2 * unit := by rw [he, hunit, ← pow_succ']
    rw [htwo] at hpow ⊢
    have hround : (2 ^ 53 : ℤ) ≤ roundEven (q / (2 * unit)) := by
      refine le_roundEven_of_half (by decide) ?_
      rw [le_div_iff₀ hpow]
      push_cast
      linarith only [hq]
    have hround' : (2 ^ 53 : ℚ) ≤ roundEven (q / (2 * unit)) := by exact_mod_cast hround
    refine le_trans ?_ (mul_le_mul_of_nonneg_right hround' hpow.le)
    linarith only [hone]
  · have hle : 4 * unit ≤ (2 : ℚ) ^ e := by
      rw [hunit, show (4 : ℚ) = 2 ^ 2 by norm_num, ← pow_add]
      exact pow_le_pow_right₀ (by norm_num) (by omega)
    have hfloor : (2 ^ 52 : ℤ) ≤ ⌊q / 2 ^ e⌋ := by
      refine Int.le_floor.mpr ((le_div_iff₀ hpow).mpr ?_)
      push_cast
      linarith only [hlo]
    have hround : (2 ^ 52 : ℚ) ≤ roundEven (q / 2 ^ e) := by
      exact_mod_cast hfloor.trans (floor_le_roundEven _)
    refine le_trans ?_ (mul_le_mul_of_nonneg_right hround hpow.le)
    linarith only [hle, hone]

end Binary64

namespace JsNumber

open Binary64

/-! ## 4. Texts of whole numbers -/

/-- The language has this whole number: it is a double, and not too large. -/
def IsWhole (n : ℕ) : Prop := ofRat n = .finite n

instance (n : ℕ) : Decidable (IsWhole n) := by
  unfold IsWhole
  infer_instance

theorem isWhole_iff {n : ℕ} : IsWhole n ↔ (n : ℚ) < overflow ∧ nearest n = n := by
  unfold IsWhole ofRat
  rw [Nat.abs_cast]
  by_cases h : overflow ≤ (n : ℚ)
  · simp [h, not_lt.mpr h]
  · simp [h, not_le.mp h]

/-- A text that reads as a number in the language and in JSON: a literal without a sign. -/
structure NumberText (cs : List Char) (q : ℚ) : Prop where
  numeric : ∀ c ∈ cs, JsonText.isNumeric c = true
  unsigned : JsonText.isUnsigned cs = true
  plain : readUnsigned cs = ofLiteral false cs
  reads : readDecimal cs = some q

theorem isSpace_of_isNumeric {c : Char} (h : JsonText.isNumeric c = true) :
    JsText.isSpace c = false := by
  simp only [JsonText.isNumeric, Bool.or_eq_true, beq_iff_eq] at h
  rcases h with ((((hd | rfl) | rfl) | rfl) | rfl) | rfl
  · exact isSpace_of_isDigit hd
  all_goals decide

/-- The first character of an unsigned literal is a digit. -/
theorem NumberText.head {cs : List Char} {q : ℚ} (h : NumberText cs q) :
    ∃ c r, cs = c :: r ∧ JsText.isDigit c = true := by
  have hu := h.unsigned
  unfold JsonText.isUnsigned at hu
  split at hu
  · exact ⟨_, _, rfl, by decide⟩
  · exact ⟨_, _, rfl, (Bool.and_eq_true_iff.mp hu).1⟩
  · cases hu

/-- **`Number(text)`** of such a text. -/
theorem NumberText.read {cs : List Char} {q : ℚ} (h : NumberText cs q) : read cs = ofRat q := by
  obtain ⟨c, r, rfl, hc⟩ := h.head
  have htrim : (JsText.trim (String.ofList (c :: r))).toList = c :: r :=
    JsText.trim_noSpace fun d hd => isSpace_of_isNumeric (h.numeric d hd)
  have hword : c :: r ≠ "Infinity".toList := by
    intro heq
    obtain rfl : c = 'I' := (List.cons.inj heq).1
    cases hc
  unfold JsNumber.read
  rw [htrim]
  split
  · rename_i heq
    cases heq
  · rename_i heq
    obtain rfl := (List.cons.inj heq).1
    cases hc
  · rename_i heq
    obtain rfl := (List.cons.inj heq).1
    cases hc
  · rw [h.plain, ofLiteral, if_neg hword, h.reads]
    rfl

/-- Such a text is a number in JSON. -/
theorem NumberText.literal {cs : List Char} {q : ℚ} (h : NumberText cs q) :
    JsonText.isLiteral cs = true := by
  obtain ⟨c, r, rfl, hc⟩ := h.head
  have hminus : c ≠ '-' := by
    rintro rfl
    cases hc
  have hall : (c :: r).all JsonText.isNumeric = true := List.all_eq_true.mpr h.numeric
  have hlit : JsonText.isLiteral (c :: r) =
      ((c :: r).all JsonText.isNumeric && JsonText.isUnsigned (c :: r)) := by
    rw [JsonText.isLiteral]
    exact fun _ h => hminus (List.cons.inj h).1
  rw [hlit, hall, h.unsigned]
  rfl

/-- A number in full. -/
theorem numberText_toDigits (n : ℕ) : NumberText (Nat.toDigits 10 n) n := by
  have hall : ∀ c ∈ Nat.toDigits 10 n, JsText.isDigit c := fun c => isDigit_of_mem_toDigits
  constructor
  · intro c hc
    have hd : JsonText.isDigit c = true := hall c hc
    simp [JsonText.isNumeric, hd]
  · have hlit := JsonText.isLiteral_toDigits n
    unfold JsonText.isLiteral at hlit
    split at hlit
    · rename_i heq
      exact absurd (hall '-' (heq ▸ List.mem_cons_self)) (by decide)
    · exact (Bool.and_eq_true_iff.mp hlit).2
  · exact readUnsigned_digits hall
  · rw [readDecimal_digits Nat.toDigits_ne_nil hall, Nat.ofDigitChars_ten_toDigits]

/-- Zeros at the end are factors of ten. -/
theorem toDigits_mul_pow {n : ℕ} (hn : 0 < n) (k : ℕ) :
    Nat.toDigits 10 (n * 10 ^ k) = Nat.toDigits 10 n ++ List.replicate k '0' := by
  induction k with
  | zero => simp
  | succ k ih =>
    have hpos : 0 < n * 10 ^ k := by positivity
    rw [List.replicate_succ', ← List.append_assoc, ← ih, pow_succ]
    have happend := Nat.toDigits_append_toDigits (b := 10) (by omega) hpos (show 0 < 10 by omega)
    rw [Nat.toDigits_zero, Nat.add_zero] at happend
    rw [happend, Nat.mul_comm 10, Nat.mul_assoc]

/-- Digits and an exponent that is not negative, as in `1.5e+21`. -/
def scientific (ds : List Char) (e : ℕ) : List Char :=
  (if ds.length = 1 then ds else ds.take 1 ++ '.' :: ds.drop 1) ++ 'e' :: '+' :: Nat.toDigits 10 e

theorem digitValue_of_isDigit {c : Char} (h : JsText.isDigit c = true) :
    digitValue c = c.toNat - 48 := by
  rw [digitValue, if_pos h]

/-- The exponent is read back. -/
theorem readBase_toDigits (e : ℕ) : readBase 10 (Nat.toDigits 10 e) = some e := by
  have hall : ∀ c ∈ Nat.toDigits 10 e, JsText.isDigit c := fun c => isDigit_of_mem_toDigits
  have hsmall : ((Nat.toDigits 10 e).any fun c => 10 ≤ digitValue c) = false := by
    refine List.any_eq_false.mpr fun c hc => ?_
    have hd := hall c hc
    rw [digitValue_of_isDigit hd]
    simp only [JsText.isDigit, Bool.and_eq_true, decide_eq_true_eq] at hd
    have : c.toNat ≤ 57 := hd.2
    simp only [decide_eq_true_eq]
    omega
  have hfold : (Nat.toDigits 10 e).foldl (fun n c => n * 10 + digitValue c) 0 = e := by
    refine Eq.trans ?_ (Nat.ofDigitChars_ten_toDigits (n := e))
    rw [Nat.ofDigitChars_eq_foldl]
    refine List.foldl_ext _ _ _ fun n c hc => ?_
    rw [digitValue_of_isDigit (hall c hc), Nat.mul_comm]
    rfl
  rw [readBase, hsmall, Bool.or_false, List.isEmpty_eq_false_iff.mpr Nat.toDigits_ne_nil,
    if_neg (by decide), hfold]

theorem readExponent_plus (e : ℕ) :
    readExponent ('e' :: '+' :: Nat.toDigits 10 e) = some (e : ℤ) := by
  simp [readExponent, readBase_toDigits]

/-- What follows the mantissa. -/
def exponent (e : ℕ) : List Char := 'e' :: '+' :: Nat.toDigits 10 e

theorem isNumeric_of_isDigit {c : Char} (h : JsText.isDigit c = true) :
    JsonText.isNumeric c = true := by
  have hd : JsonText.isDigit c = true := h
  simp [JsonText.isNumeric, hd]

theorem isNumeric_exponent {e : ℕ} {c : Char} (h : c ∈ exponent e) :
    JsonText.isNumeric c = true := by
  rcases List.mem_cons.mp h with rfl | h
  · decide
  rcases List.mem_cons.mp h with rfl | h
  · decide
  · exact isNumeric_of_isDigit (isDigit_of_mem_toDigits h)

theorem isExponent_digits (e : ℕ) : JsonText.isExponent ('+' :: Nat.toDigits 10 e) = true := by
  have hne : (Nat.toDigits 10 e).isEmpty = false :=
    List.isEmpty_eq_false_iff.mpr Nat.toDigits_ne_nil
  have hds : (Nat.toDigits 10 e).all JsonText.isDigit = true :=
    List.all_eq_true.mpr fun c hc => isDigit_of_mem_toDigits hc
  simp [JsonText.isExponent, JsonText.isDigits, hne, hds]

variable {c : Char} (hc : JsText.isDigit c = true) (hzero : c ≠ '0') (e : ℕ)

include hc hzero

/-- One digit and an exponent. -/
theorem numberText_short :
    NumberText (c :: exponent e) (Nat.ofDigitChars 10 [c] 0 * pow10 e) := by
  have hc' : JsonText.isDigit c = true := hc
  constructor
  · intro d hd
    rcases List.mem_cons.mp hd with rfl | hd
    · exact isNumeric_of_isDigit hc
    · exact isNumeric_exponent hd
  · have hfrac : JsonText.isFractionExponent (exponent e) = true := isExponent_digits e
    unfold JsonText.isUnsigned
    split
    · rename_i heq
      exact absurd (List.cons.inj heq).1 hzero
    · rename_i heq
      obtain ⟨rfl, rfl⟩ := List.cons.inj heq
      rw [hc', exponent, List.dropWhile_cons_of_neg (by decide)]
      exact hfrac
    · rename_i heq
      cases heq
  · unfold readUnsigned
    split
    · rename_i heq
      exact absurd (List.cons.inj heq).1 hzero
    · rfl
  · unfold readDecimal
    dsimp only
    rw [exponent, List.takeWhile_cons_of_pos hc, List.takeWhile_cons_of_neg (by decide),
      List.dropWhile_cons_of_pos hc, List.dropWhile_cons_of_neg (by decide)]
    simp [readExponent_plus]

/-- Several digits, with a point after the first, and an exponent. -/
theorem numberText_long {ds : List Char} (hds : ∀ d ∈ ds, JsText.isDigit d = true)
    (hne : ds ≠ []) : NumberText (c :: '.' :: (ds ++ exponent e))
      (Nat.ofDigitChars 10 (c :: ds) 0 * pow10 (e - ds.length)) := by
  have hc' : JsonText.isDigit c = true := hc
  have htake : (ds ++ exponent e).takeWhile JsText.isDigit = ds := by
    rw [List.takeWhile_append_of_pos hds, exponent, List.takeWhile_cons_of_neg (by decide),
      List.append_nil]
  have hdrop : (ds ++ exponent e).dropWhile JsText.isDigit = exponent e := by
    rw [List.dropWhile_append_of_pos hds, exponent, List.dropWhile_cons_of_neg (by decide)]
  have hempty : ds.isEmpty = false := List.isEmpty_eq_false_iff.mpr hne
  constructor
  · intro d hd
    rcases List.mem_cons.mp hd with rfl | hd
    · exact isNumeric_of_isDigit hc
    rcases List.mem_cons.mp hd with rfl | hd
    · decide
    rcases List.mem_append.mp hd with hd | hd
    · exact isNumeric_of_isDigit (hds d hd)
    · exact isNumeric_exponent hd
  · have hfrac : JsonText.isFractionExponent ('.' :: (ds ++ exponent e)) = true := by
      have htake' : (ds ++ exponent e).takeWhile JsonText.isDigit = ds := htake
      have hdrop' : (ds ++ exponent e).dropWhile JsonText.isDigit = exponent e := hdrop
      simp only [JsonText.isFractionExponent, htake', hdrop', hempty]
      exact isExponent_digits e
    unfold JsonText.isUnsigned
    split
    · rename_i heq
      exact absurd (List.cons.inj heq).1 hzero
    · rename_i heq
      obtain ⟨rfl, rfl⟩ := List.cons.inj heq
      rw [hc', List.dropWhile_cons_of_neg (by decide)]
      exact hfrac
    · rename_i heq
      cases heq
  · unfold readUnsigned
    split
    · rename_i heq
      exact absurd (List.cons.inj heq).1 hzero
    · rfl
  · unfold readDecimal
    dsimp only
    rw [List.takeWhile_cons_of_pos hc, List.takeWhile_cons_of_neg (by decide),
      List.dropWhile_cons_of_pos hc, List.dropWhile_cons_of_neg (by decide)]
    simp only [htake, hdrop]
    simp [exponent, readExponent_plus]

omit hc hzero

/-! ## 5. What is written is read back -/

theorem size_eq {n k : ℕ} (hlo : 10 ^ (k - 1) ≤ n) (hhi : n < 10 ^ k) (hk : 0 < k) :
    size n = k := by
  have hn : 0 < n := lt_of_lt_of_le (by positivity) hlo
  have hle : size n ≤ k := (Nat.length_toDigits_le_iff (by omega) hk).mpr hhi
  refine le_antisymm hle (Nat.not_lt.mp fun hlt => ?_)
  have hlt' : n < 10 ^ (k - 1) := lt_of_lt_of_le (lt_pow_size n)
    (Nat.pow_le_pow_right (by norm_num) (Nat.le_sub_one_of_lt hlt))
  exact absurd hlo (Nat.not_le.mpr hlt')

/-- **The text of a decimal** whose digits end before the point. -/
theorem positiveText_numberText {q : ℚ} (h : (shortest q).Whole) :
    NumberText (positiveText q) (shortest q).value := by
  have hpoint := h.count_le
  have hcount := h.count_pos
  have hpos : 0 < (shortest q).digits := lt_of_lt_of_le (by positivity) h.digits_ge
  have hsize := size_eq h.digits_ge h.digits_lt hcount
  unfold positiveText
  dsimp only
  by_cases hshort : (shortest q).point ≤ 21
  · rw [if_pos ⟨hpoint, hshort⟩, h.value, ← toDigits_mul_pow hpos]
    have htext := numberText_toDigits ((shortest q).digits *
      10 ^ ((shortest q).point.toNat - (shortest q).count))
    push_cast at htext
    exact htext
  · rw [if_neg fun hboth => hshort hboth.2, if_neg fun hboth => hshort hboth.2,
      if_neg (by omega)]
    obtain ⟨e, he⟩ : ∃ e : ℕ, (shortest q).point = e + 1 :=
      ⟨((shortest q).point - 1).toNat, by omega⟩
    have hexp : (shortest q).point - 1 = e := by omega
    rw [hexp, Int.natAbs_natCast, if_neg (show ¬ (e : ℤ) < 0 by omega)]
    obtain ⟨c, r, hcr, hzero⟩ := JsonText.toDigits_head hpos
    have hall : ∀ d ∈ c :: r, JsText.isDigit d = true := by
      intro d hd
      rw [← hcr] at hd
      exact isDigit_of_mem_toDigits hd
    have hvalue : Nat.ofDigitChars 10 (c :: r) 0 = (shortest q).digits := by
      rw [← hcr, Nat.ofDigitChars_ten_toDigits]
    have hlength : (shortest q).count = r.length + 1 := by
      rw [← hsize, size, hcr, List.length_cons]
    have hmove : (shortest q).value =
        Nat.ofDigitChars 10 (c :: r) 0 * pow10 (e - r.length) := by
      rw [hvalue, Decimal.value, he, hlength]
      congr 2
      push_cast
      omega
    rw [hmove, hcr]
    cases r with
    | nil =>
      rw [if_pos (by rw [hlength]; rfl)]
      have htext := numberText_short (hall c List.mem_cons_self) hzero e
      simpa [exponent] using htext
    | cons a r =>
      rw [if_neg (by rw [hlength, List.length_cons]; omega)]
      have htext := numberText_long (hall c List.mem_cons_self) hzero e
        (fun d hd => hall d (List.mem_cons_of_mem c hd)) (List.cons_ne_nil a r)
      simpa [exponent] using htext

/-- **The text of a whole number** that the language has. -/
theorem write_numberText {n : ℕ} (h : IsWhole n) :
    ∃ q, NumberText (write (.finite n)) q ∧ ofRat q = .finite n := by
  obtain ⟨hlt, hdouble⟩ := isWhole_iff.mp h
  rcases Nat.lt_or_ge n (2 ^ 53) with hsmall | hlarge
  · rw [write_natCast hsmall]
    exact ⟨n, numberText_toDigits n, h⟩
  · have hn : 0 < n := lt_of_lt_of_le (by norm_num) hlarge
    obtain ⟨hwhole, hreads⟩ := shortest_isTextOf hn hdouble
    refine ⟨(shortest n).value, ?_, ?_⟩
    · have hbig : ¬ ((n : ℚ).den = 1 ∧ 0 ≤ (n : ℚ).num ∧ (n : ℚ).num < 2 ^ 53) := by
        rintro ⟨-, -, hnum⟩
        rw [Rat.num_natCast] at hnum
        omega
      have hpos : (0 : ℚ) < n := by exact_mod_cast hn
      rw [write, if_neg hbig, text, if_neg hpos.ne', if_pos hpos]
      exact positiveText_numberText hwhole
    · have hpos : 0 ≤ (shortest n).value := by
        rw [hwhole.value]
        positivity
      have hfinite : ¬ overflow ≤ |(shortest n).value| := by
        rw [abs_of_nonneg hpos]
        intro hle
        have := overflow_le_nearest hle
        rw [hreads] at this
        exact absurd hlt (not_lt.mpr this)
      rw [ofRat, if_neg hfinite, hreads]

/-- **Round trip**: a whole number is read back from its text. -/
theorem read_write {n : ℕ} (h : IsWhole n) : read (write (.finite n)) = .finite n := by
  obtain ⟨q, htext, hq⟩ := write_numberText h
  rw [htext.read, hq]

/-- The text of a whole number is a number in JSON. -/
theorem isLiteral_write {n : ℕ} (h : IsWhole n) :
    JsonText.isLiteral (write (.finite n)) = true := by
  obtain ⟨q, htext, -⟩ := write_numberText h
  exact htext.literal

end JsNumber
