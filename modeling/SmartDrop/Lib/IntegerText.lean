/-
# Rounded integers keep their texts

An integer is rounded to an integer (`ofRat_intCast`), and a double that is an integer is read back
from its text, below zero as well as above (`read_write_int`).  Its text is a number in JSON
(`isLiteral_write_int`).
-/
import SmartDrop.Lib.NumberText

namespace Binary64

/-! ## 1. Rounding a whole number -/

theorem roundEven_le {q : ℚ} {m : ℤ} (h : q < m - 1 / 2) : roundEven q ≤ m - 1 := by
  have hfloor : ⌊q⌋ < m := Int.floor_lt.mpr (by linarith)
  unfold roundEven
  dsimp only
  by_cases hlast : ⌊q⌋ = m - 1
  · -- the last step before `m` is not rounded up
    have hcast : ((⌊q⌋ : ℤ) : ℚ) = m - 1 := by
      rw [hlast]
      push_cast
      rfl
    rw [if_pos (by rw [hcast]; linarith), hlast]
  · split_ifs <;> omega

theorem roundEven_le_of_lt {q : ℚ} {m : ℤ} (h : q < m) : roundEven q ≤ m := by
  have hfloor : ⌊q⌋ < m := Int.floor_lt.mpr h
  unfold roundEven
  dsimp only
  split_ifs <;> omega

/-- A whole number from `2 ^ 53` on is rounded to a number of steps of its size. -/
theorem nearest_steps {n : ℕ} (hn : 2 ^ 53 ≤ n) :
    ∃ (e : ℕ) (r : ℤ), (n : ℚ) < 2 ^ (e + 53) ∧ 2 ^ (e + 52) ≤ (n : ℚ) ∧
      nearest n = r * 2 ^ e ∧ r = roundEven (n / 2 ^ e) ∧ 2 ^ 52 ≤ r ∧ r ≤ 2 ^ 53 := by
  have hn' : (2 ^ 52 : ℚ) ≤ n := by
    have : (2 ^ 52 : ℕ) ≤ n := le_trans (by norm_num) hn
    exact_mod_cast this
  obtain ⟨e, hlo, hhi⟩ := exists_binade hn'
  have hpow : (0 : ℚ) < 2 ^ e := by positivity
  refine ⟨e, _, hhi, hlo, nearest_eq hlo hhi, rfl, ?_, ?_⟩
  · refine le_trans (Int.le_floor.mpr ?_) (floor_le_roundEven _)
    rw [pow_add] at hlo
    rw [le_div_iff₀ hpow]
    push_cast
    linarith only [hlo]
  · refine roundEven_le_of_lt ?_
    rw [pow_add] at hhi
    rw [div_lt_iff₀ hpow]
    push_cast
    linarith only [hhi]

/-- **Rounding twice is rounding once**, and a whole number is rounded to a whole number. -/
theorem nearest_whole (n : ℕ) : ∃ k : ℕ, nearest n = k ∧ nearest k = k := by
  rcases Nat.lt_or_ge n (2 ^ 53) with hsmall | hlarge
  · exact ⟨n, JsNumber.nearest_natCast hsmall, JsNumber.nearest_natCast hsmall⟩
  · obtain ⟨e, r, -, -, hnear, -, hrlo, hrhi⟩ := nearest_steps hlarge
    obtain ⟨r, rfl⟩ := Int.eq_ofNat_of_zero_le (le_trans (by norm_num) hrlo)
    refine ⟨r * 2 ^ e, by rw [hnear]; push_cast; rfl, ?_⟩
    have hpow : (0 : ℚ) < 2 ^ e := by positivity
    have hrlo : (2 ^ 52 : ℚ) ≤ r := by exact_mod_cast hrlo
    push_cast
    rcases Int.lt_or_eq_of_le hrhi with hlt | heq
    · have hlt : (r : ℚ) < 2 ^ 53 := by exact_mod_cast hlt
      have hmul := nearest_of_multiple (x := r * 2 ^ e) (m := r) (e := e) ?_ ?_ ?_
      · simpa using hmul
      · rw [pow_add, mul_comm]
        exact mul_le_mul_of_nonneg_right hrlo hpow.le
      · rw [pow_add, mul_comm (2 ^ e)]
        exact mul_lt_mul_of_pos_right hlt hpow
      · simp only [Int.cast_natCast, sub_self, abs_zero]
        positivity
    · -- rounded up to a power of two
      have heq : (r : ℚ) = 2 ^ 53 := by exact_mod_cast heq
      have hval : (r : ℚ) * 2 ^ e = ((2 ^ 52 : ℤ) : ℚ) * 2 ^ (e + 1) := by
        rw [heq, pow_succ (2 : ℚ) e]
        push_cast
        ring
      rw [hval]
      refine nearest_of_multiple ?_ ?_ ?_
      · rw [pow_add]
        push_cast
        linarith only
      · rw [pow_add _ (e + 1)]
        push_cast
        linarith only [show (0 : ℚ) < 2 ^ (e + 1) by positivity]
      · rw [sub_self, abs_zero]
        positivity

/-- What is not too large is not rounded to what is. -/
theorem nearest_lt_overflow {n : ℕ} (hn : (n : ℚ) < JsNumber.overflow) :
    nearest n < JsNumber.overflow := by
  rcases Nat.lt_or_ge n (2 ^ 53) with hsmall | hlarge
  · rwa [JsNumber.nearest_natCast hsmall]
  obtain ⟨unit, hunit⟩ : ∃ unit : ℚ, unit = 2 ^ 970 := ⟨_, rfl⟩
  have hone : 1 ≤ unit := by
    rw [hunit]
    exact one_le_pow₀ (by norm_num)
  obtain ⟨e, r, hhi, hlo, hnear, hr, -, hrhi⟩ := nearest_steps hlarge
  have hpow : (0 : ℚ) < 2 ^ e := by positivity
  unfold JsNumber.overflow at hn ⊢
  rw [hnear]
  rw [← hunit] at hn ⊢
  rw [pow_add] at hlo
  have hrhi' : (r : ℚ) ≤ 2 ^ 53 := by exact_mod_cast hrhi
  rcases Nat.lt_trichotomy e 971 with hlt | he | hgt
  · have hle : (2 : ℚ) ^ e ≤ unit := by
      rw [hunit]
      exact pow_le_pow_right₀ (by norm_num) (by omega)
    have hmul : (r : ℚ) * 2 ^ e ≤ 2 ^ 53 * unit :=
      le_trans (mul_le_mul_of_nonneg_right hrhi' hpow.le)
        (mul_le_mul_of_nonneg_left hle (by norm_num))
    linarith only [hmul, hone]
  · -- the last doubles
    have htwo : (2 : ℚ) ^ e = 2 * unit := by rw [he, hunit, ← pow_succ']
    have hround : r ≤ 2 ^ 53 - 1 := by
      rw [hr]
      refine roundEven_le ?_
      rw [div_lt_iff₀ hpow, htwo]
      push_cast
      linarith only [hn]
    have hround' : (r : ℚ) ≤ 2 ^ 53 - 1 := by exact_mod_cast hround
    have hmul := mul_le_mul_of_nonneg_right hround' hpow.le
    rw [htwo] at hmul ⊢
    linarith only [hmul, hone]
  · exfalso
    have hle : 4 * unit ≤ (2 : ℚ) ^ e := by
      rw [hunit, show (4 : ℚ) = 2 ^ 2 by norm_num, ← pow_add]
      exact pow_le_pow_right₀ (by norm_num) (by omega)
    linarith only [hlo, hn, hle, hone]

theorem nearest_neg (q : ℚ) : nearest (-q) = -nearest q := by
  unfold nearest
  rcases lt_trichotomy q 0 with hneg | rfl | hpos
  · have hpos : 0 < -q := neg_pos.mpr hneg
    rw [if_neg hpos.ne', if_pos hpos, if_neg hneg.ne, if_neg hneg.not_gt, neg_neg]
  · simp
  · have hneg : -q < 0 := neg_neg_iff_pos.mpr hpos
    rw [if_neg hneg.ne, if_neg hneg.not_gt, if_neg hpos.ne', if_pos hpos, neg_neg]

end Binary64

namespace JsNumber

open Binary64

/-! ## 2. Texts -/

/-- An integer of the language: a whole number, or one below zero. -/
def IsInteger (q : ℚ) : Prop := ∃ n : ℕ, IsWhole n ∧ (q = n ∨ q = -n)

theorem ofRat_natCast_finite {n : ℕ} {q : ℚ} (h : ofRat n = .finite q) :
    ∃ k : ℕ, IsWhole k ∧ q = k := by
  unfold ofRat at h
  split at h
  · cases h
  · rename_i hlt
    rw [not_le, Nat.abs_cast] at hlt
    obtain rfl := Number.finite.inj h
    obtain ⟨k, hk, hdouble⟩ := nearest_whole n
    exact ⟨k, isWhole_iff.mpr ⟨hk ▸ nearest_lt_overflow hlt, hdouble⟩, hk⟩

theorem ofRat_neg {p q : ℚ} (h : ofRat (-p) = .finite q) : ofRat p = .finite (-q) := by
  unfold ofRat at h ⊢
  rw [abs_neg] at h
  split at h
  · cases h
  · rename_i hlt
    rw [if_neg hlt, ← Number.finite.inj h, nearest_neg, neg_neg]

/-- **An integer is rounded to an integer.** -/
theorem ofRat_intCast {m : ℤ} {q : ℚ} (h : ofRat m = .finite q) : IsInteger q := by
  obtain ⟨n, rfl | rfl⟩ := Int.eq_nat_or_neg m
  · obtain ⟨k, hk, hq⟩ := ofRat_natCast_finite (by simpa using h)
    exact ⟨k, hk, .inl hq⟩
  · have hneg : ofRat (-(n : ℚ)) = .finite q := by simpa using h
    obtain ⟨k, hk, hq⟩ := ofRat_natCast_finite (ofRat_neg hneg)
    exact ⟨k, hk, .inr (by rw [← hq, neg_neg])⟩

/-- The text of a number below zero. -/
theorem write_neg {n : ℕ} (hn : 0 < n) : write (.finite (-n)) = '-' :: positiveText n := by
  have hpos : (0 : ℚ) < n := by exact_mod_cast hn
  have hneg : -(n : ℚ) < 0 := by linarith
  have hnum : ¬ (0 : ℤ) ≤ (-(n : ℚ)).num := by
    rw [Rat.num_nonneg]
    exact not_le.mpr hneg
  rw [write, if_neg fun h => hnum h.2.1, text, if_neg hneg.ne, if_neg hneg.not_gt, neg_neg]

/-- The text of a positive whole number, in digits or scientific. -/
theorem positiveText_whole {n : ℕ} (hn : 0 < n) (h : IsWhole n) :
    ∃ q, NumberText (positiveText n) q ∧ ofRat q = .finite n := by
  obtain ⟨hlt, hdouble⟩ := isWhole_iff.mp h
  obtain ⟨hwhole, hreads⟩ := shortest_isTextOf hn hdouble
  refine ⟨_, positiveText_numberText hwhole, ?_⟩
  have hpos : 0 ≤ (shortest n).value := by
    rw [hwhole.value]
    positivity
  have hfinite : ¬ overflow ≤ |(shortest n).value| := by
    rw [abs_of_nonneg hpos]
    intro hle
    have := overflow_le_nearest hle
    rw [hreads] at this
    exact absurd hlt (not_lt.mpr this)
  rw [ofRat, if_neg hfinite, hreads]

/-- A text after a minus sign. -/
theorem NumberText.read_neg {cs : List Char} {q : ℚ} (h : NumberText cs q) :
    JsNumber.read ('-' :: cs) = ofRat (-q) := by
  obtain ⟨c, r, rfl, hc⟩ := h.head
  have htrim : (JsText.trim (String.ofList ('-' :: c :: r))).toList = '-' :: c :: r := by
    refine JsText.trim_noSpace fun d hd => ?_
    rcases List.mem_cons.mp hd with rfl | hd
    · decide
    · exact isSpace_of_isNumeric (h.numeric d hd)
  have hword : c :: r ≠ "Infinity".toList := by
    intro heq
    obtain rfl : c = 'I' := (List.cons.inj heq).1
    cases hc
  unfold JsNumber.read
  rw [htrim]
  simp only [ofLiteral, if_neg hword, h.reads, if_true]

theorem NumberText.literal_neg {cs : List Char} {q : ℚ} (h : NumberText cs q) :
    JsonText.isLiteral ('-' :: cs) = true := by
  rw [JsonText.isLiteral, List.all_eq_true.mpr h.numeric, h.unsigned]
  rfl

/-- **Round trip** of an integer. -/
theorem read_write_int {q : ℚ} (h : IsInteger q) : read (write (.finite q)) = .finite q := by
  obtain ⟨n, hn, rfl | rfl⟩ := h
  · exact read_write hn
  · rcases Nat.eq_zero_or_pos n with rfl | hpos
    · simpa using read_write hn
    · obtain ⟨q, htext, hq⟩ := positiveText_whole hpos hn
      have hneg : ofRat (- -q) = .finite (- -(n : ℚ)) := by rw [neg_neg, neg_neg, hq]
      rw [write_neg hpos, htext.read_neg, ofRat_neg hneg, neg_neg]

/-- The text of an integer is a number in JSON. -/
theorem isLiteral_write_int {q : ℚ} (h : IsInteger q) :
    JsonText.isLiteral (write (.finite q)) = true := by
  obtain ⟨n, hn, rfl | rfl⟩ := h
  · exact isLiteral_write hn
  · rcases Nat.eq_zero_or_pos n with rfl | hpos
    · simpa using isLiteral_write hn
    · obtain ⟨q, htext, -⟩ := positiveText_whole hpos hn
      rw [write_neg hpos]
      exact htext.literal_neg

/-! ## 3. JSON -/

/-- A number as `JSON.stringify` writes it; only a finite one has a literal. -/
def toJson : Number → JsonText.Json
  | .finite q =>
    if h : JsonText.isLiteral (write (.finite q)) = true then .num ⟨write (.finite q), h⟩ else .null
  | _ => .null

/-- An integer is read back from JSON. -/
theorem toJson_int {q : ℚ} (h : IsInteger q) :
    ∃ literal, toJson (.finite q) = .num literal ∧ read literal.chars = .finite q :=
  ⟨_, dif_pos (isLiteral_write_int h), read_write_int h⟩

/-! ## 4. Sums -/

/-- The largest doubles are far enough below what is too large. -/
theorem add_lt_overflow {k n : ℕ} (hk : IsWhole k) (hn : n < 2 ^ 53) :
    (k : ℚ) + n < overflow := by
  obtain ⟨hlt, hdouble⟩ := isWhole_iff.mp hk
  obtain ⟨unit, hunit⟩ : ∃ unit : ℚ, unit = 2 ^ 970 := ⟨_, rfl⟩
  have hbig : 2 ^ 53 < unit := by
    rw [hunit]
    exact pow_lt_pow_right₀ (by norm_num) (by norm_num)
  have hn' : (n : ℚ) < 2 ^ 53 := by exact_mod_cast hn
  unfold overflow at hlt ⊢
  rw [← hunit] at hlt ⊢
  rcases Nat.lt_or_ge k (2 ^ 53) with hsmall | hlarge
  · have hk' : (k : ℚ) < 2 ^ 53 := by exact_mod_cast hsmall
    linarith only [hk', hn', hbig]
  · obtain ⟨e, m, hm, hmlo, hmhi⟩ := exists_steps hlarge hdouble
    have hmlo : (2 ^ 52 : ℚ) ≤ m := by exact_mod_cast hmlo
    have hmhi : (m : ℚ) ≤ 2 ^ 53 - 1 := by exact_mod_cast Int.le_sub_one_of_lt hmhi
    have hpow : (0 : ℚ) < 2 ^ (e + 1) := by positivity
    rw [hm] at hlt ⊢
    rcases Nat.lt_or_ge e 971 with he | he
    · have hle : (2 : ℚ) ^ (e + 1) ≤ 2 * unit := by
        rw [hunit, ← pow_succ']
        exact pow_le_pow_right₀ (by norm_num) (by omega)
      have hmul : (m : ℚ) * 2 ^ (e + 1) ≤ (2 ^ 53 - 1) * (2 * unit) :=
        mul_le_mul hmhi hle hpow.le (by norm_num)
      linarith only [hmul, hn', hbig]
    · exfalso
      have hle : 4 * unit ≤ (2 : ℚ) ^ (e + 1) := by
        rw [hunit, show (4 : ℚ) = 2 ^ 2 by norm_num, ← pow_add]
        exact pow_le_pow_right₀ (by norm_num) (by omega)
      have hmul := mul_le_mul hmlo hle (by linarith only [hbig]) (by linarith only [hmlo])
      linarith only [hmul, hlt, hbig]

/-- The sum of an integer and a small whole number is finite. -/
theorem ofRat_add_finite {m : ℤ} {n : ℕ} (hm : ofRat m = .finite m) (hn : n < 2 ^ 53) :
    ∃ q, ofRat ((n : ℚ) + m) = .finite q ∧ IsInteger q := by
  have hfinite : |(n : ℚ) + m| < overflow := by
    have hn0 : (0 : ℚ) ≤ n := Nat.cast_nonneg n
    have hzero : (0 : ℚ) + n < overflow := by
      simpa using add_lt_overflow (k := 0) (by decide +kernel) hn
    rcases Int.le_total 0 m with hpos | hneg
    · obtain ⟨k, rfl⟩ := Int.eq_ofNat_of_zero_le hpos
      have hk : IsWhole k := by simpa [IsWhole] using hm
      have hsum := add_lt_overflow hk hn
      have hk0 : (0 : ℚ) ≤ k := Nat.cast_nonneg k
      simp only [Int.cast_natCast]
      rw [abs_of_nonneg (by linarith), add_comm]
      exact hsum
    · have hm0 : (m : ℚ) ≤ 0 := by exact_mod_cast hneg
      have hlt : |(m : ℚ)| < overflow := by
        unfold ofRat at hm
        split at hm
        · cases hm
        · rename_i h
          exact not_le.mp h
      rw [abs_of_nonpos hm0] at hlt
      rw [abs_lt]
      constructor <;> linarith
  have hsum : ofRat ((n : ℚ) + m) = .finite (nearest ((n : ℚ) + m)) := by
    rw [ofRat, if_neg (not_le.mpr hfinite)]
  refine ⟨_, hsum, ?_⟩
  refine ofRat_intCast (m := n + m) ?_
  rw [← hsum]
  push_cast
  rfl

end JsNumber
