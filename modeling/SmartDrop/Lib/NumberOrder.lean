/-
# Numbers in their order

`a <= b`, `a * b`, `Math.min` and `**` of a language whose numbers are doubles, with infinities and
a value that is not a number.  Products are rounded, and what is too large is infinite; every
operation keeps the order (`atMost_mul`, `atMost_min`, `Power.raise_mono`).

How exact `**` is, the language leaves to its engines.  A `Power` is what any of them computes whose
result is one of the two doubles next to the power: its values need not be the nearest ones, but they
grow with the exponent (`Power.pow_mono`), because the powers of a double above one lie further apart
than the doubles there (`exists_double`).
-/
import SmartDrop.Lib.Rounding
import SmartDrop.Lib.JsNumber

namespace JsNumber

open Binary64

/-! ## 1. Order -/

namespace Number

/-- `a <= b`. -/
def atMost (a b : Number) : Bool :=
  match a, b with
  | .nan, _ | _, .nan => false
  | a, b => !b.less a

attribute [local grind =] atMost less

variable {a b c : Number}

theorem atMost_refl (h : a ≠ .nan) : a.atMost a = true := by
  cases a <;> grind [atMost, less]

theorem atMost_trans (hab : a.atMost b = true) (hbc : b.atMost c = true) : a.atMost c = true := by
  cases a <;> cases b <;> cases c <;> grind [atMost, less]

theorem less_of_atMost (hab : a.atMost b = true) (hbc : b.less c = true) : a.less c = true := by
  cases a <;> cases b <;> cases c <;> grind [atMost, less]

@[simp] theorem atMost_finite {p q : ℚ} : (finite p).atMost (finite q) = true ↔ p ≤ q := by
  simp [atMost, less]

/-- What lies between finite numbers is finite. -/
theorem exists_finite {p q : ℚ} (hlo : (finite p).atMost a = true) (hhi : a.atMost (finite q) = true) :
    ∃ x, a = finite x ∧ p ≤ x ∧ x ≤ q := by
  cases a with
  | nan => cases hlo
  | infinity negative => cases negative <;> simp [atMost, less] at hlo hhi
  | finite x => exact ⟨x, rfl, atMost_finite.mp hlo, atMost_finite.mp hhi⟩

/-- `Math.min(a, b)`. -/
def min (a b : Number) : Number :=
  match a, b with
  | .nan, _ | _, .nan => .nan
  | a, b => if b.less a then b else a

theorem min_atMost_right (ha : a ≠ .nan) (hb : b ≠ .nan) : (min a b).atMost b = true := by
  cases a <;> cases b <;> grind [atMost, less, min]

theorem atMost_min (hca : c.atMost a = true) (hcb : c.atMost b = true) :
    c.atMost (min a b) = true := by
  cases a <;> cases b <;> cases c <;> grind [atMost, less, min]

theorem min_mono (hb : b ≠ .nan) (hac : a.atMost c = true) : (min a b).atMost (min c b) = true := by
  cases a <;> cases b <;> cases c <;> grind [atMost, less, min]

end Number

/-! ## 2. Products -/

/-- A number from a rational whose magnitude has a limit: what is too large is infinite. -/
def clip (limit : ℚ) (f : ℚ → ℚ) (q : ℚ) : Number :=
  if limit ≤ |q| then .infinity (q < 0) else .finite (f q)

theorem clip_ne_nan (limit : ℚ) (f : ℚ → ℚ) (q : ℚ) : clip limit f q ≠ .nan := by
  rw [clip]
  split <;> exact Number.noConfusion

theorem atMost_clip {limit : ℚ} {f : ℚ → ℚ} (hf : Monotone f) {p q : ℚ} (h : p ≤ q) :
    (clip limit f p).atMost (clip limit f q) = true := by
  rw [clip, clip]
  split
  · rename_i hp
    split
    · -- a negative number is below a negative one
      have hsign : 0 ≤ q ∨ p < 0 := (le_or_gt 0 q).imp_right h.trans_lt
      simpa [Number.atMost, Number.less] using hsign
    · rename_i hq
      have hsign : p < 0 := by
        by_contra hp0
        rw [abs_of_nonneg (not_lt.mp hp0)] at hp
        exact hq (hp.trans (h.trans (le_abs_self q)))
      simp [Number.atMost, Number.less, hsign]
  · rename_i hp
    split
    · rename_i hq
      have hsign : ¬ q < 0 := by
        intro hq0
        rw [abs_of_neg hq0] at hq
        exact hp (hq.trans ((neg_le_neg h).trans (neg_le_abs p)))
      simp [Number.atMost, Number.less, hsign]
    · exact Number.atMost_finite.mpr (hf h)

theorem monotone_nearest : Monotone nearest := fun _ _ => nearest_mono

/-- A double is not above the number it is rounded to, be it infinite. -/
theorem atMost_ofRat {q : ℚ} (hq : 0 < q) (hdouble : nearest q = q) :
    (Number.finite q).atMost (ofRat q) = true := by
  rw [ofRat]
  split
  · simp [Number.atMost, Number.less, hq.le]
  · rw [hdouble]
    exact Number.atMost_refl Number.noConfusion

namespace Number

/-- `a * b`. -/
def mul : Number → Number → Number
  | .nan, _ | _, .nan => .nan
  | .infinity a, .infinity b => .infinity (a != b)
  | .infinity a, .finite q | .finite q, .infinity a =>
    if q = 0 then .nan else .infinity (a != decide (q < 0))
  | .finite p, .finite q => ofRat (p * q)

variable {a b : Number} {p : ℚ}

theorem atMost_infinity (h : a ≠ .nan) : a.atMost (.infinity false) = true := by
  cases a <;> grind [atMost, less]

theorem infinity_atMost (h : a ≠ .nan) : (infinity true).atMost a = true := by
  cases a <;> grind [atMost, less]

theorem mul_infinity (hp : 0 < p) (negative : Bool) :
    (finite p).mul (.infinity negative) = .infinity negative := by
  simp [mul, hp.ne', not_lt.mpr hp.le]

theorem mul_ne_nan (hp : 0 < p) (ha : a ≠ .nan) : (finite p).mul a ≠ .nan := by
  cases a with
  | nan => exact absurd rfl ha
  | infinity negative =>
    rw [mul_infinity hp]
    exact Number.noConfusion
  | finite q => exact clip_ne_nan overflow nearest (p * q)

theorem ne_nan_left (h : a.atMost b = true) : a ≠ .nan := by
  rintro rfl
  cases h

theorem ne_nan_right (h : a.atMost b = true) : b ≠ .nan := by
  rintro rfl
  cases a <;> cases h

/-- A positive factor keeps the order. -/
theorem mul_mono (hp : 0 < p) (h : a.atMost b = true) :
    ((finite p).mul a).atMost ((finite p).mul b) = true := by
  have ha := mul_ne_nan hp (ne_nan_left h)
  have hb := mul_ne_nan hp (ne_nan_right h)
  cases a with
  | nan => exact absurd rfl (ne_nan_left h)
  | infinity negative =>
    cases negative with
    | true =>
      rw [mul_infinity hp]
      exact infinity_atMost hb
    | false =>
      -- only infinity is above infinity
      cases b <;> simp_all [atMost, less, mul_infinity]
  | finite x =>
    cases b with
    | nan => exact absurd rfl (ne_nan_right h)
    | infinity negative =>
      obtain rfl : negative = false := by simpa [atMost, less] using h
      rw [mul_infinity hp]
      exact atMost_infinity ha
    | finite y =>
      exact atMost_clip monotone_nearest
        (mul_le_mul_of_nonneg_left (atMost_finite.mp h) hp.le)

/-- A factor of one or more does not make a positive double smaller. -/
theorem atMost_mul (hp : 0 < p) (hdouble : nearest p = p) (h : (finite 1).atMost a = true) :
    (finite p).atMost ((finite p).mul a) = true := by
  refine atMost_trans (atMost_ofRat hp hdouble) ?_
  have hmul : (finite p).mul (.finite 1) = ofRat p := by rw [mul, mul_one]
  rw [← hmul]
  exact mul_mono hp h

end Number

/-! ## 3. Powers -/

/-- `r` is a double, and no other double lies between it and `y`. -/
structure Faithful (y r : ℚ) : Prop where
  isDouble : nearest r = r
  below : ∀ d, nearest d = d → d ≤ y → d ≤ r
  above : ∀ d, nearest d = d → y ≤ d → r ≤ d

theorem faithful_nearest (y : ℚ) : Faithful y (nearest y) where
  isDouble := nearest_nearest y
  below _ hd h := hd ▸ nearest_mono h
  above _ hd h := hd ▸ nearest_mono h

/-- How an engine raises the doubles from one on to whole powers, as if there were no largest double. -/
structure Power where
  pow : ℚ → ℕ → ℚ
  faithful : ∀ x n, 1 ≤ x → nearest x = x → Faithful (x ^ n) (pow x n)

/-- The engine whose powers are the nearest doubles. -/
def Power.rounded : Power where
  pow x n := nearest (x ^ n)
  faithful x n _ _ := faithful_nearest (x ^ n)

theorem nearest_one : nearest 1 = 1 := by simpa using nearest_natCast (n := 1) (by norm_num)

/-- A double above one is above it by a step. -/
theorem add_step_le {x : ℚ} (hx : 1 < x) (hdouble : nearest x = x) : 1 + 2 ^ (-52 : ℤ) ≤ x := by
  rcases le_or_gt 2 x with h2 | h2
  · refine le_trans ?_ h2
    norm_num
  · have hstep : Step (-52) x := ⟨by norm_num, by norm_num; linarith, .inr (by norm_num; linarith)⟩
    obtain ⟨m, hm, -, -⟩ := hstep.exists_mul (by linarith) hdouble
    have hlt : (2 ^ 52 : ℤ) < m := by
      rw [hm] at hx
      norm_num at hx
      have : (2 ^ 52 : ℚ) < m := by linarith
      exact_mod_cast this
    have hle : ((2 ^ 52 + 1 : ℤ) : ℚ) ≤ m := by exact_mod_cast hlt
    rw [hm]
    norm_num at hle ⊢
    linarith

/-- Between a number and its multiple by a double above one, there is a double. -/
theorem exists_double {x y : ℚ} (hx : 1 < x) (hdouble : nearest x = x) (hy : 1 ≤ y) :
    ∃ d, nearest d = d ∧ y ≤ d ∧ d ≤ y * x := by
  have hy0 : 0 < y := one_pos.trans_le hy
  obtain ⟨k, hk, hulp⟩ := exists_step hy0
  have hpow := pow2_pos k
  have hstep : (2 : ℚ) ^ k ≤ y / 2 ^ 52 := by
    rw [← hulp]
    exact ulp_le (le_trans (zpow_le_one_of_nonpos₀ (by norm_num) (by norm_num)) hy)
  refine ⟨⌈y / 2 ^ k⌉ * 2 ^ k, nearest_mul_pow2 ?_ ?_ hk.least, ?_, ?_⟩
  · exact Int.ceil_nonneg (div_pos hy0 hpow).le
  · rw [Int.ceil_le, div_le_iff₀ hpow]
    push_cast
    exact hk.lt.le
  · exact (div_le_iff₀ hpow).mp (Int.le_ceil _)
  · have hceil : (⌈y / 2 ^ k⌉ : ℚ) * 2 ^ k ≤ y + 2 ^ k := by
      have hlt := (Int.ceil_lt_add_one (y / 2 ^ k)).le
      calc (⌈y / 2 ^ k⌉ : ℚ) * 2 ^ k ≤ (y / 2 ^ k + 1) * 2 ^ k :=
            mul_le_mul_of_nonneg_right hlt hpow.le
        _ = y + 2 ^ k := by field_simp
    calc (⌈y / 2 ^ k⌉ : ℚ) * 2 ^ k ≤ y + 2 ^ k := hceil
      _ ≤ y + y / 2 ^ 52 := by linarith
      _ = y * (1 + 2 ^ (-52 : ℤ)) := by norm_num; ring
      _ ≤ y * x := mul_le_mul_of_nonneg_left (add_step_le hx hdouble) hy0.le

namespace Power

variable {P : Power} {x : ℚ} {m n : ℕ}

theorem pow_one_base (n : ℕ) : P.pow 1 n = 1 := by
  have h := P.faithful 1 n le_rfl nearest_one
  rw [one_pow] at h
  exact le_antisymm (h.above 1 nearest_one le_rfl) (h.below 1 nearest_one le_rfl)

theorem one_le_pow (hx : 1 ≤ x) (hdouble : nearest x = x) : 1 ≤ P.pow x n :=
  (P.faithful x n hx hdouble).below 1 nearest_one (one_le_pow₀ hx)

/-- **Powers grow with the exponent**, in every engine. -/
theorem pow_mono (hx : 1 ≤ x) (hdouble : nearest x = x) : Monotone (P.pow x) := by
  refine monotone_nat_of_le_succ fun n => ?_
  rcases hx.eq_or_lt with rfl | hx1
  · rw [pow_one_base, pow_one_base]
  · obtain ⟨d, hd, hlo, hhi⟩ := exists_double hx1 hdouble (one_le_pow₀ hx (n := n))
    rw [← pow_succ] at hhi
    exact ((P.faithful x n hx hdouble).above d hd hlo).trans
      ((P.faithful x (n + 1) hx hdouble).below d hd hhi)

/-- `base ** exponent`, for a whole exponent that is not negative. -/
def raise (P : Power) : Number → ℕ → Number
  | _, 0 => .finite 1
  | .nan, _ + 1 => .nan
  | .infinity negative, n + 1 => .infinity (negative && n % 2 = 0)
  | .finite x, n + 1 => clip (2 ^ 1024) id (P.pow x (n + 1))

/-- A number that a variable can have: what is finite is a double. -/
def IsValue (a : Number) : Prop := ∀ x, a = .finite x → nearest x = x

variable {a : Number}

theorem raise_succ_mono (hvalue : IsValue a) (ha : (Number.finite 1).atMost a = true) (h : m ≤ n) :
    (P.raise a (m + 1)).atMost (P.raise a (n + 1)) = true := by
  cases a with
  | nan => cases ha
  | infinity negative =>
    obtain rfl : negative = false := by simpa [Number.atMost, Number.less] using ha
    exact Number.atMost_refl Number.noConfusion
  | finite x =>
    have hx : 1 ≤ x := Number.atMost_finite.mp ha
    exact atMost_clip monotone_id (pow_mono hx (hvalue x rfl) (Nat.succ_le_succ h))

theorem one_atMost_raise (hvalue : IsValue a) (ha : (Number.finite 1).atMost a = true) (n : ℕ) :
    (Number.finite 1).atMost (P.raise a n) = true := by
  cases n with
  | zero => exact Number.atMost_refl Number.noConfusion
  | succ n =>
    cases a with
    | nan => cases ha
    | infinity negative =>
      obtain rfl : negative = false := by simpa [Number.atMost, Number.less] using ha
      rfl
    | finite x =>
      have hx : 1 ≤ x := Number.atMost_finite.mp ha
      have hone : clip (2 ^ 1024) id 1 = .finite 1 := by
        rw [clip, abs_one, if_neg (not_le.mpr (one_lt_pow₀ one_lt_two (by decide)))]
        rfl
      rw [← hone]
      exact atMost_clip monotone_id (one_le_pow hx (hvalue x rfl))

theorem raise_mono (hvalue : IsValue a) (ha : (Number.finite 1).atMost a = true) (h : m ≤ n) :
    (P.raise a m).atMost (P.raise a n) = true := by
  cases m with
  | zero =>
    have hzero : P.raise a 0 = .finite 1 := by cases a <;> rfl
    rw [hzero]
    exact one_atMost_raise hvalue ha n
  | succ m =>
    cases n with
    | zero => exact absurd h (Nat.not_succ_le_zero m)
    | succ n => exact raise_succ_mono hvalue ha (Nat.le_of_succ_le_succ h)

end Power

end JsNumber
