/-
# Double-precision numbers

The numbers of a language whose only number type is IEEE 754 binary64, each as the rational it
stands for: `nearest` takes a rational to the nearest double (ties to the even significand),
and `Double` is a finite double.  `fixed` is the integer that `toFixed` writes, and `text` the
shortest decimal text that reads back as the number.

Overflow to infinity and the negative zero are left out: `nearest` has no largest value.
-/
import Mathlib.Algebra.Order.Floor.Ring
import Mathlib.Data.Nat.Log
import Mathlib.Data.Rat.Floor
import Mathlib.Tactic.Linarith

namespace Binary64

/-! ## 1. Rounding -/

/-- The nearest integer, a tie going to the even one. -/
def roundEven (q : ℚ) : ℤ :=
  let n := ⌊q⌋
  if q - n < 1 / 2 then n
  else if 1 / 2 < q - n then n + 1
  else if n % 2 = 0 then n else n + 1

/-- The exponent `e` with `2 ^ e ≤ q < 2 ^ (e + 1)`, for a positive `q`. -/
def log2 (q : ℚ) : ℤ :=
  if 1 ≤ q then Nat.log2 ⌊q⌋₊
  else -(Nat.log2 (⌈q⁻¹⌉₊ - 1) + 1 : ℕ)

/-- `2 ^ e`. -/
def pow2 (e : ℤ) : ℚ := if 0 ≤ e then (2 ^ e.toNat : ℕ) else 1 / (2 ^ (-e).toNat : ℕ)

/-- The distance between neighbouring doubles at a positive `q`. -/
def ulp (q : ℚ) : ℚ := pow2 (max (log2 q - 52) (-1074))

/-- The double nearest to `q`. -/
def nearest (q : ℚ) : ℚ :=
  if q = 0 then 0
  else if 0 < q then roundEven (q / ulp q) * ulp q
  else -(roundEven (-q / ulp (-q)) * ulp (-q))

/-- A finite double, with the rational it stands for. -/
structure Double where
  val : ℚ
  isDouble : nearest val = val
deriving DecidableEq

namespace Double

/-- A whole number that is a double. -/
def ofNat (n : ℕ) (h : nearest n = n) : Double := ⟨n, h⟩

theorem nearest_ten : nearest (10 : ℕ) = (10 : ℕ) := by decide +kernel

theorem nearest_twenty : nearest (20 : ℕ) = (20 : ℕ) := by decide +kernel

end Double

/-! ## 2. Fixed-point text -/

/-- `x.toFixed(digits)` without its point: the nearest integer to `x · 10 ^ digits`, the larger
one of two. -/
def fixed (digits : ℕ) (x : ℚ) : ℤ := ⌊x * 10 ^ digits + 1 / 2⌋

/-- `Math.round`: a tie goes up. -/
def mathRound (x : ℚ) : ℤ := ⌊x + 1 / 2⌋

/-! ## 3. Decimal text -/

/-- The number `n` with `10 ^ (n - 1) ≤ q < 10 ^ n`, for a positive `q`. -/
def digitsBefore (q : ℚ) : ℤ :=
  if 1 ≤ q then (Nat.toDigits 10 ⌊q⌋₊).length
  else 1 - ((if ⌈q⁻¹⌉₊ ≤ 1 then 0 else (Nat.toDigits 10 (⌈q⁻¹⌉₊ - 1)).length : ℕ) : ℤ)

/-- `10 ^ e`. -/
def pow10 (e : ℤ) : ℚ := if 0 ≤ e then (10 ^ e.toNat : ℕ) else 1 / (10 ^ (-e).toNat : ℕ)

/-- A decimal `digits · 10 ^ (point - count)` with `count` digits. -/
structure Decimal where
  digits : ℕ
  count : ℕ
  point : ℤ
deriving DecidableEq

/-- The rational a decimal stands for. -/
def Decimal.value (d : Decimal) : ℚ := d.digits * pow10 (d.point - d.count)

/-- A candidate with `k` digits; ten to the `k` is one digit further left. -/
def candidate (digits k : ℕ) (n : ℤ) : Decimal :=
  if digits = 10 ^ k then ⟨1, 1, n + 1⟩ else ⟨digits, k, n⟩

/-- The decimal with `k` digits that reads back as the positive double `q`, if there is one; of
two, the closer one, and the even one when they are equally close. -/
def withDigits (q : ℚ) (k : ℕ) : Option Decimal :=
  let n := digitsBefore q
  let scaled := q / pow10 (n - k)
  let low := candidate ⌊scaled⌋₊ k n
  let high := candidate (⌊scaled⌋₊ + 1) k n
  let lowReads := nearest low.value = q
  let highReads := nearest high.value = q
  if lowReads ∧ highReads then
    if roundEven scaled = ⌊scaled⌋₊ then some low else some high
  else if lowReads then some low
  else if highReads then some high
  else none

/-- The first candidate from `k` digits on; seventeen digits always suffice. -/
def shortestFrom (q : ℚ) : ℕ → ℕ → Decimal
  | 0, k => ⟨⌊q / pow10 (digitsBefore q - k)⌋₊, k, digitsBefore q⟩
  | fuel + 1, k => (withDigits q k).getD (shortestFrom q fuel (k + 1))

/-- The shortest decimal that reads back as the positive double `q`. -/
def shortest (q : ℚ) : Decimal := shortestFrom q 17 1

/-- The text of a positive double: `Number::toString` in base ten. -/
def positiveText (q : ℚ) : List Char :=
  let d := shortest q
  let ds := Nat.toDigits 10 d.digits
  let n := d.point
  if (d.count : ℤ) ≤ n ∧ n ≤ 21 then ds ++ List.replicate (n.toNat - d.count) '0'
  else if 0 < n ∧ n ≤ 21 then ds.take n.toNat ++ '.' :: ds.drop n.toNat
  else if -6 < n ∧ n ≤ 0 then '0' :: '.' :: (List.replicate (-n).toNat '0' ++ ds)
  else
    let e := n - 1
    let sign := if e < 0 then '-' else '+'
    let mantissa := if d.count = 1 then ds else ds.take 1 ++ '.' :: ds.drop 1
    mantissa ++ 'e' :: sign :: Nat.toDigits 10 e.natAbs

/-- `String(x)`, for a double `x`. -/
def text (x : ℚ) : List Char :=
  if x = 0 then ['0']
  else if 0 < x then positiveText x
  else '-' :: positiveText (-x)

end Binary64
