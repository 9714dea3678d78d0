/-
# Numbers read from texts and written to them

`Number(text)` and `String(number)` of a language whose numbers are doubles.  `read` follows the
grammar of numeric strings: white space around it is skipped, the empty text is zero, a text
can be decimal (with fraction and exponent), binary, octal or hexadecimal, and anything else is
not a number.  `read_toDigits` and `write_natCast` say that a natural number below `2 ^ 53`
keeps its decimal text in both directions.
-/
import SmartDrop.Lib.Binary64
import SmartDrop.Lib.JsText

namespace JsNumber

open Binary64

/-- A number of the language; a finite one as the rational it stands for. -/
inductive Number where
  | nan
  | infinity (negative : Bool)
  | finite (val : ℚ)
deriving DecidableEq

/-! ## 1. Reading -/

/-- The value of a digit in bases up to sixteen. -/
def digitValue (c : Char) : ℕ :=
  if JsText.isDigit c then c.toNat - 48
  else if 'a' ≤ c && c ≤ 'f' then c.toNat - 87
  else if 'A' ≤ c && c ≤ 'F' then c.toNat - 55
  else 16

/-- Digits of a base, at least one, as a number. -/
def readBase (base : ℕ) (cs : List Char) : Option ℕ :=
  if cs.isEmpty || cs.any fun c => base ≤ digitValue c then none
  else some (cs.foldl (fun n c => n * base + digitValue c) 0)

/-- What may follow a mantissa: nothing, or an exponent. -/
def readExponent : List Char → Option ℤ
  | [] => some 0
  | e :: cs =>
    if e = 'e' || e = 'E' then
      match cs with
      | '-' :: ds => (readBase 10 ds).map fun n => -(n : ℤ)
      | '+' :: ds => (readBase 10 ds).map Int.ofNat
      | ds => (readBase 10 ds).map Int.ofNat
    else none

/-- A decimal literal without a sign. -/
def readDecimal (cs : List Char) : Option ℚ :=
  let int := cs.takeWhile JsText.isDigit
  let rest := cs.dropWhile JsText.isDigit
  let frac := match rest with
    | '.' :: r => r.takeWhile JsText.isDigit
    | _ => []
  let rest := match rest with
    | '.' :: r => r.dropWhile JsText.isDigit
    | r => r
  if int.isEmpty && frac.isEmpty then none
  else (readExponent rest).map fun e => Nat.ofDigitChars 10 (int ++ frac) 0 * pow10 (e - frac.length)

/-- `2 ^ 1024 - 2 ^ 970`: from here on a magnitude is rounded to infinity. -/
def overflow : ℚ := (2 ^ 54 - 1) * 2 ^ 970

/-- The number nearest to a rational; what is too large is infinite. -/
def ofRat (q : ℚ) : Number :=
  if overflow ≤ |q| then .infinity (q < 0) else .finite (nearest q)

/-- A number from what the grammar allows, or not a number. -/
def ofLiteral (negative : Bool) (cs : List Char) : Number :=
  if cs = "Infinity".toList then .infinity negative
  else match readDecimal cs with
    | none => .nan
    | some q => ofRat (if negative then -q else q)

/-- The base that the letter after a leading zero announces. -/
def baseOf (c : Char) : Option ℕ :=
  if c = 'x' || c = 'X' then some 16
  else if c = 'o' || c = 'O' then some 8
  else if c = 'b' || c = 'B' then some 2
  else none

/-- A numeric string without a sign. -/
def readUnsigned : List Char → Number
  | '0' :: c :: ds =>
    match baseOf c with
    | some base => ((readBase base ds).map fun n : ℕ => ofRat n).getD .nan
    | none => ofLiteral false ('0' :: c :: ds)
  | cs => ofLiteral false cs

/-- `Number(text)`. -/
def read (text : List Char) : Number :=
  match (JsText.trim (String.ofList text)).toList with
  | [] => .finite 0
  | '-' :: ds => ofLiteral true ds
  | '+' :: ds => ofLiteral false ds
  | ds => readUnsigned ds

/-! ## 2. Writing -/

/-- `String(number)`; a natural number below `2 ^ 53` is written in full. -/
def write : Number → List Char
  | .nan => "NaN".toList
  | .infinity negative => if negative then "-Infinity".toList else "Infinity".toList
  | .finite q => if q.den = 1 ∧ 0 ≤ q.num ∧ q.num < 2 ^ 53 then Nat.toDigits 10 q.num.toNat
    else text q

/-- `Boolean(number)`. -/
def Number.truthy : Number → Bool
  | .nan => false
  | .infinity _ => true
  | .finite q => q ≠ 0

/-- `parseInt(text, 10)`: the digits at the start of a text, after white space and a sign. -/
def parseInt (text : List Char) : Number :=
  let text := text.dropWhile JsText.isSpace
  let negative := text.head? = some '-'
  let unsigned := if text.head? = some '-' ∨ text.head? = some '+' then text.tail else text
  let digits := unsigned.takeWhile JsText.isDigit
  let n : ℚ := Nat.ofDigitChars 10 digits 0
  if digits.isEmpty then .nan else ofRat (if negative then -n else n)

/-- `a + b`. -/
def Number.add : Number → Number → Number
  | .nan, _ | _, .nan => .nan
  | .infinity a, .infinity b => if a = b then .infinity a else .nan
  | .infinity a, .finite _ | .finite _, .infinity a => .infinity a
  | .finite a, .finite b => ofRat (a + b)

/-- `a < b`. -/
def Number.less : Number → Number → Bool
  | .nan, _ | _, .nan => false
  | .infinity a, .infinity b => a && !b
  | .infinity a, .finite _ => a
  | .finite _, .infinity b => !b
  | .finite a, .finite b => a < b

/-! ## 3. Natural numbers -/

theorem write_natCast {n : ℕ} (h : n < 2 ^ 53) : write (.finite n) = Nat.toDigits 10 n := by
  have hlt : (n : ℤ) < 2 ^ 53 := by exact_mod_cast h
  rw [write, if_pos ⟨Rat.den_natCast n, by simp, by simpa using hlt⟩]
  simp

/-- A natural number below `2 ^ 53` is a double. -/
theorem nearest_natCast {n : ℕ} (h : n < 2 ^ 53) : nearest n = n := by
  rcases Nat.eq_zero_or_pos n with rfl | hpos
  · simp [nearest]
  have hlog : log2 n ≤ 52 := by
    have h1 : (1 : ℚ) ≤ n := by exact_mod_cast hpos
    have : Nat.log2 n < 53 := (Nat.log2_lt (by omega)).mpr h
    simp only [log2, h1, if_true, Nat.floor_natCast]
    omega
  obtain ⟨k, hk⟩ : ∃ k : ℕ, ulp n = 1 / (2 ^ k : ℕ) := by
    obtain ⟨k, hk⟩ : ∃ k : ℕ, max (log2 n - 52) (-1074) = -(k : ℤ) :=
      ⟨(-(max (log2 n - 52) (-1074))).toNat, by omega⟩
    rcases Nat.eq_zero_or_pos k with rfl | hkpos
    · exact ⟨0, by simp [ulp, hk, pow2]⟩
    · refine ⟨k, ?_⟩
      rw [ulp, hk, pow2, if_neg (by omega), neg_neg, Int.toNat_natCast]
  have hquot : (n : ℚ) / ulp n = ((n * 2 ^ k : ℕ) : ℤ) := by
    rw [hk]
    push_cast
    simp
  have hround : roundEven (((n * 2 ^ k : ℕ) : ℤ) : ℚ) = ((n * 2 ^ k : ℕ) : ℤ) := by
    rw [roundEven, Int.floor_intCast]
    simp
  have hne : (n : ℚ) ≠ 0 := by exact_mod_cast hpos.ne'
  have hgt : (0 : ℚ) < n := by exact_mod_cast hpos
  rw [nearest, if_neg hne, if_pos hgt, hquot, hround, hk]
  push_cast
  have : (2 : ℚ) ^ k ≠ 0 := by positivity
  field_simp

theorem isDigit_of_mem_toDigits {n : ℕ} {c : Char} (h : c ∈ Nat.toDigits 10 n) :
    JsText.isDigit c := by
  have := Nat.isDigit_of_mem_toDigits (by omega) (by omega) h
  simp only [Char.isDigit, Bool.and_eq_true, decide_eq_true_eq] at this
  simp only [JsText.isDigit, Bool.and_eq_true, decide_eq_true_eq]
  exact this

/-- Digits are read as the decimal number they write. -/
theorem readDecimal_digits {cs : List Char} (hne : cs ≠ []) (h : ∀ c ∈ cs, JsText.isDigit c) :
    readDecimal cs = some ((Nat.ofDigitChars 10 cs 0 : ℕ) : ℚ) := by
  have htake : cs.takeWhile JsText.isDigit = cs := List.takeWhile_eq_self_iff.mpr h
  have hdrop : cs.dropWhile JsText.isDigit = [] := List.dropWhile_eq_nil_iff.mpr h
  simp [readDecimal, htake, hdrop, hne, readExponent, pow10]

theorem isSpace_of_isDigit {c : Char} (h : JsText.isDigit c) : JsText.isSpace c = false := by
  simp only [JsText.isDigit, Bool.and_eq_true, decide_eq_true_eq] at h
  have h₁ : 48 ≤ c.toNat := h.1
  have h₂ : c.toNat ≤ 57 := h.2
  simp only [JsText.isSpace, JsText.spaces, List.contains_eq_mem, List.mem_cons, List.not_mem_nil,
    or_false, Bool.or_eq_false_iff, Bool.and_eq_false_iff, decide_eq_false_iff_not]
  omega

theorem ofRat_natCast {n : ℕ} (h : n < 2 ^ 53) : ofRat n = .finite n := by
  have hlt : (n : ℚ) < 2 ^ 53 := by exact_mod_cast h
  have hone : (1 : ℚ) ≤ 2 ^ 970 := one_le_pow₀ (by norm_num)
  have habs : ¬ overflow ≤ |(n : ℚ)| := by
    rw [Nat.abs_cast, not_le, overflow]
    generalize (2 ^ 970 : ℚ) = y at hone ⊢
    linarith
  rw [ofRat, if_neg habs, nearest_natCast h]

/-- No digit announces a base. -/
theorem baseOf_digit {c : Char} (h : JsText.isDigit c) : baseOf c = none := by
  have hne : ∀ d : Char, JsText.isDigit d = false → c ≠ d := by
    rintro d hd rfl
    rw [hd] at h
    cases h
  simp [baseOf, hne 'x' (by decide), hne 'X' (by decide), hne 'o' (by decide), hne 'O' (by decide),
    hne 'b' (by decide), hne 'B' (by decide)]

/-- Digits announce no base. -/
theorem readUnsigned_digits {cs : List Char} (h : ∀ c ∈ cs, JsText.isDigit c) :
    readUnsigned cs = ofLiteral false cs := by
  rw [readUnsigned.eq_def]
  split
  · rw [baseOf_digit (h _ (by simp))]
  · rfl

/-- **A natural number below `2 ^ 53` is read back from its decimal text.** -/
theorem read_toDigits {n : ℕ} (h : n < 2 ^ 53) : read (Nat.toDigits 10 n) = .finite n := by
  have hall : ∀ c ∈ Nat.toDigits 10 n, JsText.isDigit c := fun c => isDigit_of_mem_toDigits
  have hne : Nat.toDigits 10 n ≠ [] := Nat.toDigits_ne_nil
  have hvalue : readDecimal (Nat.toDigits 10 n) = some (n : ℚ) := by
    rw [readDecimal_digits hne hall, Nat.ofDigitChars_toDigits (by omega) (by omega)]
  generalize Nat.toDigits 10 n = cs at hall hne hvalue
  have hword : cs ≠ "Infinity".toList := by
    rintro rfl
    exact absurd (hall 'I' (by simp)) (by decide)
  rw [read, JsText.trim_noSpace fun c hc => isSpace_of_isDigit (hall c hc)]
  split
  · exact absurd rfl hne
  · exact absurd (hall '-' (by simp)) (by decide)
  · exact absurd (hall '+' (by simp)) (by decide)
  · rw [readUnsigned_digits hall, ofLiteral, if_neg hword, hvalue]
    exact ofRat_natCast h

end JsNumber
