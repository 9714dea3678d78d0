/-
# The shortest text of a double

`shortest q` is a decimal of `q` for every positive double: it reads back (`shortest_reads`), has
seventeen digits at most, and no more than any number of digits that reads back
(`shortest_of_withDigits`).  The text that is made of it, plain or scientific, is read as exactly
that decimal (`readDecimal_positiveText`).
-/
import SmartDrop.Lib.Rounding

namespace Binary64

/-! ## 1. Candidates -/

/-- A decimal that has as many digits as it says. -/
structure Decimal.Normal (d : Decimal) : Prop where
  count_pos : 0 < d.count
  digits_ge : 10 ^ (d.count - 1) ≤ d.digits
  digits_lt : d.digits < 10 ^ d.count

theorem Decimal.Normal.digits_pos {d : Decimal} (h : d.Normal) : 0 < d.digits :=
  lt_of_lt_of_le (by positivity) h.digits_ge

theorem Decimal.value_eq (d : Decimal) : d.value = d.digits * 10 ^ (d.point - d.count) := by
  rw [Decimal.value, pow10_eq_zpow]

variable {q : ℚ} {k j : ℕ} {n : ℤ} {d : Decimal}

theorem candidate_value (j k : ℕ) (n : ℤ) : (candidate j k n).value = j * 10 ^ (n - k) := by
  unfold candidate
  split
  · rename_i hj
    rw [Decimal.value_eq, hj]
    push_cast
    rw [← zpow_natCast, ← zpow_add₀ (by norm_num), one_mul]
    congr 1
    ring
  · rw [Decimal.value_eq]

theorem candidate_normal (hk : 0 < k) (hlo : 10 ^ (k - 1) ≤ j) (hhi : j ≤ 10 ^ k) :
    (candidate j k n).Normal := by
  unfold candidate
  split
  · exact ⟨Nat.one_pos, le_rfl, by norm_num⟩
  · rename_i hj
    exact ⟨hk, hlo, lt_of_le_of_ne hhi hj⟩

/-- Where the digits of a candidate are. -/
theorem candidate_point (hk : 0 < k) : (candidate j k n).count ≤ k ∧
    n ≤ (candidate j k n).point ∧ (candidate j k n).point ≤ n + 1 ∧
    ((candidate j k n).count : ℤ) - (candidate j k n).point ≤ k - n := by
  unfold candidate
  split
  · refine ⟨hk, ?_, le_rfl, ?_⟩ <;> push_cast <;> omega
  · refine ⟨le_rfl, le_rfl, ?_, le_rfl⟩
    exact show n ≤ n + 1 by omega

/-- The first `k` digits of a positive number. -/
theorem floor_bounds (hq : 0 < q) (hk : 0 < k) :
    10 ^ (k - 1) ≤ ⌊q / pow10 (digitsBefore q - k)⌋₊ ∧
      ⌊q / pow10 (digitsBefore q - k)⌋₊ < 10 ^ k := by
  obtain ⟨hlo, hhi⟩ := digitsBefore_spec hq
  have hpow := pow10_pos (digitsBefore q - k)
  rw [pow10_eq_zpow]
  constructor
  · refine Nat.le_floor ((le_div_iff₀ hpow).mpr (le_trans (le_of_eq ?_) hlo))
    push_cast
    rw [← zpow_natCast, ← zpow_add₀ (by norm_num)]
    congr 1
    omega
  · refine (Nat.floor_lt (by positivity)).mpr ((div_lt_iff₀ hpow).mpr (lt_of_lt_of_le hhi ?_))
    push_cast
    rw [← zpow_natCast, ← zpow_add₀ (by norm_num), add_sub_cancel]

/-- What a number of digits yields reads back, and is one of the two candidates. -/
theorem withDigits_reads (hq : 0 < q) (hk : 0 < k) (h : withDigits q k = some d) :
    nearest d.value = q ∧ ∃ j, d = candidate j k (digitsBefore q) ∧
      10 ^ (k - 1) ≤ j ∧ j ≤ 10 ^ k := by
  obtain ⟨hlo, hhi⟩ := floor_bounds hq hk
  unfold withDigits at h
  dsimp only at h
  generalize ⌊q / pow10 (digitsBefore q - k)⌋₊ = j at h hlo hhi
  have hlow : ∃ i, candidate j k (digitsBefore q) = candidate i k (digitsBefore q) ∧
      10 ^ (k - 1) ≤ i ∧ i ≤ 10 ^ k := ⟨j, rfl, hlo, hhi.le⟩
  have hhigh : ∃ i, candidate (j + 1) k (digitsBefore q) = candidate i k (digitsBefore q) ∧
      10 ^ (k - 1) ≤ i ∧ i ≤ 10 ^ k := ⟨j + 1, rfl, hlo.trans (Nat.le_succ j), hhi⟩
  split at h
  · rename_i hboth
    split at h
    · obtain rfl := Option.some.inj h
      exact ⟨hboth.1, hlow⟩
    · obtain rfl := Option.some.inj h
      exact ⟨hboth.2, hhigh⟩
  split at h
  · rename_i hreads
    obtain rfl := Option.some.inj h
    exact ⟨hreads, hlow⟩
  split at h
  · rename_i hreads
    obtain rfl := Option.some.inj h
    exact ⟨hreads, hhigh⟩
  · cases h

/-- A decimal next to the number is one of its candidates. -/
theorem withDigits_of_next {m : ℕ} (hq : 0 < q) (hlo : m ≤ q / 10 ^ (digitsBefore q - k) + 1)
    (hhi : q / 10 ^ (digitsBefore q - k) < m + 1)
    (h : nearest (m * 10 ^ (digitsBefore q - k)) = q) : ∃ d, withDigits q k = some d := by
  have hpow := pow10_pos (digitsBefore q - k)
  have hlow := fun h => withDigits_of_low (q := q) (k := k) h
  have hhigh := fun h => withDigits_of_high (q := q) (k := k) h
  rw [candidate_value, pow10_eq_zpow] at hlow hhigh
  rcases le_or_gt (m : ℚ) (q / 10 ^ (digitsBefore q - k)) with hle | hgt
  · have hfloor : ⌊q / 10 ^ (digitsBefore q - k)⌋₊ = m :=
      (Nat.floor_eq_iff (by positivity)).mpr ⟨hle, hhi⟩
    rw [hfloor] at hlow
    exact hlow h
  · obtain ⟨i, rfl⟩ : ∃ i, m = i + 1 := by
      refine ⟨m - 1, (Nat.succ_pred_eq_of_pos ?_).symm⟩
      have : (0 : ℚ) < m := lt_of_le_of_lt (by positivity) hgt
      exact_mod_cast this
    have hfloor : ⌊q / 10 ^ (digitsBefore q - k)⌋₊ = i := by
      refine (Nat.floor_eq_iff (by positivity)).mpr ⟨?_, ?_⟩
      · push_cast at hlo
        linarith
      · exact_mod_cast hgt
    rw [hfloor] at hhigh
    exact hhigh h

/-- **Seventeen digits read back.** -/
theorem withDigits_seventeen_double (hq : 0 < q) (hdouble : nearest q = q) :
    ∃ d, withDigits q 17 = some d := by
  obtain ⟨hlo, -⟩ := digitsBefore_spec hq
  have hpow := pow10_pos (digitsBefore q - (17 : ℕ))
  have hunit : 10 ^ 16 * (10 : ℚ) ^ (digitsBefore q - (17 : ℕ)) ≤ q := by
    refine le_trans (le_of_eq ?_) hlo
    rw [← zpow_natCast, ← zpow_add₀ (by norm_num)]
    congr 1
    push_cast
    ring
  have hfloor := Nat.floor_le (show 0 ≤ q / 10 ^ (digitsBefore q - (17 : ℕ)) by positivity)
  have hceil := Nat.lt_floor_add_one (q / 10 ^ (digitsBefore q - (17 : ℕ)))
  rw [le_div_iff₀ hpow] at hfloor
  rw [div_lt_iff₀ hpow] at hceil
  have hlow := fun h => withDigits_of_low (q := q) (k := 17) h
  have hhigh := fun h => withDigits_of_high (q := q) (k := 17) h
  rw [candidate_value, pow10_eq_zpow] at hlow hhigh
  generalize ⌊q / 10 ^ (digitsBefore q - (17 : ℕ))⌋₊ = m at hfloor hceil hlow hhigh
  generalize (10 : ℚ) ^ (digitsBefore q - (17 : ℕ)) = unit at hpow hunit hfloor hceil hlow hhigh
  rcases le_or_gt (q - m * unit) (unit / 2) with hnear | hnear
  · refine hlow (nearest_of_relative hq hdouble ?_)
    rw [abs_of_nonpos (by linarith)]
    linarith
  · refine hhigh (nearest_of_relative hq hdouble ?_)
    push_cast
    rw [abs_of_nonneg (by linarith)]
    linarith

/-- The shortest decimal has no more digits than any that reads back. -/
theorem shortest_of_withDigits {d : Decimal} (hk : 0 < k) (hk17 : k ≤ 17)
    (h : withDigits q k = some d) : ∃ i, 0 < i ∧ i ≤ k ∧ withDigits q i = some (shortest q) := by
  have hk1 : withDigits q (1 + (k - 1)) = some d := by rwa [show 1 + (k - 1) = k by omega]
  obtain ⟨i, hi, hw⟩ : ∃ i ≤ k - 1, withDigits q (1 + i) = some (shortest q) :=
    shortestFrom_spec (by omega) hk1
  exact ⟨1 + i, by omega, by omega, hw⟩

/-- **The shortest decimal of a double.** -/
theorem shortest_candidate (hq : 0 < q) (hdouble : nearest q = q) : ∃ k j : ℕ, 0 < k ∧ k ≤ 17 ∧
    shortest q = candidate j k (digitsBefore q) ∧ 10 ^ (k - 1) ≤ j ∧ j ≤ 10 ^ k ∧
    nearest (shortest q).value = q := by
  obtain ⟨d, hd⟩ := withDigits_seventeen_double hq hdouble
  obtain ⟨k, hk, hk17, hw⟩ := shortest_of_withDigits (by norm_num) le_rfl hd
  obtain ⟨hreads, j, hj, hlo, hhi⟩ := withDigits_reads hq hk hw
  exact ⟨k, j, hk, hk17, hj, hlo, hhi, hreads⟩

theorem shortest_reads (hq : 0 < q) (hdouble : nearest q = q) :
    nearest (shortest q).value = q := by
  obtain ⟨_, _, _, _, _, _, _, hreads⟩ := shortest_candidate hq hdouble
  exact hreads

theorem shortest_normal (hq : 0 < q) (hdouble : nearest q = q) : (shortest q).Normal := by
  obtain ⟨k, j, hk, -, hj, hlo, hhi, -⟩ := shortest_candidate hq hdouble
  rw [hj]
  exact candidate_normal hk hlo hhi

/-- **The shortest decimal shows no more digits behind its point** than a decimal next to the number
that reads back. -/
theorem shortest_decimals {m s : ℕ} (hq : 0 < q) (hdouble : nearest q = q)
    (hs : 0 < digitsBefore q + s) (hlo : (m : ℚ) ≤ q * 10 ^ s + 1) (hhi : q * 10 ^ s < m + 1)
    (h : nearest (m / 10 ^ s) = q) : ((shortest q).count : ℤ) - (shortest q).point ≤ s := by
  obtain ⟨k, hk⟩ : ∃ k : ℕ, (k : ℤ) = digitsBefore q + s := ⟨(digitsBefore q + s).toNat, by omega⟩
  -- a bound on the digits is a bound on those behind the point
  have hbound : ∀ i j : ℕ, 0 < i → i ≤ k → shortest q = candidate j i (digitsBefore q) →
      ((shortest q).count : ℤ) - (shortest q).point ≤ s := by
    intro i j hi hle hj
    obtain ⟨-, -, -, hdiff⟩ := candidate_point (j := j) (n := digitsBefore q) hi
    rw [← hj] at hdiff
    omega
  rcases le_or_gt k 17 with hfew | hmany
  · have hunit : (10 : ℚ) ^ (digitsBefore q - k) = (10 ^ s)⁻¹ := by
      rw [show digitsBefore q - k = -(s : ℤ) by omega, zpow_neg, zpow_natCast]
    have hscaled : q / 10 ^ (digitsBefore q - k) = q * 10 ^ s := by rw [hunit, div_inv_eq_mul]
    obtain ⟨d, hd⟩ := withDigits_of_next (k := k) (m := m) hq (by rw [hscaled]; exact hlo)
      (by rw [hscaled]; exact hhi) (by rw [hunit, ← div_eq_mul_inv]; exact h)
    obtain ⟨i, hi, hle, hw⟩ := shortest_of_withDigits (by omega) hfew hd
    obtain ⟨-, j, hj, -⟩ := withDigits_reads hq hi hw
    exact hbound i j hi hle hj
  · obtain ⟨i, j, hi, hi17, hj, -⟩ := shortest_candidate hq hdouble
    exact hbound i j hi (hi17.trans hmany.le) hj

end Binary64

namespace JsNumber

open Binary64

/-! ## 2. Literals -/

section Literals

variable {int frac rest : List Char} {e : ℤ}

theorem takeWhile_digits (hint : ∀ c ∈ int, JsText.isDigit c = true)
    (hrest : ∀ c ∈ rest.head?, JsText.isDigit c = false) :
    (int ++ rest).takeWhile JsText.isDigit = int ∧ (int ++ rest).dropWhile JsText.isDigit = rest := by
  rw [List.takeWhile_append_of_pos hint, List.dropWhile_append_of_pos hint]
  cases rest with
  | nil => simp
  | cons c rest =>
    have hc : JsText.isDigit c = false := hrest c rfl
    simp [hc]

/-- Digits and what may follow them. -/
theorem readDecimal_plain (hint : ∀ c ∈ int, JsText.isDigit c = true) (hne : int ≠ [])
    (hrest : ∀ c ∈ rest.head?, c = 'e') (he : readExponent rest = some e) :
    readDecimal (int ++ rest) = some ((Nat.ofDigitChars 10 int 0 : ℕ) * (10 : ℚ) ^ e) := by
  have hstop : ∀ c ∈ rest.head?, JsText.isDigit c = false := by
    intro c hc
    rw [hrest c hc]
    decide
  obtain ⟨htake, hdrop⟩ := takeWhile_digits hint hstop
  unfold readDecimal
  dsimp only
  rw [htake, hdrop]
  have hpoint : ∀ r, rest ≠ '.' :: r := by
    rintro r rfl
    exact absurd (hrest '.' rfl) (by decide)
  split
  · rename_i r
    exact absurd rfl (hpoint r)
  · simp [hne, he, pow10_eq_zpow]

/-- Digits with a point among them, and what may follow. -/
theorem readDecimal_point (hint : ∀ c ∈ int, JsText.isDigit c = true) (hne : int ≠ [])
    (hfrac : ∀ c ∈ frac, JsText.isDigit c = true)
    (hrest : ∀ c ∈ rest.head?, c = 'e') (he : readExponent rest = some e) :
    readDecimal (int ++ '.' :: (frac ++ rest)) =
      some ((Nat.ofDigitChars 10 (int ++ frac) 0 : ℕ) * (10 : ℚ) ^ (e - frac.length)) := by
  have hpoint : ∀ c ∈ ('.' :: (frac ++ rest)).head?, JsText.isDigit c = false := by
    intro c hc
    obtain rfl : '.' = c := by simpa using hc
    decide
  have hstop : ∀ c ∈ rest.head?, JsText.isDigit c = false := by
    intro c hc
    rw [hrest c hc]
    decide
  obtain ⟨htake, hdrop⟩ := takeWhile_digits hint hpoint
  obtain ⟨htake', hdrop'⟩ := takeWhile_digits hfrac hstop
  unfold readDecimal
  simp only [htake, hdrop, htake', hdrop']
  simp [hne, he, pow10_eq_zpow]

theorem readExponent_minus (e : ℕ) :
    readExponent ('e' :: '-' :: Nat.toDigits 10 e) = some (-(e : ℤ)) := by
  simp [readExponent, readBase_toDigits]

end Literals

/-! ## 3. The text of a decimal -/

variable {q : ℚ}

/-- A text without an exponent: digits before the point, and after it. -/
structure PlainText (cs int frac : List Char) : Prop where
  int_digit : ∀ c ∈ int, JsText.isDigit c = true
  int_ne_nil : int ≠ []
  frac_digit : ∀ c ∈ frac, JsText.isDigit c = true
  text : cs = if frac = [] then int else int ++ '.' :: frac

theorem PlainText.readDecimal {cs int frac : List Char} (h : PlainText cs int frac) :
    readDecimal cs =
      some ((Nat.ofDigitChars 10 (int ++ frac) 0 : ℕ) * (10 : ℚ) ^ (-(frac.length : ℤ))) := by
  rw [h.text]
  split
  · rename_i hfrac
    have hplain : JsNumber.readDecimal (int ++ []) = _ :=
      readDecimal_plain h.int_digit h.int_ne_nil (by simp) rfl
    simpa [hfrac] using hplain
  · have hpoint : JsNumber.readDecimal (int ++ '.' :: (frac ++ [])) = _ :=
      readDecimal_point h.int_digit h.int_ne_nil h.frac_digit (by simp) rfl
    simpa using hpoint

theorem isDigit_replicate {n : ℕ} {c : Char} (h : c ∈ List.replicate n '0') :
    JsText.isDigit c = true := by
  rw [List.eq_of_mem_replicate h]
  decide

/-- **The plain text**: it shows as many digits after its point as the decimal has. -/
theorem positiveText_plain (h : (shortest q).Normal) (hlo : -6 < (shortest q).point)
    (hhi : (shortest q).point ≤ 21) : ∃ int frac, PlainText (positiveText q) int frac ∧
      (frac.length : ℤ) = max 0 ((shortest q).count - (shortest q).point) ∧
      ((Nat.ofDigitChars 10 (int ++ frac) 0 : ℕ) : ℚ) * 10 ^ (-(frac.length : ℤ)) =
        (shortest q).value := by
  have hsize : (Nat.toDigits 10 (shortest q).digits).length = (shortest q).count :=
    size_eq h.digits_ge h.digits_lt h.count_pos
  have hds : ∀ c ∈ Nat.toDigits 10 (shortest q).digits, JsText.isDigit c = true :=
    fun c => isDigit_of_mem_toDigits
  have hvalue : Nat.ofDigitChars 10 (Nat.toDigits 10 (shortest q).digits) 0 =
      (shortest q).digits := Nat.ofDigitChars_ten_toDigits
  have hne : Nat.toDigits 10 (shortest q).digits ≠ [] := Nat.toDigits_ne_nil
  have hcount := h.count_pos
  rw [Decimal.value_eq]
  unfold positiveText
  dsimp only
  generalize shortest q = d at *
  generalize hword : Nat.toDigits 10 d.digits = ds at *
  by_cases hwhole : (d.count : ℤ) ≤ d.point
  · rw [if_pos ⟨hwhole, hhi⟩]
    refine ⟨ds ++ List.replicate (d.point.toNat - d.count) '0', [], ⟨?_, ?_, ?_, ?_⟩, ?_, ?_⟩
    · intro c hc
      rcases List.mem_append.mp hc with hc | hc
      · exact hds c hc
      · exact isDigit_replicate hc
    · exact List.append_ne_nil_of_left_ne_nil hne _
    · exact fun c hc => absurd hc List.not_mem_nil
    · rw [if_pos rfl]
    · rw [max_eq_left (by omega)]
      rfl
    · rw [List.append_nil, Nat.ofDigitChars_append, Nat.ofDigitChars_replicate_zero, hvalue]
      rw [show d.point - d.count = ((d.point.toNat - d.count : ℕ) : ℤ) by omega, zpow_natCast]
      push_cast
      simp
      ring
  rw [if_neg fun hboth => hwhole hboth.1]
  by_cases hpos : 0 < d.point
  · rw [if_pos ⟨hpos, hhi⟩]
    have hdrop : (ds.drop d.point.toNat).length = d.count - d.point.toNat := by
      rw [List.length_drop, hsize]
    have hdropne : ds.drop d.point.toNat ≠ [] := by
      intro hnil
      rw [hnil, List.length_nil] at hdrop
      omega
    refine ⟨ds.take d.point.toNat, ds.drop d.point.toNat, ⟨?_, ?_, ?_, ?_⟩, ?_, ?_⟩
    · exact fun c hc => hds c (List.mem_of_mem_take hc)
    · intro hnil
      rw [← List.length_eq_zero_iff, List.length_take, hsize] at hnil
      omega
    · exact fun c hc => hds c (List.mem_of_mem_drop hc)
    · rw [if_neg hdropne]
    · rw [hdrop, max_eq_right (by omega)]
      omega
    · rw [List.take_append_drop, hvalue, hdrop]
      congr 2
      omega
  · rw [if_neg fun hboth => hpos hboth.1, if_pos ⟨hlo, by omega⟩]
    refine ⟨['0'], List.replicate (-d.point).toNat '0' ++ ds, ⟨?_, ?_, ?_, ?_⟩, ?_, ?_⟩
    · intro c hc
      obtain rfl := List.mem_singleton.mp hc
      decide
    · exact List.cons_ne_nil _ _
    · intro c hc
      rcases List.mem_append.mp hc with hc | hc
      · exact isDigit_replicate hc
      · exact hds c hc
    · rw [if_neg (List.append_ne_nil_of_right_ne_nil _ hne)]
      rfl
    · rw [List.length_append, List.length_replicate, hsize, max_eq_right (by omega)]
      omega
    · rw [← List.append_assoc, ← List.replicate_one, ← List.replicate_add, Nat.ofDigitChars_append,
        Nat.ofDigitChars_replicate_zero, Nat.mul_zero, hvalue, List.length_append,
        List.length_replicate, hsize]
      congr 2
      omega

/-- **The scientific text.** -/
theorem readDecimal_scientific (h : (shortest q).Normal)
    (hout : (shortest q).point ≤ -6 ∨ 21 < (shortest q).point) :
    readDecimal (positiveText q) = some (shortest q).value := by
  have hsize : (Nat.toDigits 10 (shortest q).digits).length = (shortest q).count :=
    size_eq h.digits_ge h.digits_lt h.count_pos
  have hds : ∀ c ∈ Nat.toDigits 10 (shortest q).digits, JsText.isDigit c = true :=
    fun c => isDigit_of_mem_toDigits
  have hvalue : Nat.ofDigitChars 10 (Nat.toDigits 10 (shortest q).digits) 0 =
      (shortest q).digits := Nat.ofDigitChars_ten_toDigits
  have hne : Nat.toDigits 10 (shortest q).digits ≠ [] := Nat.toDigits_ne_nil
  have hcount := h.count_pos
  rw [Decimal.value_eq]
  unfold positiveText
  dsimp only
  generalize shortest q = d at *
  generalize hword : Nat.toDigits 10 d.digits = ds at *
  rw [if_neg (by omega), if_neg (by omega), if_neg (by omega)]
  have hexp : readExponent ('e' :: (if d.point - 1 < 0 then '-' else '+') ::
      Nat.toDigits 10 (d.point - 1).natAbs) = some (d.point - 1) := by
    split
    · rw [readExponent_minus]
      congr 1
      omega
    · rw [readExponent_plus]
      congr 1
      omega
  generalize hrest : 'e' :: (if d.point - 1 < 0 then '-' else '+') ::
    Nat.toDigits 10 (d.point - 1).natAbs = rest at hexp ⊢
  have hhead : ∀ c ∈ rest.head?, c = 'e' := by
    intro c hc
    rw [← hrest] at hc
    simpa using hc.symm
  split
  · rename_i hone
    rw [readDecimal_plain hds hne hhead hexp, hvalue, hone]
    rfl
  · rename_i hmany
    rw [List.append_assoc, List.cons_append, readDecimal_point (fun c hc => hds c (List.mem_of_mem_take hc))
      ?_ (fun c hc => hds c (List.mem_of_mem_drop hc)) hhead hexp, List.take_append_drop, hvalue,
      List.length_drop, hsize]
    · congr 3
      omega
    · intro hnil
      rw [← List.length_eq_zero_iff, List.length_take, hsize] at hnil
      omega

/-- **The text of a positive double is read as its shortest decimal.** -/
theorem readDecimal_positiveText (h : (shortest q).Normal) :
    readDecimal (positiveText q) = some (shortest q).value := by
  by_cases hplain : -6 < (shortest q).point ∧ (shortest q).point ≤ 21
  · obtain ⟨int, frac, htext, -, hvalue⟩ := positiveText_plain h hplain.1 hplain.2
    rw [htext.readDecimal, hvalue]
  · exact readDecimal_scientific h (by omega)

/-! ## 4. How long a text can be -/

/-- The digits before the point of a double, whose exponents have four digits at most. -/
theorem digitsBefore_bounds (hq : 0 < q) (hdouble : nearest q = q) (hmax : q ≤ 2 ^ 1024) :
    -1074 < digitsBefore q ∧ digitsBefore q ≤ 1025 := by
  obtain ⟨hlo, hhi⟩ := digitsBefore_spec hq
  obtain ⟨k, hk, -⟩ := exists_step hq
  obtain ⟨m, hm, hm1, -⟩ := hk.exists_mul hq hdouble
  constructor
  · have hleast : (2 : ℚ) ^ (-1074 : ℤ) ≤ q := by
      rw [hm]
      refine (pow2_le hk.least).trans (le_mul_of_one_le_left (pow2_pos k).le ?_)
      exact_mod_cast hm1
    have hten : ∀ n : ℕ, (10 : ℚ) ^ (-n : ℤ) ≤ 2 ^ (-n : ℤ) := by
      intro n
      rw [zpow_neg, zpow_neg, zpow_natCast, zpow_natCast]
      exact inv_anti₀ (by positivity) (pow_le_pow_left₀ (by norm_num) (by norm_num) n)
    exact pow10_lt_iff.mp (lt_of_le_of_lt ((hten 1074).trans hleast) hhi)
  · have hten : (2 : ℚ) ^ 1024 < 10 ^ (1025 : ℤ) := by
      rw [show (1025 : ℤ) = ((1025 : ℕ) : ℤ) from rfl, zpow_natCast]
      exact lt_of_le_of_lt (pow_le_pow_left₀ (by norm_num) (by norm_num) 1024)
        (pow_lt_pow_right₀ (by norm_num) (by norm_num))
    have := pow10_lt_iff.mp (lt_of_le_of_lt hlo (lt_of_le_of_lt hmax hten))
    omega

/-- **No text of a positive double is longer than 24 characters.** -/
theorem length_positiveText_le (hq : 0 < q) (hdouble : nearest q = q) (hmax : q ≤ 2 ^ 1024) :
    (positiveText q).length ≤ 24 := by
  obtain ⟨hlo, hhi⟩ := digitsBefore_bounds hq hdouble hmax
  obtain ⟨k, j, hk, hk17, hj, -⟩ := shortest_candidate hq hdouble
  obtain ⟨hcount, hpoint, hpoint', -⟩ := candidate_point (j := j) (n := digitsBefore q) hk
  have hnormal := shortest_normal hq hdouble
  have hsize : (Nat.toDigits 10 (shortest q).digits).length = (shortest q).count :=
    size_eq hnormal.digits_ge hnormal.digits_lt hnormal.count_pos
  rw [← hj] at hcount hpoint hpoint'
  have hexp : (Nat.toDigits 10 ((shortest q).point - 1).natAbs).length ≤ 4 :=
    (Nat.length_toDigits_le_iff (by omega) (by omega)).mpr (by omega)
  unfold positiveText
  dsimp only
  split
  · rw [List.length_append, List.length_replicate, hsize]
    omega
  split
  · rw [List.length_append, List.length_cons, List.length_take, List.length_drop, hsize]
    omega
  split
  · rw [List.length_cons, List.length_cons, List.length_append, List.length_replicate, hsize]
    omega
  · rw [List.length_append, List.length_cons, List.length_cons]
    have hmantissa : (if (shortest q).count = 1 then Nat.toDigits 10 (shortest q).digits
        else (Nat.toDigits 10 (shortest q).digits).take 1 ++
          '.' :: (Nat.toDigits 10 (shortest q).digits).drop 1).length ≤ 18 := by
      split
      · omega
      · rw [List.length_append, List.length_cons, List.length_take, List.length_drop, hsize]
        omega
    omega

/-! ## 5. Numbers that were read -/

/-- A double that is not too large to be finite. -/
structure IsFinite (q : ℚ) : Prop where
  isDouble : nearest q = q
  le : q ≤ 2 ^ 1024

theorem isFinite_zero : IsFinite 0 := ⟨nearest_zero, pow_nonneg (by norm_num) _⟩

theorem isFinite_of_ofRat {x : ℚ} (h : ofRat x = .finite q) : IsFinite q := by
  rw [ofRat] at h
  split at h
  · cases h
  rename_i hsmall
  obtain rfl : nearest x = q := Number.finite.inj h
  refine ⟨nearest_nearest x, ?_⟩
  have hle : x ≤ 1 * 2 ^ (1024 : ℤ) := by
    have hover : overflow ≤ (2 : ℚ) ^ 1024 := by
      rw [overflow, show (1024 : ℕ) = 54 + 970 from rfl, pow_add]
      exact mul_le_mul_of_nonneg_right (by norm_num) (pow_nonneg (by norm_num) _)
    rw [one_mul, show (1024 : ℤ) = ((1024 : ℕ) : ℤ) from rfl, zpow_natCast]
    exact (le_abs_self x).trans ((not_le.mp hsmall).le.trans hover)
  have hexact := nearest_mul_pow2 (m := 1) (k := 1024) (by norm_num) (by norm_num) (by norm_num)
  have hmono := nearest_mono hle
  rw [Int.cast_one] at hexact
  rw [hexact, one_mul] at hmono
  exact hmono.trans_eq (zpow_natCast 2 1024)

theorem isFinite_of_ofLiteral {negative : Bool} {cs : List Char}
    (h : ofLiteral negative cs = .finite q) : IsFinite q := by
  unfold ofLiteral at h
  split at h
  · cases h
  split at h
  · cases h
  · exact isFinite_of_ofRat h

/-- A finite number that was read is a double in range. -/
theorem isFinite_of_read {cs : List Char} (h : read cs = .finite q) : IsFinite q := by
  unfold read at h
  split at h
  · obtain rfl : 0 = q := Number.finite.inj h
    exact isFinite_zero
  · exact isFinite_of_ofLiteral h
  · exact isFinite_of_ofLiteral h
  unfold readUnsigned at h
  split at h
  · split at h
    · obtain ⟨n, hn⟩ : ∃ n : Option ℕ, (n.map fun n : ℕ => ofRat n).getD .nan = Number.finite q :=
        ⟨_, h⟩
      cases n with
      | none => cases hn
      | some n => exact isFinite_of_ofRat hn
    · exact isFinite_of_ofLiteral h
  · exact isFinite_of_ofLiteral h

/-- No number that is written without a sign is written with more than 24 characters. -/
theorem length_write_le (h : IsFinite q) (hsign : '-' ∉ (write (.finite q)).head?) :
    (write (.finite q)).length ≤ 24 := by
  rw [write] at hsign ⊢
  split
  · rename_i hwhole
    exact (Nat.length_toDigits_le_iff (by omega) (by omega)).mpr (by omega)
  rename_i hwhole
  rw [if_neg hwhole, text] at hsign
  rw [text]
  split
  · exact Nat.le_of_ble_eq_true rfl
  rename_i hzero
  rw [if_neg hzero] at hsign
  split
  · rename_i hpos
    exact length_positiveText_le hpos h.isDouble h.le
  · rename_i hneg
    rw [if_neg hneg] at hsign
    exact absurd rfl hsign

/-- **Only the number itself is written as a natural number is.** -/
theorem eq_of_write_toDigits {n : ℕ} (hn : n < 2 ^ 53) (hdouble : nearest q = q)
    (h : write (.finite q) = Nat.toDigits 10 n) : q = n := by
  have hall : ∀ c ∈ Nat.toDigits 10 n, JsText.isDigit c = true := fun c => isDigit_of_mem_toDigits
  have hvalue : readDecimal (Nat.toDigits 10 n) = some (n : ℚ) := by
    rw [readDecimal_digits Nat.toDigits_ne_nil hall, Nat.ofDigitChars_toDigits (by omega) (by omega)]
  rw [write] at h
  split at h
  · rename_i hwhole
    have hnat : q.num.toNat = n := by
      have := congrArg (fun cs => Nat.ofDigitChars 10 cs 0) h
      simpa only [Nat.ofDigitChars_ten_toDigits] using this
    rw [← Rat.num_div_den q, hwhole.1, ← hnat]
    push_cast
    rw [div_one]
    exact_mod_cast (Int.toNat_of_nonneg hwhole.2.1).symm
  rw [text] at h
  split at h
  · rename_i hzero
    have := congrArg (fun cs => Nat.ofDigitChars 10 cs 0) h
    simp only [Nat.ofDigitChars_ten_toDigits] at this
    rw [hzero, ← this]
    rfl
  split at h
  · rename_i hpos
    rw [← h, readDecimal_positiveText (shortest_normal hpos hdouble)] at hvalue
    have hreads := shortest_reads hpos hdouble
    rw [Option.some.inj hvalue, nearest_natCast hn] at hreads
    exact hreads.symm
  · exact absurd (hall '-' (h ▸ List.mem_cons_self)) (by decide)

end JsNumber
