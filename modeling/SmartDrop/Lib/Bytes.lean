/-
# Bytes as text

The two text forms of a buffer: hexadecimal and base64.  Reading is as lenient as `Buffer.from`
is: hexadecimal text is read up to the first pair that is none, and base64 text up to its
padding, whatever is not a base64 character being passed over.
-/
import Mathlib.Data.Bool.AllAny
import SmartDrop.Lib.Json

namespace Bytes

open JsonText

/-! ## 1. Hexadecimal -/

/-- `buffer.toString('hex')`. -/
def hex (bytes : List UInt8) : List Char :=
  bytes.flatMap fun b => [hexDigit (b.toNat / 16), hexDigit (b.toNat % 16)]

/-- `Buffer.from(text, 'hex')`. -/
def ofHex : List Char → List UInt8
  | a :: b :: cs =>
    match hexValue a, hexValue b with
    | some x, some y => UInt8.ofNat (16 * x + y) :: ofHex cs
    | _, _ => []
  | _ => []

/-- Each of the sixteen digits is read back. -/
theorem hexValue_digit : ∀ n < 16, hexValue (hexDigit n) = some n := by decide

/-- What is written in hexadecimal is read back. -/
theorem ofHex_hex (bytes : List UInt8) : ofHex (hex bytes) = bytes := by
  induction bytes with
  | nil => rfl
  | cons b bytes ih =>
    have hlt : b.toNat < 256 := b.toNat_lt
    have hcons : hex (b :: bytes) = hexDigit (b.toNat / 16) :: hexDigit (b.toNat % 16) ::
      hex bytes := rfl
    rw [hcons, ofHex, hexValue_digit _ (by omega), hexValue_digit _ (by omega)]
    simp only [ih, List.cons.injEq, and_true]
    rw [Nat.div_add_mod, UInt8.ofNat_toNat]

/-- A character that no hexadecimal digit is does not occur in hexadecimal text. -/
theorem not_mem_hex {c : Char} (h : ∀ n < 16, hexDigit n ≠ c) (bytes : List UInt8) :
    c ∉ hex bytes := by
  intro hc
  obtain ⟨b, -, hb⟩ := List.mem_flatMap.mp hc
  have hlt : b.toNat < 256 := b.toNat_lt
  rcases List.mem_cons.mp hb with rfl | hb
  · exact h _ (by omega) rfl
  · rw [List.mem_singleton] at hb
    exact h _ (by omega) hb.symm

theorem length_hex (bytes : List UInt8) : (hex bytes).length = 2 * bytes.length := by
  induction bytes with
  | nil => rfl
  | cons b bytes ih =>
    change (hex bytes).length + 2 = _
    rw [ih, List.length_cons]
    omega

theorem hex_eq_nil {bytes : List UInt8} : hex bytes = [] ↔ bytes = [] := by
  cases bytes <;> simp [hex]

/-! ## 2. Base64 -/

/-- The characters of base64, in the order of their values. -/
def alphabet : List Char :=
  "ABCDEFGHIJKLMNOPQRSTUVWXYZabcdefghijklmnopqrstuvwxyz0123456789+/".toList

/-- The character of a value below 64. -/
def base64Digit (n : ℕ) : Char := alphabet.getD n '='

/-- `buffer.toString('base64')`. -/
def base64 : List UInt8 → List Char
  | [] => []
  | [a] =>
    let n := a.toNat * 16
    [base64Digit (n / 64), base64Digit (n % 64), '=', '=']
  | [a, b] =>
    let n := (a.toNat * 256 + b.toNat) * 4
    [base64Digit (n / 4096), base64Digit (n / 64 % 64), base64Digit (n % 64), '=']
  | a :: b :: c :: rest =>
    let n := (a.toNat * 256 + b.toNat) * 256 + c.toNat
    base64Digit (n / 262144) :: base64Digit (n / 4096 % 64) :: base64Digit (n / 64 % 64) ::
      base64Digit (n % 64) :: base64 rest

/-- The value of a base64 character, of the URL-safe alphabet as well. -/
def base64Value (c : Char) : Option ℕ :=
  if c = '-' then some 62
  else if c = '_' then some 63
  else alphabet.idxOf? c

/-- The bytes of a list of base64 values; a single last value is dropped. -/
def ofSextets : List ℕ → List UInt8
  | a :: b :: c :: d :: rest =>
    UInt8.ofNat (a * 4 + b / 16) :: UInt8.ofNat (b % 16 * 16 + c / 4) ::
      UInt8.ofNat (c % 4 * 64 + d) :: ofSextets rest
  | [a, b, c] => [UInt8.ofNat (a * 4 + b / 16), UInt8.ofNat (b % 16 * 16 + c / 4)]
  | [a, b] => [UInt8.ofNat (a * 4 + b / 16)]
  | _ => []

/-- `Buffer.from(text, 'base64')`. -/
def ofBase64 (text : List Char) : List UInt8 :=
  ofSextets ((text.takeWhile (· ≠ '=')).filterMap base64Value)

-- Lean evaluates a string much more slowly than a list of characters.
theorem alphabet_eq : alphabet =
    ['A', 'B', 'C', 'D', 'E', 'F', 'G', 'H', 'I', 'J', 'K', 'L', 'M', 'N', 'O', 'P', 'Q', 'R', 'S',
      'T', 'U', 'V', 'W', 'X', 'Y', 'Z', 'a', 'b', 'c', 'd', 'e', 'f', 'g', 'h', 'i', 'j', 'k', 'l',
      'm', 'n', 'o', 'p', 'q', 'r', 's', 't', 'u', 'v', 'w', 'x', 'y', 'z', '0', '1', '2', '3', '4',
      '5', '6', '7', '8', '9', '+', '/'] :=
  String.toList_ofList

theorem length_alphabet : alphabet.length = 64 := by
  rw [alphabet_eq]
  rfl

theorem nodup_alphabet : alphabet.Nodup := by
  refine List.Nodup.of_map Char.toNat ?_
  have hcodes : alphabet.map Char.toNat =
      List.range' 65 26 ++ (List.range' 97 26 ++ (List.range' 48 10 ++ [43, 47])) := by
    rw [alphabet_eq]
    decide
  rw [hcodes]
  have hranges (start count : ℕ) : (List.range' start count).Nodup := List.nodup_range'
  have hletters : (List.range' 97 26 ++ (List.range' 48 10 ++ [43, 47])).Nodup := by
    refine (hranges 97 26).append ((hranges 48 10).append (by decide) ?_) ?_
    · simp
    · simp [List.disjoint_left]
      omega
  refine (hranges 65 26).append hletters ?_
  simp [List.disjoint_left]
  omega

/-- The characters are in ASCII, and neither the padding nor those of the URL-safe alphabet. -/
theorem alphabet_plain : ∀ c ∈ alphabet, c ≠ '-' ∧ c ≠ '_' ∧ c ≠ '=' ∧ c.toNat < 128 := by
  rw [alphabet_eq, ← List.all_iff_forall_prop]
  decide +kernel

theorem base64Digit_eq {n : ℕ} (h : n < alphabet.length) : base64Digit n = alphabet[n] :=
  (List.getElem_eq_getD '=').symm

theorem base64Digit_mem {n : ℕ} (h : n < 64) : base64Digit n ∈ alphabet := by
  rw [base64Digit_eq (by rwa [length_alphabet])]
  exact List.getElem_mem _

/-- Each of the sixty-four digits is read back. -/
theorem base64Value_digit (n : ℕ) (h : n < 64) : base64Value (base64Digit n) = some n := by
  obtain ⟨hminus, hunderscore, -⟩ := alphabet_plain _ (base64Digit_mem h)
  have hlt : n < alphabet.length := by rwa [length_alphabet]
  rw [base64Value, if_neg hminus, if_neg hunderscore, base64Digit_eq hlt]
  refine List.idxOf?_eq_some_iff.mpr ⟨hlt, rfl, fun j hj he => ?_⟩
  exact absurd (nodup_alphabet.getElem_inj_iff.mp he) (by omega)

theorem base64Digit_ne_pad (n : ℕ) (h : n < 64) : base64Digit n ≠ '=' :=
  (alphabet_plain _ (base64Digit_mem h)).2.2.1

theorem base64Value_minus : base64Value '-' = base64Value '+' := by
  simp only [base64Value, alphabet_eq]
  decide

theorem base64Value_underscore : base64Value '_' = base64Value '/' := by
  simp only [base64Value, alphabet_eq]
  decide

/-- The values of the base64 characters of a buffer. -/
def sextets : List UInt8 → List ℕ
  | [] => []
  | [a] => [a.toNat / 4, a.toNat % 4 * 16]
  | [a, b] => [a.toNat / 4, a.toNat % 4 * 16 + b.toNat / 16, b.toNat % 16 * 4]
  | a :: b :: c :: rest =>
    a.toNat / 4 :: (a.toNat % 4 * 16 + b.toNat / 16) :: (b.toNat % 16 * 4 + c.toNat / 64) ::
      c.toNat % 64 :: sextets rest

theorem sextets_lt (bytes : List UInt8) : ∀ n ∈ sextets bytes, n < 64 := by
  fun_induction sextets bytes with
  | case1 => simp
  | case2 a =>
    have ha : a.toNat < 256 := a.toNat_lt
    simp only [List.mem_cons, List.not_mem_nil, or_false, forall_eq_or_imp, forall_eq]
    omega
  | case3 a b =>
    have ha : a.toNat < 256 := a.toNat_lt
    have hb : b.toNat < 256 := b.toNat_lt
    simp only [List.mem_cons, List.not_mem_nil, or_false, forall_eq_or_imp, forall_eq]
    omega
  | case4 a b c rest ih =>
    have ha : a.toNat < 256 := a.toNat_lt
    have hb : b.toNat < 256 := b.toNat_lt
    have hc : c.toNat < 256 := c.toNat_lt
    simp only [List.mem_cons, forall_eq_or_imp]
    exact ⟨by omega, by omega, by omega, by omega, ih⟩

theorem ofSextets_sextets (bytes : List UInt8) : ofSextets (sextets bytes) = bytes := by
  fun_induction sextets bytes with
  | case1 => rfl
  | case2 a =>
    have ha : a.toNat < 256 := a.toNat_lt
    have h : a.toNat / 4 * 4 + a.toNat % 4 * 16 / 16 = a.toNat := by omega
    simp only [ofSextets, h, UInt8.ofNat_toNat]
  | case3 a b =>
    have ha : a.toNat < 256 := a.toNat_lt
    have hb : b.toNat < 256 := b.toNat_lt
    have h₁ : a.toNat / 4 * 4 + (a.toNat % 4 * 16 + b.toNat / 16) / 16 = a.toNat := by omega
    have h₂ : (a.toNat % 4 * 16 + b.toNat / 16) % 16 * 16 + b.toNat % 16 * 4 / 4 = b.toNat := by
      omega
    simp only [ofSextets, h₁, h₂, UInt8.ofNat_toNat]
  | case4 a b c rest ih =>
    have ha : a.toNat < 256 := a.toNat_lt
    have hb : b.toNat < 256 := b.toNat_lt
    have hc : c.toNat < 256 := c.toNat_lt
    have h₁ : a.toNat / 4 * 4 + (a.toNat % 4 * 16 + b.toNat / 16) / 16 = a.toNat := by omega
    have h₂ : (a.toNat % 4 * 16 + b.toNat / 16) % 16 * 16 + (b.toNat % 16 * 4 + c.toNat / 64) / 4 =
      b.toNat := by omega
    have h₃ : (b.toNat % 16 * 4 + c.toNat / 64) % 4 * 64 + c.toNat % 64 = c.toNat := by omega
    simp only [ofSextets, h₁, h₂, h₃, UInt8.ofNat_toNat, ih]

/-- Base64 text is the digits of the sextets, padded. -/
theorem base64_eq (bytes : List UInt8) :
    ∃ k, base64 bytes = (sextets bytes).map base64Digit ++ List.replicate k '=' := by
  fun_induction base64 bytes with
  | case1 => exact ⟨0, rfl⟩
  | case2 a n =>
    have ha : a.toNat < 256 := a.toNat_lt
    refine ⟨2, ?_⟩
    simp only [sextets, List.map_cons, List.map_nil, n]
    rw [show a.toNat * 16 / 64 = a.toNat / 4 by omega,
      show a.toNat * 16 % 64 = a.toNat % 4 * 16 by omega]
    rfl
  | case3 a b n =>
    have ha : a.toNat < 256 := a.toNat_lt
    have hb : b.toNat < 256 := b.toNat_lt
    refine ⟨1, ?_⟩
    simp only [sextets, List.map_cons, List.map_nil, n]
    rw [show (a.toNat * 256 + b.toNat) * 4 / 4096 = a.toNat / 4 by omega,
      show (a.toNat * 256 + b.toNat) * 4 / 64 % 64 = a.toNat % 4 * 16 + b.toNat / 16 by omega,
      show (a.toNat * 256 + b.toNat) * 4 % 64 = b.toNat % 16 * 4 by omega]
    rfl
  | case4 a b c rest n ih =>
    have ha : a.toNat < 256 := a.toNat_lt
    have hb : b.toNat < 256 := b.toNat_lt
    have hc : c.toNat < 256 := c.toNat_lt
    obtain ⟨k, hk⟩ := ih
    refine ⟨k, ?_⟩
    simp only [sextets, List.map_cons, List.cons_append, n]
    rw [show ((a.toNat * 256 + b.toNat) * 256 + c.toNat) / 262144 = a.toNat / 4 by omega,
      show ((a.toNat * 256 + b.toNat) * 256 + c.toNat) / 4096 % 64 =
        a.toNat % 4 * 16 + b.toNat / 16 by omega,
      show ((a.toNat * 256 + b.toNat) * 256 + c.toNat) / 64 % 64 =
        b.toNat % 16 * 4 + c.toNat / 64 by omega,
      show ((a.toNat * 256 + b.toNat) * 256 + c.toNat) % 64 = c.toNat % 64 by omega, hk]

/-- Base64 digits and padding are read as the values of the digits. -/
theorem ofBase64_digits {ns : List ℕ} (hns : ∀ n ∈ ns, n < 64) (k : ℕ) :
    ofBase64 (ns.map base64Digit ++ List.replicate k '=') = ofSextets ns := by
  rw [ofBase64]
  congr 1
  induction ns with
  | nil => cases k <;> simp [List.replicate_succ]
  | cons n ns ih =>
    have hn : n < 64 := hns n List.mem_cons_self
    have hrest := ih fun m hm => hns m (List.mem_cons_of_mem _ hm)
    simpa [base64Digit_ne_pad n hn, base64Value_digit n hn] using hrest

/-- What is written in base64 is read back. -/
theorem ofBase64_base64 (bytes : List UInt8) : ofBase64 (base64 bytes) = bytes := by
  obtain ⟨k, hk⟩ := base64_eq bytes
  rw [hk, ofBase64_digits (sextets_lt bytes), ofSextets_sextets]

/-- `buffer.toString('base64url')`. -/
def base64url (bytes : List UInt8) : List Char :=
  ((base64 bytes).filter (· ≠ '=')).map fun c => if c = '+' then '-' else if c = '/' then '_' else c

/-- Each digit is read back in the URL-safe alphabet too. -/
theorem base64Value_urlDigit (n : ℕ) (h : n < 64) :
    (if base64Digit n = '+' then '-' else if base64Digit n = '/' then '_' else base64Digit n) ≠ '=' ∧
      base64Value (if base64Digit n = '+' then '-' else if base64Digit n = '/' then '_' else base64Digit n) =
        some n := by
  have hn := base64Value_digit n h
  split
  · rename_i hplus
    rw [hplus] at hn
    exact ⟨by decide, hn ▸ base64Value_minus⟩
  · split
    · rename_i hslash
      rw [hslash] at hn
      exact ⟨by decide, hn ▸ base64Value_underscore⟩
    · exact ⟨base64Digit_ne_pad n h, hn⟩

/-- What is written in base64url is read back. -/
theorem ofBase64_base64url (bytes : List UInt8) : ofBase64 (base64url bytes) = bytes := by
  obtain ⟨k, hk⟩ := base64_eq bytes
  have hdigits : (base64 bytes).filter (· ≠ '=') = (sextets bytes).map base64Digit := by
    rw [hk, List.filter_append, List.filter_replicate_of_neg (by decide), List.append_nil]
    refine List.filter_eq_self.mpr fun c hc => ?_
    obtain ⟨n, hn, rfl⟩ := List.mem_map.mp hc
    exact decide_eq_true (base64Digit_ne_pad n (sextets_lt bytes n hn))
  have hread : ∀ ns : List ℕ, (∀ n ∈ ns, n < 64) →
      ofBase64 ((ns.map base64Digit).map fun c => if c = '+' then '-' else if c = '/' then '_' else c) =
        ofSextets ns := by
    intro ns hns
    rw [ofBase64]
    congr 1
    induction ns with
    | nil => rfl
    | cons n ns ih =>
      obtain ⟨hpad, hvalue⟩ := base64Value_urlDigit n (hns n List.mem_cons_self)
      rw [List.map_cons, List.map_cons, List.takeWhile_cons, if_pos (decide_eq_true hpad),
        List.filterMap_cons_some hvalue, ih fun m hm => hns m (List.mem_cons_of_mem _ hm)]
  rw [base64url, hdigits, hread _ (sextets_lt bytes), ofSextets_sextets]

/-- A character that no base64 digit is, nor the padding, does not occur in base64 text. -/
theorem not_mem_base64 {c : Char} (h : c ∉ alphabet) (hpad : c ≠ '=')
    (bytes : List UInt8) : c ∉ base64 bytes := by
  intro hc
  obtain ⟨k, hk⟩ := base64_eq bytes
  rw [hk, List.mem_append] at hc
  rcases hc with hc | hc
  · obtain ⟨n, hn, rfl⟩ := List.mem_map.mp hc
    exact h (base64Digit_mem (sextets_lt bytes n hn))
  · exact hpad (List.eq_of_mem_replicate hc)

end Bytes
