/-
# UTF-16 and percent encoding

A JavaScript string is a list of code units, and not every one is a text: half of a surrogate
pair may stand alone.  `codePoints` reads the characters, and `codePoints_eq_some` says that it
reads exactly the texts.  `encodeURIComponent` writes a text with percent signs, and
`percentDecode_encodeChars` says that the bytes of the text are read back.
-/
import SmartDrop.Lib.JsText
import SmartDrop.Lib.Json
import SmartDrop.Lib.Utf8

namespace Utf16

/-! ## 1. Code units -/

/-- The code units of a character: one, or a surrogate pair. -/
def unitsOfChar (c : Char) : List UInt16 :=
  if c.toNat < 0x10000 then [UInt16.ofNat c.toNat]
  else
    [UInt16.ofNat (0xD800 + (c.toNat - 0x10000) / 0x400),
      UInt16.ofNat (0xDC00 + (c.toNat - 0x10000) % 0x400)]

/-- The code units of a text. -/
def units (text : List Char) : List UInt16 := text.flatMap unitsOfChar

/-- A code unit that is half of a pair. -/
def isSurrogate (u : UInt16) : Bool := 0xD800 ≤ u.toNat && u.toNat < 0xE000

/-- The first half. -/
def isLeading (u : UInt16) : Bool := 0xD800 ≤ u.toNat && u.toNat < 0xDC00

/-- The second half. -/
def isTrailing (u : UInt16) : Bool := 0xDC00 ≤ u.toNat && u.toNat < 0xE000

/-- The character of a code unit that is no half. -/
def single (u : UInt16) : Char := Char.ofNat u.toNat

/-- The character of a pair. -/
def pair (u v : UInt16) : Char :=
  Char.ofNat (0x10000 + (u.toNat - 0xD800) * 0x400 + (v.toNat - 0xDC00))

/-- The characters of a string; none when half of a pair stands alone. -/
def codePoints : List UInt16 → Option (List Char)
  | [] => some []
  | [u] => if isSurrogate u then none else some [single u]
  | u :: v :: us =>
    if isSurrogate u then
      if isLeading u && isTrailing v then (codePoints us).map (pair u v :: ·) else none
    else (codePoints (v :: us)).map (single u :: ·)

@[simp] theorem units_nil : units [] = [] := rfl

@[simp] theorem units_cons (c : Char) (text : List Char) :
    units (c :: text) = unitsOfChar c ++ units text := List.flatMap_cons

/-! ## 2. What is read is the text -/

theorem toNat_ofNat {n : ℕ} (h : n < 0x10000) : (UInt16.ofNat n).toNat = n := by
  rw [UInt16.toNat_ofNat']
  exact Nat.mod_eq_of_lt h

theorem char_toNat {n : ℕ} (h : n < 0xD800 ∨ 0xE000 ≤ n ∧ n < 0x110000) :
    (Char.ofNat n).toNat = n := by
  have hvalid : n.isValidChar := by
    simp only [Nat.isValidChar]
    omega
  rw [Char.ofNat, dif_pos hvalid]
  rfl

/-- A code unit that is no half is a character. -/
theorem toNat_single {u : UInt16} (h : isSurrogate u = false) : (single u).toNat = u.toNat := by
  have hlt : u.toNat < 0x10000 := u.toNat_lt
  simp only [isSurrogate, Bool.and_eq_false_iff, decide_eq_false_iff_not] at h
  exact char_toNat (by omega)

theorem unitsOfChar_single {u : UInt16} (h : isSurrogate u = false) :
    unitsOfChar (single u) = [u] := by
  have hlt : u.toNat < 0x10000 := u.toNat_lt
  rw [unitsOfChar, toNat_single h, if_pos hlt, UInt16.ofNat_toNat]

theorem toNat_pair {u v : UInt16} (hu : isLeading u = true) (hv : isTrailing v = true) :
    (pair u v).toNat = 0x10000 + (u.toNat - 0xD800) * 0x400 + (v.toNat - 0xDC00) := by
  simp only [isLeading, isTrailing, Bool.and_eq_true, decide_eq_true_eq] at hu hv
  exact char_toNat (by omega)

theorem unitsOfChar_pair {u v : UInt16} (hu : isLeading u = true) (hv : isTrailing v = true) :
    unitsOfChar (pair u v) = [u, v] := by
  rw [unitsOfChar, toNat_pair hu hv, if_neg (by omega)]
  simp only [isLeading, isTrailing, Bool.and_eq_true, decide_eq_true_eq] at hu hv
  rw [show 0xD800 + (0x10000 + (u.toNat - 0xD800) * 0x400 + (v.toNat - 0xDC00) - 0x10000) / 0x400 =
    u.toNat by omega,
    show 0xDC00 + (0x10000 + (u.toNat - 0xD800) * 0x400 + (v.toNat - 0xDC00) - 0x10000) % 0x400 =
    v.toNat by omega, UInt16.ofNat_toNat, UInt16.ofNat_toNat]

/-- What is read has the code units it was read from. -/
theorem units_of_codePoints {us : List UInt16} {text : List Char}
    (h : codePoints us = some text) : units text = us := by
  induction us using codePoints.induct generalizing text with
  | case1 =>
    cases h
    rfl
  | case2 u hu =>
    rw [codePoints, if_pos hu] at h
    cases h
  | case3 u hu =>
    rw [codePoints, if_neg hu, Option.some.injEq] at h
    rw [← h, units_cons, unitsOfChar_single (Bool.eq_false_iff.mpr hu)]
    rfl
  | case4 u v us hu hpair ih =>
    rw [codePoints, if_pos hu, if_pos hpair] at h
    obtain ⟨rest, hrest, rfl⟩ := Option.map_eq_some_iff.mp h
    rw [Bool.and_eq_true] at hpair
    rw [units_cons, unitsOfChar_pair hpair.1 hpair.2, ih hrest]
    rfl
  | case5 u v us hu hpair =>
    rw [codePoints, if_pos hu, if_neg hpair] at h
    cases h
  | case6 u v us hu ih =>
    rw [codePoints, if_neg hu] at h
    obtain ⟨rest, hrest, rfl⟩ := Option.map_eq_some_iff.mp h
    rw [units_cons, unitsOfChar_single (Bool.eq_false_iff.mpr hu), ih hrest]
    rfl

theorem codePoints_single {u : UInt16} (hu : isSurrogate u = false) (us : List UInt16) :
    codePoints (u :: us) = (codePoints us).map (single u :: ·) := by
  cases us with
  | nil => simp only [codePoints, hu, Bool.false_eq_true, if_false, Option.map_some]
  | cons v us => simp only [codePoints, hu, Bool.false_eq_true, if_false]

theorem codePoints_char (c : Char) (us : List UInt16) :
    codePoints (unitsOfChar c ++ us) = (codePoints us).map (c :: ·) := by
  obtain ⟨hmax, hscalar⟩ := Utf8.scalar c
  have hmax' : c.toNat < 0x110000 := hmax
  have hscalar' : c.toNat < 0xD800 ∨ 0xE000 ≤ c.toNat := hscalar
  rw [unitsOfChar]
  split
  · rename_i hlt
    have hnat := toNat_ofNat hlt
    have hu : isSurrogate (UInt16.ofNat c.toNat) = false := by
      simp only [isSurrogate, hnat, Bool.and_eq_false_iff, decide_eq_false_iff_not]
      omega
    rw [List.singleton_append, codePoints_single hu, single, hnat, Char.ofNat_toNat]
  · rename_i hge
    have hu : (UInt16.ofNat (0xD800 + (c.toNat - 0x10000) / 0x400)).toNat =
        0xD800 + (c.toNat - 0x10000) / 0x400 := toNat_ofNat (by omega)
    have hv : (UInt16.ofNat (0xDC00 + (c.toNat - 0x10000) % 0x400)).toNat =
        0xDC00 + (c.toNat - 0x10000) % 0x400 := toNat_ofNat (by omega)
    rw [List.cons_append, List.singleton_append, codePoints, if_pos, if_pos, pair, hu, hv,
      show 0x10000 + (0xD800 + (c.toNat - 0x10000) / 0x400 - 0xD800) * 0x400 +
        (0xDC00 + (c.toNat - 0x10000) % 0x400 - 0xDC00) = c.toNat by omega, Char.ofNat_toNat]
    · simp only [isLeading, isTrailing, hu, hv, Bool.and_eq_true, decide_eq_true_eq]
      omega
    · simp only [isSurrogate, hu, Bool.and_eq_true, decide_eq_true_eq]
      omega

/-- A text is read. -/
@[simp] theorem codePoints_units (text : List Char) : codePoints (units text) = some text := by
  induction text with
  | nil => rfl
  | cons c text ih => rw [units_cons, codePoints_char, ih, Option.map_some]

/-- **Exactly the texts are read.** -/
theorem codePoints_eq_some {us : List UInt16} {text : List Char} :
    codePoints us = some text ↔ units text = us := by
  constructor
  · exact units_of_codePoints
  · rintro rfl
    exact codePoints_units text

/-- A character of one code unit, no half of a pair, is in a text when its code unit is. -/
theorem mem_units {c : Char} (hc : c.toNat < 0xD800) {text : List Char} :
    UInt16.ofNat c.toNat ∈ units text ↔ c ∈ text := by
  have hchar (d : Char) : UInt16.ofNat c.toNat ∈ unitsOfChar d ↔ c = d := by
    have hmax : d.toNat < 0x110000 := (Utf8.scalar d).1
    have hnat := toNat_ofNat (n := c.toNat) (by omega)
    constructor
    · intro h
      rw [unitsOfChar] at h
      split at h
      · rename_i hlt
        have heq := congrArg UInt16.toNat (List.mem_singleton.mp h)
        rw [hnat, toNat_ofNat hlt] at heq
        exact Char.toNat_inj.mp heq
      · -- the halves of a pair are above every such character
        simp only [List.mem_cons, List.not_mem_nil, or_false] at h
        rcases h with h | h <;>
        · have heq := congrArg UInt16.toNat h
          rw [hnat, toNat_ofNat (by omega)] at heq
          omega
    · rintro rfl
      rw [unitsOfChar, if_pos (by omega)]
      exact List.mem_singleton_self _
  induction text with
  | nil => simp only [units_nil, List.not_mem_nil]
  | cons d text ih =>
    rw [units_cons, List.mem_append, hchar, List.mem_cons]
    exact or_congr_right ih

end Utf16

namespace UriText

open JsonText

/-! ## 3. Percent encoding -/

/-- A letter, a digit or one of `-_.!~*'()`: what is written as it is. -/
def isUnreserved (c : Char) : Bool :=
  JsText.isUpper c || JsText.isLower c || JsText.isDigit c ||
    ['-', '_', '.', '!', '~', '*', Char.ofNat 0x27, '(', ')'].contains c

/-- A byte as a percent sign and two digits. -/
def escapeByte (b : UInt8) : List Char :=
  ['%', JsText.upper (hexDigit (b.toNat / 16)), JsText.upper (hexDigit (b.toNat % 16))]

/-- One character of a component. -/
def encodeChar (c : Char) : List Char :=
  if isUnreserved c then [c] else (String.utf8EncodeChar c).flatMap escapeByte

/-- `encodeURIComponent(text)`; it throws when half of a surrogate pair stands alone. -/
def encodeURIComponent (us : List UInt16) : Option (List Char) :=
  (Utf16.codePoints us).map fun text => text.flatMap encodeChar

/-- The bytes that a component stands for. -/
def percentDecode : List Char → List UInt8
  | [] => []
  | '%' :: a :: b :: cs =>
    match hexValue a, hexValue b with
    | some x, some y => UInt8.ofNat (16 * x + y) :: percentDecode cs
    | _, _ => 0x25 :: percentDecode (a :: b :: cs)
  | c :: cs => String.utf8EncodeChar c ++ percentDecode cs

/-! ## 4. What is encoded is read back -/

theorem hexValue_upper : ∀ n < 16, hexValue (JsText.upper (hexDigit n)) = some n := by decide

theorem percentDecode_escapeByte (b : UInt8) (cs : List Char) :
    percentDecode (escapeByte b ++ cs) = b :: percentDecode cs := by
  have hlt : b.toNat < 256 := b.toNat_lt
  rw [escapeByte, List.cons_append, List.cons_append, List.cons_append, List.nil_append,
    percentDecode, hexValue_upper _ (by omega), hexValue_upper _ (by omega)]
  simp only [Nat.div_add_mod, UInt8.ofNat_toNat]

theorem percentDecode_escapeBytes (bytes : List UInt8) (cs : List Char) :
    percentDecode (bytes.flatMap escapeByte ++ cs) = bytes ++ percentDecode cs := by
  induction bytes with
  | nil => rfl
  | cons b bytes ih =>
    rw [List.flatMap_cons, List.append_assoc, percentDecode_escapeByte, ih, List.cons_append]

/-- Whatever is no percent sign stands for itself. -/
theorem percentDecode_cons {c : Char} (hc : c ≠ '%') (cs : List Char) :
    percentDecode (c :: cs) = String.utf8EncodeChar c ++ percentDecode cs := by
  rw [percentDecode]
  intro a b ds h
  exact absurd h hc

theorem percentDecode_encodeChar (c : Char) (cs : List Char) :
    percentDecode (encodeChar c ++ cs) = String.utf8EncodeChar c ++ percentDecode cs := by
  rw [encodeChar]
  split
  · rename_i h
    have hc : c ≠ '%' := by
      rintro rfl
      exact absurd h (by decide)
    exact percentDecode_cons hc cs
  · exact percentDecode_escapeBytes _ cs

/-- **Round trip.** -/
theorem percentDecode_encodeChars (text : List Char) :
    percentDecode (text.flatMap encodeChar) = text.flatMap String.utf8EncodeChar := by
  induction text with
  | nil => rfl
  | cons c text ih => rw [List.flatMap_cons, percentDecode_encodeChar, ih, List.flatMap_cons]

/-! ## 5. The characters it writes -/

/-- A character that is neither written as it is nor part of an escaped byte is not written. -/
theorem not_mem_encodeChars {c : Char} (hreserved : isUnreserved c = false) (hpercent : c ≠ '%')
    (hdigit : ∀ n < 16, JsText.upper (hexDigit n) ≠ c) (text : List Char) :
    c ∉ text.flatMap encodeChar := by
  intro hc
  obtain ⟨d, -, hd⟩ := List.mem_flatMap.mp hc
  rw [encodeChar] at hd
  split at hd
  · rename_i h
    rw [← List.mem_singleton.mp hd, hreserved] at h
    cases h
  · obtain ⟨b, -, hb⟩ := List.mem_flatMap.mp hd
    have hlt : b.toNat < 256 := b.toNat_lt
    simp only [escapeByte, List.mem_cons, List.not_mem_nil, or_false] at hb
    rcases hb with hb | hb | hb
    · exact hpercent hb
    · exact hdigit _ (by omega) hb.symm
    · exact hdigit _ (by omega) hb.symm

end UriText
