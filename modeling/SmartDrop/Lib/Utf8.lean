/-
# UTF-8

`encode` gives the bytes of a text, and `decode` a text for any bytes, as `buffer.toString('utf8')`
does: bytes that begin no character, or a character that is broken off, are read as U+FFFD.
`decode_encode` says that what was encoded is read back.
-/
import Mathlib.Data.Nat.Notation

namespace Utf8

/-- `Buffer.from(text)`. -/
def encode (text : String) : List UInt8 := text.toList.flatMap String.utf8EncodeChar

/-! ## 1. Decoding -/

/-- A character that is being read: how many bytes will follow the next one, the bits so far, and
the bounds of the next byte. -/
structure Pending where
  more : ℕ
  point : ℕ
  lower : ℕ := 0x80
  upper : ℕ := 0xBF

/-- What is read for a byte that no character awaits: a text, or the beginning of a character. -/
def lead (b : ℕ) : List Char × Option Pending :=
  if b < 0x80 then ([Char.ofNat b], none)
  else if 0xC2 ≤ b ∧ b ≤ 0xDF then ([], some { more := 0, point := b - 0xC0 })
  else if 0xE0 ≤ b ∧ b ≤ 0xEF then
    ([], some {
      more := 1
      point := b - 0xE0
      lower := if b = 0xE0 then 0xA0 else 0x80
      upper := if b = 0xED then 0x9F else 0xBF })
  else if 0xF0 ≤ b ∧ b ≤ 0xF4 then
    ([], some {
      more := 2
      point := b - 0xF0
      lower := if b = 0xF0 then 0x90 else 0x80
      upper := if b = 0xF4 then 0x8F else 0xBF })
  else (['\uFFFD'], none)

/-- The text of the bytes that follow. -/
def decodeFrom : Option Pending → List UInt8 → List Char
  | none, [] => []
  | some _, [] => ['\uFFFD']
  | none, b :: bs => (lead b.toNat).1 ++ decodeFrom (lead b.toNat).2 bs
  | some p, b :: bs =>
    if p.lower ≤ b.toNat ∧ b.toNat ≤ p.upper then
      let point := p.point * 64 + (b.toNat - 0x80)
      match p.more with
      | 0 => Char.ofNat point :: decodeFrom none bs
      | more + 1 => decodeFrom (some { more, point }) bs
    else '\uFFFD' :: ((lead b.toNat).1 ++ decodeFrom (lead b.toNat).2 bs)

/-- `buffer.toString('utf8')`. -/
def decode (bytes : List UInt8) : String := String.ofList (decodeFrom none bytes)

/-! ## 2. What is encoded is read back -/

variable {b point : ℕ}

theorem toNat_ofNat (hb : b < 256) : (UInt8.ofNat b).toNat = b := by
  rw [UInt8.toNat_ofNat']
  exact Nat.mod_eq_of_lt hb

/-- A byte that begins a character. -/
theorem decodeFrom_lead {p : Pending} (hb : b < 256) (hlead : lead b = ([], some p))
    (bs : List UInt8) : decodeFrom none (UInt8.ofNat b :: bs) = decodeFrom (some p) bs := by
  rw [decodeFrom, toNat_ofNat hb, hlead, List.nil_append]

/-- A byte in the middle of a character. -/
theorem decodeFrom_more {more lower upper : ℕ} (hb : b < 256) (hlower : lower ≤ b)
    (hupper : b ≤ upper) (bs : List UInt8) :
    decodeFrom (some ⟨more + 1, point, lower, upper⟩) (UInt8.ofNat b :: bs) =
      decodeFrom (some { more, point := point * 64 + (b - 0x80) }) bs := by
  rw [decodeFrom, toNat_ofNat hb, if_pos ⟨hlower, hupper⟩]

/-- The last byte of a character. -/
theorem decodeFrom_last {lower upper : ℕ} (hb : b < 256) (hlower : lower ≤ b) (hupper : b ≤ upper)
    (bs : List UInt8) :
    decodeFrom (some ⟨0, point, lower, upper⟩) (UInt8.ofNat b :: bs) =
      Char.ofNat (point * 64 + (b - 0x80)) :: decodeFrom none bs := by
  rw [decodeFrom, toNat_ofNat hb, if_pos ⟨hlower, hupper⟩]

theorem lead_two (hlo : 0xC2 ≤ b) (hhi : b ≤ 0xDF) :
    lead b = ([], some { more := 0, point := b - 0xC0 }) := by
  rw [lead, if_neg (by omega), if_pos ⟨hlo, hhi⟩]

theorem lead_three (hlo : 0xE0 ≤ b) (hhi : b ≤ 0xEF) :
    lead b = ([], some ⟨1, b - 0xE0, if b = 0xE0 then 0xA0 else 0x80,
      if b = 0xED then 0x9F else 0xBF⟩) := by
  rw [lead, if_neg (by omega), if_neg (by omega), if_pos ⟨hlo, hhi⟩]

theorem lead_four (hlo : 0xF0 ≤ b) (hhi : b ≤ 0xF4) :
    lead b = ([], some ⟨2, b - 0xF0, if b = 0xF0 then 0x90 else 0x80,
      if b = 0xF4 then 0x8F else 0xBF⟩) := by
  rw [lead, if_neg (by omega), if_neg (by omega), if_neg (by omega), if_pos ⟨hlo, hhi⟩]

/-- A character is a scalar value. -/
theorem scalar (c : Char) :
    c.val.toNat < 0x110000 ∧ (c.val.toNat < 0xD800 ∨ 0xE000 ≤ c.val.toNat) := by
  have h := c.valid
  simp only [UInt32.isValidChar, Nat.isValidChar] at h
  omega

/-- **One character** is read back. -/
theorem decodeFrom_char (c : Char) (bs : List UInt8) :
    decodeFrom none (String.utf8EncodeChar c ++ bs) = c :: decodeFrom none bs := by
  obtain ⟨hmax, hscalar⟩ := scalar c
  have hback : Char.ofNat c.val.toNat = c := Char.ofNat_toNat c
  unfold String.utf8EncodeChar
  generalize c.val.toNat = v at hmax hscalar hback
  dsimp only
  split
  · -- one byte
    rw [List.singleton_append, decodeFrom, toNat_ofNat (by omega), lead, if_pos (by omega), hback]
    rfl
  split
  · -- two bytes
    rw [List.cons_append, List.singleton_append,
      decodeFrom_lead (by omega) (lead_two (by omega) (by omega)),
      decodeFrom_last (by omega) (by omega) (by omega)]
    rw [show (v / 64 % 32 + 192 - 192) * 64 + (v % 64 + 128 - 128) = v by omega, hback]
  split
  · -- three bytes: the second is bounded below for short ones, and above for surrogates
    have hlower : (if v / 4096 % 16 + 224 = 224 then 160 else 128) ≤ v / 64 % 64 + 128 := by
      split <;> omega
    have hupper : v / 64 % 64 + 128 ≤ if v / 4096 % 16 + 224 = 237 then 159 else 191 := by
      split <;> omega
    rw [List.cons_append, List.cons_append, List.singleton_append,
      decodeFrom_lead (by omega) (lead_three (by omega) (by omega)),
      decodeFrom_more (by omega) hlower hupper, decodeFrom_last (by omega) (by omega) (by omega)]
    rw [show ((v / 4096 % 16 + 224 - 224) * 64 + (v / 64 % 64 + 128 - 128)) * 64 +
      (v % 64 + 128 - 128) = v by omega, hback]
  · -- four bytes
    have hlower : (if v / 262144 % 8 + 240 = 240 then 144 else 128) ≤ v / 4096 % 64 + 128 := by
      split <;> omega
    have hupper : v / 4096 % 64 + 128 ≤ if v / 262144 % 8 + 240 = 244 then 143 else 191 := by
      split <;> omega
    rw [List.cons_append, List.cons_append, List.cons_append, List.singleton_append,
      decodeFrom_lead (by omega) (lead_four (by omega) (by omega)),
      decodeFrom_more (by omega) hlower hupper, decodeFrom_more (by omega) (by omega) (by omega),
      decodeFrom_last (by omega) (by omega) (by omega)]
    rw [show (((v / 262144 % 8 + 240 - 240) * 64 + (v / 4096 % 64 + 128 - 128)) * 64 +
      (v / 64 % 64 + 128 - 128)) * 64 + (v % 64 + 128 - 128) = v by omega, hback]

/-- **Round trip.** -/
@[simp] theorem decode_encode (text : String) : decode (encode text) = text := by
  have hchars : ∀ cs : List Char, decodeFrom none (cs.flatMap String.utf8EncodeChar) = cs := by
    intro cs
    induction cs with
    | nil => rfl
    | cons c cs ih => rw [List.flatMap_cons, decodeFrom_char, ih]
  rw [decode, encode, hchars, String.ofList_toList]

end Utf8
