/-
# `parse` reads back what `stringify` wrote

`parse_stringify` is proved from the inside out: one character of a string literal
(`readString_quoteChar`), a whole literal, a number literal, and then values, arrays and
objects together, by recursion on the value (`readValue_write`).  A number literal ends where
no numeric character follows, so each statement says what may come next.

`parse_eq_none_of_head` is the other fact used later: a text that starts with a letter other
than those of `null`, `true` and `false` is refused.
-/
import SmartDrop.Lib.Json

namespace JsonText

/-! ## 1. String literals -/

/-- The sixteen hexadecimal digits are read back. -/
theorem hexValue_hexDigit : ∀ n < 16, hexValue (hexDigit n) = some n := by decide

/-- `\u00xy` names the code unit `16 x + y`. -/
theorem hex4_low {n : ℕ} (h : n < 32) :
    hex4 '0' '0' (hexDigit (n / 16)) (hexDigit (n % 16)) = some n := by
  have h0 : hexValue '0' = some 0 := by decide
  have h1 := hexValue_hexDigit (n / 16) (by omega)
  have h2 := hexValue_hexDigit (n % 16) (by omega)
  simp only [hex4, h0, h1, h2, Option.bind_eq_bind, Option.bind_some, Option.pure_def,
    Option.some.injEq]
  omega

/-- **One written character is read back**, whatever escape it needed. -/
theorem readString_quoteChar (c : Char) (cs : List Char) :
    readString (quoteChar c ++ cs) = (readString cs).map fun p => (c :: p.1, p.2) := by
  have hof : Char.ofNat c.toNat = c := Char.ofNat_toNat c
  have hesc : ∀ (d e : Char), escaped d = some e →
      readString ('\\' :: d :: cs) = (readString cs).map fun p => (e :: p.1, p.2) := by
    intro d e h
    rw [readString.eq_def]
    simp [h]
  have hchar : ∀ n, c.toNat = n → c = Char.ofNat n := fun n h => h ▸ hof.symm
  unfold quoteChar
  split_ifs with h1 h2 h3 h4 h5 h6 h7 h8
  · subst h1; exact hesc '"' '"' (by decide)
  · subst h2; exact hesc '\\' '\\' (by decide)
  · rw [hchar _ h3]; exact hesc 'b' _ (by decide)
  · rw [hchar _ h4]; exact hesc 'f' _ (by decide)
  · rw [hchar _ h5]; exact hesc 'n' _ (by decide)
  · rw [hchar _ h6]; exact hesc 'r' _ (by decide)
  · rw [hchar _ h7]; exact hesc 't' _ (by decide)
  · have hu : escaped 'u' = none := by decide
    have hlt : c.toNat < 0xD800 := by omega
    simp only [List.cons_append, List.nil_append]
    rw [readString.eq_def]
    simp [hu, hex4_low h8, hlt, hof]
  · rw [List.singleton_append, readString.eq_def]
    simp [h1, h2, h8]

/-- The characters of a literal, up to its closing quote. -/
theorem readString_quoted (s r : List Char) :
    readString (s.flatMap quoteChar ++ '"' :: r) = some (s, r) := by
  induction s with
  | nil => rw [List.flatMap_nil, List.nil_append, readString.eq_def]; simp
  | cons c s ih =>
    rw [List.flatMap_cons, List.append_assoc, readString_quoteChar, ih]
    rfl

/-- A whole literal, after its opening quote. -/
theorem quote_append (s : String) (r : List Char) :
    quote s ++ r = '"' :: (s.toList.flatMap quoteChar ++ '"' :: r) := by
  simp [quote]

/-! ## 2. Number literals -/

/-- `r` does not go on with a numeric character. -/
def EndsNumber (r : List Char) : Prop := ∀ c, r.head? = some c → isNumeric c = false

theorem endsNumber_cons {c : Char} {r : List Char} (h : isNumeric c = false) :
    EndsNumber (c :: r) := by
  intro d hd
  simp only [List.head?_cons, Option.some.injEq] at hd
  exact hd ▸ h

theorem endsNumber_nil : EndsNumber [] := by simp [EndsNumber]

/-- A literal is made of numeric characters and is not empty. -/
theorem Literal.numeric (n : Literal) : (∀ c ∈ n.chars, isNumeric c) ∧ n.chars ≠ [] := by
  have h := n.valid
  unfold isLiteral at h
  split at h
  · rename_i cs hcs
    simp only [Bool.and_eq_true, List.all_eq_true] at h
    rw [hcs]
    refine ⟨fun c hc => ?_, List.cons_ne_nil _ _⟩
    rcases List.mem_cons.mp hc with rfl | hc
    · decide
    · exact h.1 c hc
  · simp only [Bool.and_eq_true, List.all_eq_true] at h
    refine ⟨h.1, fun hnil => ?_⟩
    rw [hnil] at h
    simp [isUnsigned] at h

theorem readNumber_chars (n : Literal) {r : List Char} (hr : EndsNumber r) :
    readNumber (n.chars ++ r) = some (n, r) := by
  have hstop : ∀ p : List Char, (∀ c ∈ p, isNumeric c) →
      (p ++ r).takeWhile isNumeric = p ∧ (p ++ r).dropWhile isNumeric = r := by
    intro p hp
    rw [List.takeWhile_append_of_pos hp, List.dropWhile_append_of_pos hp]
    cases r with
    | nil => simp
    | cons c r => simp [hr c rfl]
  obtain ⟨ht, hd⟩ := hstop n.chars n.numeric.1
  simp [readNumber, ht, hd, n.valid]

/-! ## 3. Values -/

/-- A character that starts neither white space nor a literal, an array or an object. -/
theorem numeric_head {c : Char} (h : isNumeric c) :
    isSpace c = false ∧ c ≠ 'n' ∧ c ≠ 't' ∧ c ≠ 'f' ∧ c ≠ '"' ∧ c ≠ '[' ∧ c ≠ '\x7b' := by
  refine ⟨?_, ?_, ?_, ?_, ?_, ?_, ?_⟩
  · by_contra hs
    simp only [isSpace, Bool.not_eq_false, Bool.or_eq_true, beq_iff_eq] at hs
    rcases hs with ((rfl | rfl) | rfl) | rfl <;> revert h <;> decide
  all_goals rintro rfl; revert h; decide

theorem skip_cons {c : Char} (h : isSpace c = false) (r : List Char) : skip (c :: r) = c :: r := by
  simp [skip, h]

/-- A written value starts with a character that is neither white space nor a closing bracket. -/
theorem write_head (v : Json) : ∃ c r, write v = c :: r ∧ isSpace c = false ∧ c ≠ ']' := by
  cases v with
  | null => exact ⟨_, _, rfl, by decide, by decide⟩
  | bool b => cases b <;> exact ⟨_, _, rfl, by decide, by decide⟩
  | num n =>
    obtain ⟨hnum, hne⟩ := n.numeric
    obtain ⟨c, cs, hcs⟩ := List.exists_cons_of_ne_nil hne
    have hc : isNumeric c := hnum c (hcs ▸ List.mem_cons_self)
    refine ⟨c, cs, by rw [write, hcs], (numeric_head hc).1, ?_⟩
    rintro rfl
    revert hc
    decide
  | str s => exact ⟨_, _, rfl, by decide, by decide⟩
  | arr xs => cases xs <;> exact ⟨_, _, by rw [write], by decide, by decide⟩
  | obj fs =>
    cases fs with
    | nil => exact ⟨_, _, by rw [write], by decide, by decide⟩
    | cons f fs => exact ⟨_, _, by rw [write], by decide, by decide⟩

theorem skip_write_append (v : Json) (r : List Char) : skip (write v ++ r) = write v ++ r := by
  obtain ⟨c, cs, h, hc, -⟩ := write_head v
  rw [h, List.cons_append, skip_cons hc]

theorem writeElems_pos (xs : List Json) : 0 < (writeElems xs).length := by
  cases xs <;> simp [writeElems]

theorem writeFields_pos (fs : List (String × Json)) : 0 < (writeFields fs).length := by
  cases fs <;> simp [writeFields]

/-- What follows an element ends a number. -/
theorem endsNumber_writeElems (xs : List Json) (r : List Char) :
    EndsNumber (writeElems xs ++ r) := by
  cases xs <;> exact endsNumber_cons (by decide)

theorem endsNumber_writeFields (fs : List (String × Json)) (r : List Char) :
    EndsNumber (writeFields fs ++ r) := by
  cases fs <;> exact endsNumber_cons (by decide)

mutual

/-- **A written value is read back**, and the reader stops where it ends. -/
theorem readValue_write : ∀ (v : Json) (n : ℕ) (r : List Char), (write v).length ≤ n →
    EndsNumber r → readValue n (write v ++ r) = some (v, r)
  | v, 0, r, hn, _ => by
    obtain ⟨c, cs, h, -⟩ := write_head v
    simp [h] at hn
  | .null, n + 1, r, _, _ => by
    simp [write, readValue, skip_cons (show isSpace 'n' = false by decide)]
  | .bool true, n + 1, r, _, _ => by
    simp [write, readValue, skip_cons (show isSpace 't' = false by decide)]
  | .bool false, n + 1, r, _, _ => by
    simp [write, readValue, skip_cons (show isSpace 'f' = false by decide)]
  | .num l, n + 1, r, _, hr => by
    obtain ⟨hnum, hne⟩ := l.numeric
    obtain ⟨c, cs, hcs⟩ := List.exists_cons_of_ne_nil hne
    obtain ⟨hsp, h1, h2, h3, h4, h5, h6⟩ := numeric_head (hnum c (hcs ▸ List.mem_cons_self))
    have hread := readNumber_chars l hr
    have hskip : skip (l.chars ++ r) = l.chars ++ r := by rw [hcs]; exact skip_cons hsp _
    rw [write, readValue, hskip]
    rw [hcs, List.cons_append] at hread ⊢
    split <;> simp_all
  | .str s, n + 1, r, _, _ => by
    rw [write, quote_append, readValue, skip_cons (by decide)]
    simp [readString_quoted, String.ofList_toList]
  | .arr [], n + 1, r, _, _ => by
    simp [write, readValue, skip_cons (show isSpace '[' = false by decide),
      skip_cons (show isSpace ']' = false by decide)]
  | .arr (x :: xs), n + 1, r, hn, _ => by
    obtain ⟨c, cs, hc, -, hne⟩ := write_head x
    have hrec := readElems_write x xs n r (by simp [write] at hn ⊢; omega)
    have hskip := skip_write_append x (writeElems xs ++ r)
    rw [write, readValue, List.cons_append, skip_cons (by decide)]
    simp only [List.append_assoc] at hrec ⊢
    rw [hskip]
    rw [hc, List.cons_append] at hrec ⊢
    simp [hrec, hne]
  | .obj [], n + 1, r, _, _ => by
    simp [write, readValue, skip_cons (show isSpace '\x7b' = false by decide),
      skip_cons (show isSpace '\x7d' = false by decide)]
  | .obj ((k, v) :: fs), n + 1, r, hn, _ => by
    have hrec := readFields_write k v fs n r (by simp [write] at hn ⊢; omega)
    rw [write, readValue, List.cons_append, skip_cons (by decide)]
    simp only [List.append_assoc, List.cons_append, quote_append] at hrec ⊢
    rw [skip_cons (show isSpace '"' = false by decide)]
    simp [hrec]

/-- The elements of a written array are read back. -/
theorem readElems_write : ∀ (x : Json) (xs : List Json) (n : ℕ) (r : List Char),
    (write x ++ writeElems xs).length ≤ n →
      readElems n (write x ++ writeElems xs ++ r) = some (x :: xs, r)
  | x, xs, 0, r, hn => by
    have := writeElems_pos xs
    rw [List.length_append] at hn
    omega
  | x, xs, n + 1, r, hn => by
    have hpos := writeElems_pos xs
    rw [List.length_append] at hn
    rw [List.append_assoc, readElems,
      readValue_write x n (writeElems xs ++ r) (by omega) (endsNumber_writeElems xs r)]
    cases xs with
    | nil => simp [writeElems, skip_cons (show isSpace ']' = false by decide)]
    | cons y ys =>
      have hrec := readElems_write y ys n r (by simp [writeElems] at hn ⊢; omega)
      rw [List.append_assoc] at hrec
      simp [writeElems, skip_cons (show isSpace ',' = false by decide), hrec]

/-- The fields of a written object are read back. -/
theorem readFields_write : ∀ (k : String) (v : Json) (fs : List (String × Json)) (n : ℕ)
    (r : List Char), (quote k ++ ':' :: (write v ++ writeFields fs)).length ≤ n →
      readFields n (quote k ++ ':' :: (write v ++ writeFields fs) ++ r) = some ((k, v) :: fs, r)
  | k, v, fs, 0, r, hn => by simp at hn
  | k, v, fs, n + 1, r, hn => by
    have hpos := writeFields_pos fs
    simp only [List.length_append, List.length_cons] at hn
    rw [List.append_assoc, List.cons_append, List.append_assoc, quote_append, readFields,
      skip_cons (by decide)]
    simp only [readString_quoted, skip_cons (show isSpace ':' = false by decide)]
    rw [readValue_write v n (writeFields fs ++ r) (by omega) (endsNumber_writeFields fs r)]
    cases fs with
    | nil => simp [writeFields, skip_cons (show isSpace '\x7d' = false by decide),
        String.ofList_toList]
    | cons f fs =>
      obtain ⟨k', v'⟩ := f
      have hrec := readFields_write k' v' fs n r (by simp [writeFields] at hn ⊢; omega)
      rw [List.append_assoc, List.cons_append, List.append_assoc] at hrec
      simp [writeFields, skip_cons (show isSpace ',' = false by decide), hrec,
        String.ofList_toList]

end

/-- **The round trip.** -/
@[simp] theorem parse_stringify (v : Json) : parse (stringify v) = some v := by
  have h := readValue_write v ((write v).length + 1) [] (by omega) endsNumber_nil
  rw [List.append_nil] at h
  simp [parse, stringify, String.toList_ofList, h, skip]

theorem stringify_injective : Function.Injective stringify := by
  intro a b h
  have := parse_stringify a
  rw [h, parse_stringify] at this
  exact (Option.some.inj this).symm

/-- Values are compared by their texts. -/
instance : DecidableEq Json := fun _ _ => decidable_of_iff _ stringify_injective.eq_iff

/-- A whole number is read back from its digits. -/
theorem Json.toNat?_ofNat (n : ℕ) : (Json.ofNat n).toNat? = some n := by
  have hdigits : (Nat.toDigits 10 n).all isDigit = true := by
    rw [List.all_eq_true]
    exact fun c hc => isDigit_of_mem_toDigits hc
  simp only [Json.ofNat, Json.toNat?, hdigits, if_true]
  exact congrArg some Nat.ofDigitChars_ten_toDigits

/-- A written value is never the empty text. -/
theorem stringify_ne_empty (v : Json) : stringify v ≠ "" := by
  intro h
  obtain ⟨c, r, hw, -, -⟩ := write_head v
  rw [stringify, hw] at h
  simpa using congrArg String.toList h

/-- A text whose first character starts no JSON value is refused. -/
theorem parse_eq_none_of_head {text : String} {c : Char} {cs : List Char}
    (h : text.toList = c :: cs) (hsp : isSpace c = false) (hnum : isNumeric c = false)
    (hc : c ∉ ['n', 't', 'f', '"', '[', '\x7b']) : parse text = none := by
  simp only [List.mem_cons, List.not_mem_nil, or_false, not_or] at hc
  have hread : readNumber (c :: cs) = none := by
    simp [readNumber, hnum, isLiteral, isUnsigned]
  have hv : readValue (text.toList.length + 1) text.toList = none := by
    rw [h, readValue, skip_cons hsp]
    split <;> simp_all
  rw [parse, hv]

end JsonText
