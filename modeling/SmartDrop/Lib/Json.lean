/-
# JSON values and their texts

`Json` is a JSON value, `stringify` the compact text that `JSON.stringify` writes for it, and
`parse` reads a text as `JSON.parse` does: white space between tokens is skipped, the whole
text has to be one value, and anything else is refused.  `JsonRoundTrip` proves that `parse`
reads back what `stringify` wrote.

A number is kept as its literal, so no text is lost to a number format.  Strings are sequences
of Unicode scalar values; a text that escapes half of a surrogate pair is refused.  An object
keeps its fields in order, and a field written twice is read where it was written last.
-/
import Mathlib.Data.List.Nodup
import Mathlib.Data.List.TakeWhile

namespace JsonText

/-! ## 1. Number literals -/

/-- A decimal digit. -/
def isDigit (c : Char) : Bool := '0' ≤ c && c ≤ '9'

/-- A character that can stand in a number literal. -/
def isNumeric (c : Char) : Bool := isDigit c || c == '-' || c == '+' || c == '.' || c == 'e' || c == 'E'

/-- Digits, at least one. -/
def isDigits (cs : List Char) : Bool := !cs.isEmpty && cs.all isDigit

/-- The exponent of a literal, after its `e`. -/
def isExponent : List Char → Bool
  | '+' :: cs => isDigits cs
  | '-' :: cs => isDigits cs
  | cs => isDigits cs

/-- What may follow the integer part: an optional fraction, then an optional exponent. -/
def isFractionExponent (cs : List Char) : Bool :=
  match cs with
  | [] => true
  | '.' :: r =>
    let frac := r.takeWhile isDigit
    !frac.isEmpty && (match r.dropWhile isDigit with
      | [] => true
      | e :: x => (e == 'e' || e == 'E') && isExponent x)
  | e :: x => (e == 'e' || e == 'E') && isExponent x

/-- An unsigned literal: no leading zero unless the integer part is `0`. -/
def isUnsigned : List Char → Bool
  | '0' :: r => isFractionExponent r
  | c :: r => isDigit c && isFractionExponent (r.dropWhile isDigit)
  | [] => false

/-- The number literals of JSON. -/
def isLiteral : List Char → Bool
  | '-' :: cs => cs.all isNumeric && isUnsigned cs
  | cs => cs.all isNumeric && isUnsigned cs

/-- A number, as its literal. -/
structure Literal where
  chars : List Char
  valid : isLiteral chars = true
deriving DecidableEq

/-- Decimal digits are digits. -/
theorem isDigit_of_mem_toDigits {n : ℕ} {c : Char} (h : c ∈ Nat.toDigits 10 n) : isDigit c := by
  have := Nat.isDigit_of_mem_toDigits (by omega) (by omega) h
  simp only [Char.isDigit, Bool.and_eq_true, decide_eq_true_eq] at this
  simp only [isDigit, Bool.and_eq_true, decide_eq_true_eq]
  exact this

/-- The decimal text of a positive number does not start with a zero. -/
theorem toDigits_head {n : ℕ} (hn : 0 < n) : ∃ c r, Nat.toDigits 10 n = c :: r ∧ c ≠ '0' := by
  induction n using Nat.strongRecOn with
  | ind n ih =>
    rcases Nat.lt_or_ge n 10 with h | h
    · refine ⟨_, [], Nat.toDigits_of_lt_base h, ?_⟩
      have : ∀ m < 10, 0 < m → Nat.digitChar m ≠ '0' := by decide
      exact this n h hn
    · obtain ⟨c, r, hcr, hc⟩ := ih (n / 10) (by omega) (by omega)
      exact ⟨c, r ++ [Nat.digitChar (n % 10)], by
        rw [Nat.toDigits_of_base_le (by omega) h, hcr, List.cons_append], hc⟩

/-- The decimal text of a number is a literal. -/
theorem isLiteral_toDigits (n : ℕ) : isLiteral (Nat.toDigits 10 n) := by
  rcases Nat.eq_zero_or_pos n with rfl | hn
  · decide
  · obtain ⟨c, r, hcr, hc⟩ := toDigits_head hn
    have hall : ∀ d ∈ c :: r, isDigit d := fun d hd => isDigit_of_mem_toDigits (hcr ▸ hd)
    have hdig : isDigit c := hall c List.mem_cons_self
    have hminus : c ≠ '-' := by rintro rfl; revert hdig; decide
    have hnum : (c :: r).all isNumeric = true :=
      List.all_eq_true.mpr fun d hd => by simp [isNumeric, hall d hd]
    have hrest : r.dropWhile isDigit = [] :=
      List.dropWhile_eq_nil_iff.mpr fun d hd => hall d (List.mem_cons_of_mem c hd)
    have hlit : isLiteral (c :: r) = ((c :: r).all isNumeric && isUnsigned (c :: r)) := by
      rw [isLiteral]
      exact fun _ h => hminus (List.cons.inj h).1
    have huns : isUnsigned (c :: r) = (isDigit c && isFractionExponent (r.dropWhile isDigit)) := by
      rw [isUnsigned]
      exact fun h => hc h
    rw [hcr, hlit, hnum, huns, hdig, hrest]
    rfl

/-- So it is after a minus sign. -/
theorem isLiteral_neg_toDigits (n : ℕ) : isLiteral ('-' :: Nat.toDigits 10 n) := by
  have hlit := isLiteral_toDigits n
  rw [isLiteral] at hlit
  · exact hlit
  · intro cs hcs
    have hminus : isDigit '-' := isDigit_of_mem_toDigits (n := n) (by simp [hcs])
    exact absurd hminus (by decide)

/-! ## 2. Values -/

/-- A JSON value. -/
inductive Json where
  | null
  | bool (b : Bool)
  | num (n : Literal)
  | str (s : String)
  | arr (xs : List Json)
  | obj (fields : List (String × Json))

namespace Json

/-- A whole number. -/
def ofNat (n : ℕ) : Json := .num ⟨Nat.toDigits 10 n, isLiteral_toDigits n⟩

/-- A whole number, or one below zero. -/
def ofInt : ℤ → Json
  | .ofNat n => ofNat n
  | .negSucc n => .num ⟨'-' :: Nat.toDigits 10 (n + 1), isLiteral_neg_toDigits (n + 1)⟩

/-- The value of a literal that is a whole number. -/
def toNat? : Json → Option ℕ
  | .num n => if n.chars.all isDigit then some (Nat.ofDigitChars 10 n.chars 0) else none
  | _ => none

/-- An object from its fields; a field whose value is `undefined` is left out. -/
def ofFields (fields : List (String × Option Json)) : Json :=
  .obj (fields.filterMap fun f => f.2.map fun v => (f.1, v))

/-- `v === text`, for a string `text`. -/
def isStr (v : Option Json) (text : String) : Bool :=
  match v with
  | some (.str s) => s == text
  | _ => false

/-- Field access `v.key`; `none` is `undefined`. -/
def get? (v : Json) (key : String) : Option Json :=
  match v with
  | .obj fields => (fields.reverse.find? fun f => f.1 == key).map Prod.snd
  | _ => none

/-- One field of a spread `{ ...fields, key: v }`: an old field keeps its place. -/
def setField (fields : List (String × Json)) (key : String) (v : Json) : List (String × Json) :=
  if fields.any (fun f => f.1 == key) then
    fields.map fun f => if f.1 == key then (key, v) else f
  else fields ++ [(key, v)]

/-- The spread `{ ...v, ...patch }` of two objects. -/
def spread (v : Json) (patch : List (String × Json)) : Json :=
  match v with
  | .obj fields => .obj (patch.foldl (fun fs f => setField fs f.1 f.2) fields)
  | v => v

/-- A field of an object whose fields are written once. -/
theorem get?_ofFields {fields : List (String × Option Json)} {k : String} {v : Json}
    (hn : (fields.map Prod.fst).Nodup) (h : (k, some v) ∈ fields) :
    (ofFields fields).get? k = some v := by
  have hmem {e : String × Json} (he : e ∈ fields.filterMap fun f => f.2.map fun v => (f.1, v)) :
      (e.1, some e.2) ∈ fields := by
    obtain ⟨⟨a, _ | b⟩, hf, hb⟩ := List.mem_filterMap.mp he
    · cases hb
    · obtain rfl := Option.some.inj hb
      exact hf
  simp only [ofFields, get?]
  cases hfind : (fields.filterMap fun f => f.2.map fun v => (f.1, v)).reverse.find?
      fun f => f.1 == k with
  | none =>
    have := List.find?_eq_none.mp hfind (k, v) (by
      rw [List.mem_reverse, List.mem_filterMap]
      exact ⟨_, h, rfl⟩)
    simp at this
  | some e =>
    have hk : e.1 = k := by simpa using List.find?_some hfind
    have he := hmem (List.mem_reverse.mp (List.mem_of_find?_eq_some hfind))
    have := List.inj_on_of_nodup_map hn he h hk
    simp only [Prod.mk.injEq, Option.some.injEq] at this
    rw [Option.map_some, this.2]

/-- A field that is set leaves the others as they are. -/
theorem find?_map_of_ne {fields : List (String × Json)} {key k : String} {v : Json}
    (h : k ≠ key) : (fields.map fun f => if f.1 == key then (key, v) else f).find?
      (fun f => f.1 == k) = fields.find? fun f => f.1 == k := by
  induction fields with
  | nil => rfl
  | cons f fields ih =>
    rw [List.map_cons, List.find?_cons, List.find?_cons, ih]
    by_cases hf : f.1 = key
    · have hk : (key == k) = false := by simpa using Ne.symm h
      simp [hf, hk]
    · simp [hf]

theorem get?_setField_of_ne {fields : List (String × Json)} {key k : String} {v : Json}
    (h : k ≠ key) : (obj (setField fields key v)).get? k = (obj fields).get? k := by
  unfold setField
  split
  · simp only [get?, ← List.map_reverse, find?_map_of_ne h]
  · simp [get?, Ne.symm h]

theorem find?_map_self {fields : List (String × Json)} {key : String} (v : Json)
    (h : ∃ f ∈ fields, f.1 = key) : (fields.map fun f => if f.1 == key then (key, v) else f).find?
      (fun f => f.1 == key) = some (key, v) := by
  induction fields with
  | nil => simp at h
  | cons f fields ih =>
    rw [List.map_cons, List.find?_cons]
    by_cases hf : f.1 = key
    · simp [hf]
    · obtain ⟨g, hg, hkey⟩ := h
      rcases List.mem_cons.mp hg with rfl | hg
      · exact absurd hkey hf
      · have hne : (f.1 == key) = false := by simpa using hf
        simp only [hne, Bool.false_eq_true, if_false]
        exact ih ⟨g, hg, hkey⟩

/-- A field that is set is read back. -/
theorem get?_setField_self (fields : List (String × Json)) (key : String) (v : Json) :
    (obj (setField fields key v)).get? key = some v := by
  unfold setField
  split
  · rename_i hany
    obtain ⟨f, hf, hkey⟩ := List.any_eq_true.mp hany
    rw [get?, ← List.map_reverse, find?_map_self v ⟨f, List.mem_reverse.mpr hf, by simpa using hkey⟩]
    rfl
  · simp [get?]

/-- A spread leaves the fields it does not name. -/
theorem get?_spread {fields patch : List (String × Json)} {k : String}
    (h : ∀ f ∈ patch, f.1 ≠ k) : ((obj fields).spread patch).get? k = (obj fields).get? k := by
  simp only [spread]
  induction patch generalizing fields with
  | nil => rfl
  | cons f patch ih =>
    rw [List.foldl_cons, ih fun g hg => h g (List.mem_cons_of_mem _ hg)]
    exact get?_setField_of_ne (h f List.mem_cons_self).symm

/-- Only the values under its key count for a field. -/
theorem get?_congr {fields fields' : List (String × Json)} {k : String}
    (h : List.Forall₂ (fun f g => f.1 = g.1 ∧ (f.1 = k → f.2 = g.2)) fields fields') :
    (obj fields).get? k = (obj fields').get? k := by
  simp only [get?]
  have hrev : List.Forall₂ (fun f g : String × Json => f.1 = g.1 ∧ (f.1 = k → f.2 = g.2))
      fields.reverse fields'.reverse := List.forall₂_reverse_iff.mpr h
  clear h
  generalize fields.reverse = l at hrev
  generalize fields'.reverse = l' at hrev
  induction hrev with
  | nil => rfl
  | @cons f g _ _ hfg _ ih =>
    rw [List.find?_cons, List.find?_cons, ← hfg.1]
    by_cases hk : f.1 = k
    · simp [hk, hfg.2 hk]
    · have hk' : (f.1 == k) = false := by simpa using hk
      rw [hk', ih]

/-- A field of a spread: what the patch says of it, or else what it was. -/
theorem get?_spread_eq (fields patch : List (String × Json)) (k : String) :
    ((obj fields).spread patch).get? k = ((obj patch).get? k).or ((obj fields).get? k) := by
  simp only [spread]
  induction patch generalizing fields with
  | nil => rfl
  | cons f patch ih =>
    have hcons : (obj (f :: patch)).get? k =
        ((obj patch).get? k).or (if f.1 = k then some f.2 else none) := by
      simp only [get?, List.reverse_cons, List.find?_append]
      cases patch.reverse.find? fun f => f.1 == k with
      | some g => simp
      | none => by_cases hk : f.1 = k <;> simp [hk]
    rw [List.foldl_cons, ih, hcons, Option.or_assoc]
    congr 1
    by_cases hk : f.1 = k
    · subst hk
      simp [get?_setField_self]
    · rw [get?_setField_of_ne (Ne.symm hk), if_neg hk, Option.none_or]

/-- `undefined`, `null`, `false`, `0` and the empty string are falsy. -/
def truthy : Option Json → Bool
  | none | some .null => false
  | some (.bool b) => b
  | some (.str s) => s != ""
  | some (.num n) => n.chars != ['0'] && n.chars != ['-', '0']
  | some _ => true

end Json

mutual

/-- A value inside a template literal.  A number that `JSON.stringify`
wrote has its literal as its text. -/
def templateText : Json → String
  | .null => "null"
  | .bool b => toString b
  | .num n => String.ofList n.chars
  | .str s => s
  | .arr xs => ",".intercalate (elementTexts xs)
  | .obj _ => "[object Object]"

/-- The elements of an array inside a template literal. -/
def elementTexts : List Json → List String
  | [] => []
  | .null :: xs => "" :: elementTexts xs
  | x :: xs => templateText x :: elementTexts xs

end

/-- A field inside a template literal. -/
def fieldText : Option Json → String
  | none => "undefined"
  | some v => templateText v

/-! ## 3. Writing -/

/-- A hexadecimal digit, lower case as `JSON.stringify` writes it. -/
def hexDigit (n : ℕ) : Char := if n < 10 then Char.ofNat (48 + n) else Char.ofNat (87 + n)

/-- One character inside a string literal. -/
def quoteChar (c : Char) : List Char :=
  if c = '"' then ['\\', '"']
  else if c = '\\' then ['\\', '\\']
  else if c.toNat = 8 then ['\\', 'b']
  else if c.toNat = 12 then ['\\', 'f']
  else if c.toNat = 10 then ['\\', 'n']
  else if c.toNat = 13 then ['\\', 'r']
  else if c.toNat = 9 then ['\\', 't']
  else if c.toNat < 32 then ['\\', 'u', '0', '0', hexDigit (c.toNat / 16), hexDigit (c.toNat % 16)]
  else [c]

/-- A string literal with its quotes. -/
def quote (s : String) : List Char := '"' :: (s.toList.flatMap quoteChar ++ ['"'])

mutual

/-- The compact text of a value. -/
def write : Json → List Char
  | .null => ['n', 'u', 'l', 'l']
  | .bool true => ['t', 'r', 'u', 'e']
  | .bool false => ['f', 'a', 'l', 's', 'e']
  | .num n => n.chars
  | .str s => quote s
  | .arr [] => ['[', ']']
  | .arr (x :: xs) => '[' :: (write x ++ writeElems xs)
  | .obj [] => ['\x7b', '\x7d']
  | .obj ((k, v) :: fs) => '\x7b' :: (quote k ++ ':' :: (write v ++ writeFields fs))

/-- The rest of an array, after an element. -/
def writeElems : List Json → List Char
  | [] => [']']
  | x :: xs => ',' :: (write x ++ writeElems xs)

/-- The rest of an object, after a field. -/
def writeFields : List (String × Json) → List Char
  | [] => ['\x7d']
  | (k, v) :: fs => ',' :: (quote k ++ ':' :: (write v ++ writeFields fs))

end

/-- `JSON.stringify`. -/
def stringify (v : Json) : String := String.ofList (write v)

/-! ## 4. Reading -/

/-- JSON white space. -/
def isSpace (c : Char) : Bool := c == ' ' || c == '\t' || c == '\n' || c == '\r'

/-- Skip white space. -/
def skip (cs : List Char) : List Char := cs.dropWhile isSpace

/-- The value of a hexadecimal digit. -/
def hexValue (c : Char) : Option ℕ :=
  if '0' ≤ c ∧ c ≤ '9' then some (c.toNat - 48)
  else if 'a' ≤ c ∧ c ≤ 'f' then some (c.toNat - 87)
  else if 'A' ≤ c ∧ c ≤ 'F' then some (c.toNat - 55)
  else none

/-- The code unit that four hexadecimal digits name. -/
def hex4 (a b c d : Char) : Option ℕ := do
  return 4096 * (← hexValue a) + 256 * (← hexValue b) + 16 * (← hexValue c) + (← hexValue d)

/-- The one-letter escapes. -/
def escaped (c : Char) : Option Char :=
  if c = '"' ∨ c = '\\' ∨ c = '/' then some c
  else if c = 'b' then some (Char.ofNat 8)
  else if c = 'f' then some (Char.ofNat 12)
  else if c = 'n' then some (Char.ofNat 10)
  else if c = 'r' then some (Char.ofNat 13)
  else if c = 't' then some (Char.ofNat 9)
  else none

/-- The rest of a string literal, after its opening quote: its characters and what follows. -/
def readString : List Char → Option (List Char × List Char)
  | [] => none
  | c :: r =>
    if c = '"' then some ([], r)
    else if c = '\\' then
      match r with
      | [] => none
      | e :: r' =>
        match escaped e with
        | some ch => (readString r').map fun p => (ch :: p.1, p.2)
        | none =>
          if e = 'u' then
            match r' with
            | h₁ :: h₂ :: h₃ :: h₄ :: r'' =>
              match hex4 h₁ h₂ h₃ h₄ with
              | none => none
              | some n =>
                if n < 0xD800 ∨ 0xDFFF < n then
                  (readString r'').map fun p => (Char.ofNat n :: p.1, p.2)
                else
                  -- a high surrogate has to be followed by its low half
                  match r'' with
                  | '\\' :: 'u' :: l₁ :: l₂ :: l₃ :: l₄ :: r₃ =>
                    match hex4 l₁ l₂ l₃ l₄ with
                    | none => none
                    | some m =>
                      if n < 0xDC00 ∧ 0xDC00 ≤ m ∧ m ≤ 0xDFFF then
                        (readString r₃).map fun p =>
                          (Char.ofNat (0x10000 + (n - 0xD800) * 0x400 + (m - 0xDC00)) :: p.1, p.2)
                      else none
                  | _ => none
            | _ => none
          else none
    else if c.toNat < 32 then none
    else (readString r).map fun p => (c :: p.1, p.2)

/-- A number literal and what follows it. -/
def readNumber (cs : List Char) : Option (Literal × List Char) :=
  if h : isLiteral (cs.takeWhile isNumeric) then
    some (⟨cs.takeWhile isNumeric, h⟩, cs.dropWhile isNumeric)
  else none

mutual

/-- A value and what follows it.  The fuel bounds the nesting and the number of tokens. -/
def readValue : ℕ → List Char → Option (Json × List Char)
  | 0, _ => none
  | n + 1, cs =>
    match skip cs with
    | 'n' :: 'u' :: 'l' :: 'l' :: r => some (.null, r)
    | 't' :: 'r' :: 'u' :: 'e' :: r => some (.bool true, r)
    | 'f' :: 'a' :: 'l' :: 's' :: 'e' :: r => some (.bool false, r)
    | '"' :: r => (readString r).map fun p => (.str (String.ofList p.1), p.2)
    | '[' :: r =>
      match skip r with
      | ']' :: r' => some (.arr [], r')
      | _ => (readElems n r).map fun p => (.arr p.1, p.2)
    | '\x7b' :: r =>
      match skip r with
      | '\x7d' :: r' => some (.obj [], r')
      | _ => (readFields n r).map fun p => (.obj p.1, p.2)
    | r => (readNumber r).map fun p => (.num p.1, p.2)

/-- The elements of a non-empty array, up to its closing bracket. -/
def readElems : ℕ → List Char → Option (List Json × List Char)
  | 0, _ => none
  | n + 1, cs =>
    match readValue n cs with
    | none => none
    | some (v, r) =>
      match skip r with
      | ',' :: r' => (readElems n r').map fun p => (v :: p.1, p.2)
      | ']' :: r' => some ([v], r')
      | _ => none

/-- The fields of a non-empty object, up to its closing brace. -/
def readFields : ℕ → List Char → Option (List (String × Json) × List Char)
  | 0, _ => none
  | n + 1, cs =>
    match skip cs with
    | '"' :: r =>
      match readString r with
      | none => none
      | some (k, r₁) =>
        match skip r₁ with
        | ':' :: r₂ =>
          match readValue n r₂ with
          | none => none
          | some (v, r₃) =>
            match skip r₃ with
            | ',' :: r₄ => (readFields n r₄).map fun p => ((String.ofList k, v) :: p.1, p.2)
            | '\x7d' :: r₄ => some ([(String.ofList k, v)], r₄)
            | _ => none
        | _ => none
    | _ => none

end

/-- `JSON.parse`; `none` is a `SyntaxError`. -/
def parse (text : String) : Option Json :=
  match readValue (text.toList.length + 1) text.toList with
  | some (v, r) => if (skip r).isEmpty then some v else none
  | none => none

end JsonText
