/-
# Comma-separated values

A reader of RFC 4180: fields are separated by commas and records by line breaks, LF or CRLF, with or without one
after the last record.  A field in quotes can have every character, a quote written twice; a field without quotes
can have neither commas, quotes, CR nor LF, and a text in which one has is not read.

`read_lines_iff` says when the reader gets back what was written piece by piece, some pieces in quotes and some
not: exactly if no piece without quotes has one of the four characters.  A piece that starts with quotes is not
read as itself either, since the reader takes at least half of them away (`readQuoted_leading`).
-/
import Mathlib.Data.List.Basic
import Mathlib.Data.List.TakeWhile

namespace Rfc4180

/-! ## 1. The reader -/

/-- A character that a field without quotes can have. -/
def isText (c : Char) : Bool := c != ',' && c != '"' && c != '\r' && c != '\n'

/-- The rest of a field in quotes, and what follows the closing quote. -/
def readQuoted : List Char → Option (List Char × List Char)
  | [] => none
  | '"' :: '"' :: cs => (readQuoted cs).map fun p => ('"' :: p.1, p.2)
  | '"' :: cs => some ([], cs)
  | c :: cs => (readQuoted cs).map fun p => (c :: p.1, p.2)

/-- A field, and what follows it. -/
def readField : List Char → Option (List Char × List Char)
  | '"' :: cs => readQuoted cs
  | cs => some (cs.takeWhile isText, cs.dropWhile isText)

/-- What follows a line break. -/
def skipBreak : List Char → Option (List Char)
  | '\n' :: cs => some cs
  | '\r' :: '\n' :: cs => some cs
  | _ => none

/-- The records of a text of which some fields of the first one are read; the number bounds the fields. -/
def readRecords : ℕ → List (List Char) → List Char → Option (List (List (List Char)))
  | 0, _, _ => none
  | n + 1, record, cs =>
    match readField cs with
    | none => none
    | some (field, []) => some [record ++ [field]]
    | some (field, ',' :: rest) => readRecords n (record ++ [field]) rest
    | some (field, rest) =>
      match skipBreak rest with
      | none => none
      | some [] => some [record ++ [field]]
      | some rest => (readRecords n [] rest).map ((record ++ [field]) :: ·)

attribute [local simp] readRecords

/-- The records of a text, which may be over. -/
def readAll (n : ℕ) (cs : List Char) : Option (List (List (List Char))) :=
  if cs = [] then some [] else readRecords n [] cs

/-- The records of a text. -/
def read (text : List Char) : Option (List (List (List Char))) := readAll (text.length + 1) text

/-! ## 2. Fields -/

/-- How many quotes a text starts with. -/
def leading (cs : List Char) : ℕ := (cs.takeWhile (· = '"')).length

theorem leading_cons_quote (cs : List Char) : leading ('"' :: cs) = leading cs + 1 := rfl

theorem leading_cons_of_ne {c : Char} (h : c ≠ '"') (cs : List Char) : leading (c :: cs) = 0 := by
  rw [leading, List.takeWhile_cons, if_neg (by simpa using h), List.length_nil]

theorem leading_append {c : Char} (h : c ≠ '"') (t cs : List Char) : leading (t ++ c :: cs) = leading t := by
  induction t with
  | nil => exact leading_cons_of_ne h cs
  | cons d t ih =>
    by_cases hd : d = '"'
    · rw [hd, List.cons_append, leading_cons_quote, leading_cons_quote, ih]
    · rw [List.cons_append, leading_cons_of_ne hd, leading_cons_of_ne hd]

/-- Two quotes make one. -/
theorem readQuoted_leading {cs field rest : List Char} (h : readQuoted cs = some (field, rest)) :
    2 * leading field ≤ leading cs := by
  induction cs using readQuoted.induct generalizing field with
  | case1 => cases h
  | case2 cs ih =>
    rw [readQuoted] at h
    obtain ⟨⟨f, r⟩, hread, heq⟩ := Option.map_eq_some_iff.mp h
    cases heq
    have hrest := ih hread
    change 2 * (leading f + 1) ≤ leading cs + 1 + 1
    omega
  | case3 cs hne =>
    rw [readQuoted] at h
    · cases h
      exact Nat.zero_le _
    · exact hne
  | case4 c cs htwo hne ih =>
    rw [readQuoted] at h
    · obtain ⟨⟨f, r⟩, -, heq⟩ := Option.map_eq_some_iff.mp h
      cases heq
      rw [leading_cons_of_ne hne, leading_cons_of_ne hne]
    · exact htwo
    · exact hne

/-- What a field looks like: its text with quotes doubled in quotes, or the text as it is. -/
structure Piece where
  quoted : Bool
  value : List Char

/-- A text with its quotes doubled. -/
def double (cs : List Char) : List Char := cs.flatMap fun c => if c = '"' then ['"', '"'] else [c]

def Piece.text (p : Piece) : List Char :=
  if p.quoted then '"' :: double p.value ++ ['"'] else p.value

/-- The reader reads the field as its value. -/
def Piece.Ok (p : Piece) : Prop := p.quoted = false → ∀ c ∈ p.value, isText c = true

variable {c : Char} {rest : List Char}

theorem readQuoted_double (hc : c ≠ '"') (cs rest : List Char) :
    readQuoted (double cs ++ '"' :: c :: rest) = some (cs, c :: rest) := by
  induction cs with
  | nil =>
    rw [double, List.flatMap_nil, List.nil_append, readQuoted]
    intro _ h
    exact hc (List.cons.inj h).1
  | cons d cs ih =>
    rw [double, List.flatMap_cons, ← double]
    split
    · rename_i hd
      rw [hd, List.append_assoc]
      change (readQuoted (double cs ++ '"' :: c :: rest)).map _ = _
      rw [ih]
      rfl
    · rename_i hd
      rw [List.append_assoc]
      change readQuoted (d :: (double cs ++ '"' :: c :: rest)) = _
      rw [readQuoted, ih]
      · rfl
      · exact fun _ h => absurd h hd
      · exact hd

theorem readField_of_ne {cs : List Char} (h : cs.head? ≠ some '"') :
    readField cs = some (cs.takeWhile isText, cs.dropWhile isText) := by
  cases cs with
  | nil => rfl
  | cons d cs =>
    rw [readField]
    rintro cs' heq
    exact h (congrArg some (List.cons.inj heq).1)

/-- A field that is written well is read back. -/
theorem readField_text {p : Piece} (hok : p.Ok) (hc : isText c = false) (hquote : c ≠ '"') (rest : List Char) :
    readField (p.text ++ c :: rest) = some (p.value, c :: rest) := by
  rw [Piece.text]
  split
  · rw [List.cons_append, List.cons_append, List.append_assoc]
    exact readQuoted_double hquote p.value rest
  · rename_i hp
    have hvalue := hok (by simpa using hp)
    rw [readField_of_ne]
    · rw [List.takeWhile_append_of_pos hvalue, List.dropWhile_append_of_pos hvalue,
        List.takeWhile_cons_of_neg (by simp [hc]), List.dropWhile_cons_of_neg (by simp [hc]), List.append_nil]
    · cases hv : p.value with
      | nil => simpa using hquote
      | cons d cs =>
        have hd : isText d = true := hvalue d (hv ▸ List.mem_cons_self)
        rw [List.cons_append, List.head?_cons]
        rintro ⟨⟩
        cases hd

/-- Another one is not read as what it is. -/
theorem ok_of_readField {p : Piece} {r : List Char} (hquote : c ≠ '"')
    (h : readField (p.text ++ c :: rest) = some (p.value, r)) : p.Ok := by
  intro hp
  rw [Piece.text, if_neg (by simp [hp])] at h
  by_cases hhead : (p.value ++ c :: rest).head? = some '"'
  · cases hv : p.value with
    | nil =>
      rw [hv] at hhead
      exact absurd (Option.some.inj hhead) hquote
    | cons d cs =>
      rw [hv, List.cons_append, List.head?_cons] at hhead
      cases hhead
      -- half of the quotes are gone
      rw [hv] at h
      have hread : readQuoted (cs ++ c :: rest) = some ('"' :: cs, r) := h
      have hleading := readQuoted_leading hread
      rw [leading_cons_quote, leading_append hquote] at hleading
      omega
  · rw [readField_of_ne hhead] at h
    intro d hd
    have hvalue : (p.value ++ c :: rest).takeWhile isText = p.value := congrArg Prod.fst (Option.some.inj h)
    exact List.mem_takeWhile_imp (hvalue ▸ hd)

/-! ## 3. Records -/

/-- A record's text, with a line break. -/
def line (ps : List Piece) : List Char := [','].intercalate (ps.map Piece.text) ++ ['\n']

theorem line_singleton (p : Piece) : line [p] = p.text ++ ['\n'] := by simp [line]

theorem line_cons_cons (p q : Piece) (ps : List Piece) :
    line (p :: q :: ps) = p.text ++ ',' :: line (q :: ps) := by
  simp [line, List.intercalate_cons_cons]

theorem isText_comma : isText ',' = false := by decide

theorem isText_break : isText '\n' = false := by decide

variable {n : ℕ} {record field : List (List Char)}

theorem readRecords_comma {f cs rest : List Char} (h : readField cs = some (f, ',' :: rest)) :
    readRecords (n + 1) record cs = readRecords n (record ++ [f]) rest := by
  rw [readRecords, h]
  rfl

theorem readRecords_break {f cs rest : List Char} (h : readField cs = some (f, '\n' :: rest)) :
    readRecords (n + 1) record cs = (readAll n rest).map ((record ++ [f]) :: ·) := by
  rw [readRecords, h]
  cases rest <;> rfl

/-- The fields that are read stay. -/
theorem readRecords_extends {cs : List Char} {out : List (List (List Char))}
    (h : readRecords n record cs = some out) : ∃ more rs, out = (record ++ more) :: rs := by
  induction n generalizing record cs out with
  | zero => cases h
  | succ n ih =>
    rw [readRecords] at h
    split at h
    · cases h
    · cases h
      exact ⟨_, _, rfl⟩
    · obtain ⟨more, rs, rfl⟩ := ih h
      exact ⟨_, rs, by rw [List.append_assoc]⟩
    · split at h
      · cases h
      · cases h
        exact ⟨_, _, rfl⟩
      · obtain ⟨rs, -, rfl⟩ := Option.map_eq_some_iff.mp h
        exact ⟨_, rs, rfl⟩

/-- So does the next one. -/
theorem readRecords_field {f cs rest : List Char} {out : List (List (List Char))}
    (hfield : readField cs = some (f, rest)) (h : readRecords (n + 1) record cs = some out) :
    ∃ more rs, out = (record ++ f :: more) :: rs := by
  rw [readRecords, hfield] at h
  split at h
  · cases h
  · rename_i heq
    cases heq
    cases h
    exact ⟨[], [], rfl⟩
  · rename_i heq
    cases heq
    obtain ⟨more, rs, rfl⟩ := readRecords_extends h
    exact ⟨more, rs, by simp⟩
  · rename_i heq
    cases heq
    split at h
    · cases h
    · cases h
      exact ⟨[], [], rfl⟩
    · obtain ⟨rs, -, rfl⟩ := Option.map_eq_some_iff.mp h
      exact ⟨[], rs, rfl⟩

/-- A field that is read as its value is written well. -/
theorem ok_of_readRecords {p : Piece} {vs : List (List Char)} {rs : List (List (List Char))} (hquote : c ≠ '"')
    (h : readRecords (n + 1) record (p.text ++ c :: rest) = some ((record ++ p.value :: vs) :: rs)) : p.Ok := by
  cases hfield : readField (p.text ++ c :: rest) with
  | none =>
    rw [readRecords, hfield] at h
    cases h
  | some q =>
    obtain ⟨f, r⟩ := q
    obtain ⟨more, rs', heq⟩ := readRecords_field hfield h
    have hf : p.value = f := (List.cons.inj (List.append_cancel_left (List.cons.inj heq).1)).1
    rw [← hf] at hfield
    exact ok_of_readField hquote hfield

/-- A record is read as its values exactly if its fields are written well. -/
theorem readRecords_line_iff {ps : List Piece} (hne : ps ≠ []) (rest : List Char)
    (rs : List (List (List Char))) :
    readRecords (n + ps.length) record (line ps ++ rest) = some ((record ++ ps.map Piece.value) :: rs) ↔
      (∀ p ∈ ps, p.Ok) ∧ readAll n rest = some rs := by
  induction ps generalizing record with
  | nil => exact absurd rfl hne
  | cons p ps ih =>
    cases ps with
    | nil =>
      rw [line_singleton, List.append_assoc, List.length_singleton, List.map_singleton, List.singleton_append]
      have hread : p.Ok → readRecords (n + 1) record (p.text ++ '\n' :: rest) =
          (readAll n rest).map ((record ++ [p.value]) :: ·) := fun hok =>
        readRecords_break (readField_text hok isText_break (by decide) rest)
      constructor
      · intro h
        have hok : p.Ok := ok_of_readRecords (by decide) h
        rw [hread hok] at h
        obtain ⟨rs', hrest, heq⟩ := Option.map_eq_some_iff.mp h
        refine ⟨fun q hq => ?_, ?_⟩
        · rwa [List.mem_singleton.mp hq]
        · rw [hrest, (List.cons.inj heq).2]
      · rintro ⟨hok, hrest⟩
        rw [hread (hok p List.mem_cons_self), hrest]
        rfl
    | cons q ps =>
      rw [line_cons_cons, List.append_assoc, List.cons_append, List.map_cons, List.length_cons, ← Nat.add_assoc]
      have hread : p.Ok → readRecords (n + (q :: ps).length + 1) record (p.text ++ ',' :: (line (q :: ps) ++ rest)) =
          readRecords (n + (q :: ps).length) (record ++ [p.value]) (line (q :: ps) ++ rest) := fun hok =>
        readRecords_comma (readField_text hok isText_comma (by decide) _)
      have hrest := @ih (record ++ [p.value]) (by simp)
      rw [List.append_assoc, List.singleton_append] at hrest
      rw [List.forall_mem_cons, and_assoc, ← hrest]
      constructor
      · intro h
        have hok : p.Ok := ok_of_readRecords (by decide) h
        rw [hread hok] at h
        exact ⟨hok, h⟩
      · rintro ⟨hok, h⟩
        rwa [hread hok]

/-! ## 4. Texts -/

/-- A record has a field and each field a character after it. -/
theorem length_le_line {ps : List Piece} (hne : ps ≠ []) : ps.length ≤ (line ps).length := by
  induction ps with
  | nil => exact absurd rfl hne
  | cons p ps ih =>
    cases ps with
    | nil =>
      rw [line_singleton, List.length_append]
      exact Nat.le_add_left _ _
    | cons q ps =>
      have hrest := ih (by simp)
      rw [line_cons_cons, List.length_append]
      simp only [List.length_cons] at hrest ⊢
      omega

theorem length_flatten_le {ls : List (List Piece)} (hne : ∀ ps ∈ ls, ps ≠ []) :
    ls.flatten.length ≤ (ls.flatMap line).length := by
  induction ls with
  | nil => exact Nat.zero_le _
  | cons ps ls ih =>
    have hfirst := length_le_line (hne ps List.mem_cons_self)
    have hrest := ih fun qs hqs => hne qs (List.mem_cons_of_mem _ hqs)
    rw [List.flatten_cons, List.flatMap_cons, List.length_append, List.length_append]
    omega

theorem line_ne_nil (ps : List Piece) : line ps ≠ [] := by simp [line]

theorem readAll_line_iff {ps : List Piece} (hne : ps ≠ []) (rest : List Char)
    (record : List (List Char)) (rs : List (List (List Char))) (hrecord : record = ps.map Piece.value) :
    readAll (n + ps.length) (line ps ++ rest) = some (record :: rs) ↔
      (∀ p ∈ ps, p.Ok) ∧ readAll n rest = some rs := by
  rw [readAll, if_neg (by simp [line_ne_nil]), hrecord]
  exact @readRecords_line_iff n [] ps hne rest rs

/-- **What is read** of records that were written one after another. -/
theorem read_lines_iff {ls : List (List Piece)} (hne : ∀ ps ∈ ls, ps ≠ []) (more : List (List (List Char))) :
    read (ls.flatMap line) = some (ls.map (·.map Piece.value) ++ more) ↔
      (∀ ps ∈ ls, ∀ p ∈ ps, p.Ok) ∧ more = [] := by
  have hall : ∀ n, readAll (n + ls.flatten.length) (ls.flatMap line) =
      some (ls.map (·.map Piece.value) ++ more) ↔ (∀ ps ∈ ls, ∀ p ∈ ps, p.Ok) ∧ more = [] := by
    intro n
    induction ls with
    | nil =>
      rw [List.flatMap_nil, readAll, if_pos rfl, List.map_nil, List.nil_append, Option.some.injEq]
      exact ⟨fun h => ⟨fun ps hps => absurd hps List.not_mem_nil, h.symm⟩, fun h => h.2.symm⟩
    | cons ps ls ih =>
      rw [List.flatten_cons, List.length_append, Nat.add_comm ps.length, ← Nat.add_assoc, List.flatMap_cons,
        List.map_cons, List.cons_append, readAll_line_iff (hne ps List.mem_cons_self) _ _ _ rfl,
        List.forall_mem_cons, and_assoc, ih fun qs hqs => hne qs (List.mem_cons_of_mem _ hqs)]
  have hfuel := hall ((ls.flatMap line).length + 1 - ls.flatten.length)
  have hlength := length_flatten_le hne
  rwa [Nat.sub_add_cancel (by omega)] at hfuel

end Rfc4180
