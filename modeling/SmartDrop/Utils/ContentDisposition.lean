/-
# The header of a download

`contentDisposition.js` makes a `Content-Disposition` value out of any file name.  Three passes
follow each other: control characters go, everything up to the last slash goes, and the rest is
written twice, once with ASCII characters only and once percent-encoded.

Whatever is returned is one header with one quoted part (`header_noControl`, `header_quotes`).
The other two promises have gaps.  The pattern that strips the directories begins with `^.*`, and
`.` does not match a line separator (U+2028, U+2029): a slash behind one stays.  And
`encodeURIComponent` throws when half of a surrogate pair stands alone.
-/
import SmartDrop.Lib.UriText

namespace SmartDrop.ContentDisposition

open Utf16 UriText JsonText

/-! ## 1. The value -/

/-- The two types of a disposition. -/
inductive Disposition
  | attachment
  | inline
  deriving DecidableEq, Repr

def Disposition.text : Disposition → String
  | .attachment => "attachment"
  | .inline => "inline"

/-- `[\r\n\0]`. -/
def isControl (u : UInt16) : Bool := u = 0x0D || u = 0x0A || u = 0

/-- `[\\/]`. -/
def isSlash (u : UInt16) : Bool := u = 0x5C || u = 0x2F

/-- What `.` does not match. -/
def isTerminator (u : UInt16) : Bool := u = 0x0A || u = 0x0D || u = 0x2028 || u = 0x2029

/-- `[A-Za-z0-9._-]`. -/
def isPlain (c : Char) : Bool :=
  JsText.isUpper c || JsText.isLower c || JsText.isDigit c || ['.', '_', '-'].contains c

/-- What follows the last slash. -/
def lastPart (us : List UInt16) : List UInt16 := (us.reverse.takeWhile (!isSlash ·)).reverse

/-- `replace(/^.*[\\/]/, '')`: the pattern matches within the first line. -/
def stripDirectories (us : List UInt16) : List UInt16 :=
  lastPart (us.takeWhile (!isTerminator ·)) ++ us.dropWhile (!isTerminator ·)

/-- `trim() === ''`. -/
def isBlank (us : List UInt16) : Bool := us.all fun u => JsText.isSpace (single u)

/-- `replace(/[^A-Za-z0-9._-]/g, '_')`, code unit by code unit. -/
def asciiFallback (us : List UInt16) : List Char :=
  us.map fun u => if isPlain (single u) then single u else '_'

/-- The value of a sanitized name and its percent-encoded form. -/
def header (type : Disposition) (sanitized : List UInt16) (utf8Encoded : List Char) : List Char :=
  type.text.toList ++ "; filename=\"".toList ++ asciiFallback sanitized ++
    "\"; filename*=UTF-8''".toList ++ utf8Encoded

/-- The name without control characters and directories. -/
def sanitize (filename : List UInt16) : List UInt16 :=
  let sanitized := stripDirectories (filename.filter (!isControl ·))
  if isBlank sanitized then units "download".toList else sanitized

/-- `buildSafeContentDisposition(filename, type)`; none when it throws. -/
def buildSafeContentDisposition (filename : List UInt16) (type : Disposition := .attachment) :
    Option (List Char) :=
  if filename = [] then some (type.text.toList ++ "; filename=\"download\"".toList)
  else do
    let sanitized := sanitize filename
    let utf8Encoded ← encodeURIComponent sanitized
    return header type sanitized utf8Encoded

/-! ## 2. What it promises -/

def apostrophe : Char := Char.ofNat 0x27

/-- What follows the next apostrophe. -/
def afterApostrophe (cs : List Char) : List Char := (cs.dropWhile (· != apostrophe)).drop 1

/-- The name that a client reads from `filename*`: after the character set and the language,
percent-decoded. -/
def received (value : List Char) : String :=
  Utf8.decode (percentDecode (afterApostrophe (afterApostrophe value)))

/-- A value that splits no response, whose quotes are the two of the quoted part, and whose
`filename*` names no directory. -/
structure IsSafe (value : List Char) : Prop where
  noControl : ∀ c ∈ value, c ≠ '\r' ∧ c ≠ '\n' ∧ c ≠ '\x00'
  quotes : value.count '"' = 2
  noSlash : ∀ c ∈ (received value).toList, c ≠ '/' ∧ c ≠ '\\'

/-- The function returns, and what it returns is safe. -/
def Safe (filename : List UInt16) (type : Disposition) : Prop :=
  ∃ value, buildSafeContentDisposition filename type = some value ∧ IsSafe value

/-- The names it is safe for: without its control characters, no slash follows a line separator
and the part after the last slash is a text. -/
structure Sound (filename : List UInt16) : Prop where
  flat : ∀ u ∈ (filename.filter (!isControl ·)).dropWhile (!isTerminator ·), isSlash u = false
  text : ∃ text, units text = lastPart (filename.filter (!isControl ·))

/-! ## 3. The characters of a value -/

variable {type : Disposition} {sanitized : List UInt16} {text : List Char}

theorem isPlain_fallback : ∀ c ∈ asciiFallback sanitized, isPlain c = true := by
  intro c hc
  obtain ⟨u, -, rfl⟩ := List.mem_map.mp hc
  split
  · assumption
  · rfl

/-- A character that is not plain is not in the fallback. -/
theorem not_mem_fallback {c : Char} (hc : isPlain c = false) : c ∉ asciiFallback sanitized := by
  intro hmem
  rw [isPlain_fallback c hmem] at hc
  cases hc

/-- A character that occurs in neither of the fixed parts is not in a value. -/
theorem not_mem_header {c : Char} (htype : ∀ type : Disposition, c ∉ type.text.toList)
    (hopen : c ∉ "; filename=\"".toList) (hclose : c ∉ "\"; filename*=UTF-8''".toList)
    (hplain : isPlain c = false) (hencoded : c ∉ text.flatMap encodeChar) :
    c ∉ header type sanitized (text.flatMap encodeChar) := by
  simp only [header, List.mem_append, not_or]
  exact ⟨⟨⟨⟨htype type, hopen⟩, not_mem_fallback hplain⟩, hclose⟩, hencoded⟩

theorem header_noControl (type : Disposition) (sanitized : List UInt16) (text : List Char) :
    ∀ c ∈ header type sanitized (text.flatMap encodeChar), c ≠ '\r' ∧ c ≠ '\n' ∧ c ≠ '\x00' := by
  have hcr : '\r' ∉ header type sanitized (text.flatMap encodeChar) :=
    not_mem_header (by intro type; cases type <;> decide) (by decide) (by decide) (by decide)
      (not_mem_encodeChars (by decide) (by decide) (by decide) text)
  have hlf : '\n' ∉ header type sanitized (text.flatMap encodeChar) :=
    not_mem_header (by intro type; cases type <;> decide) (by decide) (by decide) (by decide)
      (not_mem_encodeChars (by decide) (by decide) (by decide) text)
  have hnul : '\x00' ∉ header type sanitized (text.flatMap encodeChar) :=
    not_mem_header (by intro type; cases type <;> decide) (by decide) (by decide) (by decide)
      (not_mem_encodeChars (by decide) (by decide) (by decide) text)
  intro c hc
  refine ⟨?_, ?_, ?_⟩
  · rintro rfl
    exact hcr hc
  · rintro rfl
    exact hlf hc
  · rintro rfl
    exact hnul hc

/-- **The quotes of a value are the two of its quoted part.** -/
theorem header_quotes (type : Disposition) (sanitized : List UInt16) (text : List Char) :
    (header type sanitized (text.flatMap encodeChar)).count '"' = 2 := by
  have htype : type.text.toList.count '"' = 0 := by cases type <;> decide
  have hfallback : (asciiFallback sanitized).count '"' = 0 :=
    List.count_eq_zero.mpr (not_mem_fallback (by decide))
  have hencoded : (text.flatMap encodeChar).count '"' = 0 :=
    List.count_eq_zero.mpr (not_mem_encodeChars (by decide) (by decide) (by decide) text)
  have hopen : "; filename=\"".toList.count '"' = 1 := by decide
  have hclose : "\"; filename*=UTF-8''".toList.count '"' = 1 := by decide
  simp only [header, List.count_append, htype, hfallback, hencoded, hopen, hclose]

/-! ## 4. What the client reads -/

theorem afterApostrophe_append {cs : List Char} (h : apostrophe ∉ cs) (ds : List Char) :
    afterApostrophe (cs ++ apostrophe :: ds) = ds := by
  have hpre : ∀ c ∈ cs, (c != apostrophe) = true := by
    intro c hc
    rw [bne_iff_ne]
    rintro rfl
    exact h hc
  rw [afterApostrophe, List.dropWhile_append_of_pos hpre, List.dropWhile_cons_of_neg (by simp),
    List.drop_succ_cons, List.drop_zero]

/-- **The client reads the text that was encoded.** -/
theorem received_header (type : Disposition) (sanitized : List UInt16) (text : List Char) :
    received (header type sanitized (text.flatMap encodeChar)) = String.ofList text := by
  have htype : apostrophe ∉ type.text.toList := by cases type <;> decide
  have hfallback : apostrophe ∉ asciiFallback sanitized := not_mem_fallback (by decide)
  have hpre : apostrophe ∉ type.text.toList ++ "; filename=\"".toList ++ asciiFallback sanitized ++
      "\"; filename*=UTF-8".toList := by
    simp only [List.mem_append, not_or]
    exact ⟨⟨⟨htype, by decide⟩, hfallback⟩, by decide⟩
  have hclose : "\"; filename*=UTF-8''".toList =
      "\"; filename*=UTF-8".toList ++ [apostrophe, apostrophe] := by decide
  have hsplit : header type sanitized (text.flatMap encodeChar) =
      type.text.toList ++ "; filename=\"".toList ++ asciiFallback sanitized ++
        "\"; filename*=UTF-8".toList ++ apostrophe :: apostrophe :: text.flatMap encodeChar := by
    rw [header, hclose]
    simp only [List.append_assoc, List.cons_append, List.nil_append]
  have hencode : text.flatMap String.utf8EncodeChar = Utf8.encode (String.ofList text) := by
    rw [Utf8.encode, String.toList_ofList]
  rw [received, hsplit, afterApostrophe_append hpre]
  change Utf8.decode (percentDecode (afterApostrophe ([] ++ apostrophe :: _))) = _
  rw [afterApostrophe_append (List.not_mem_nil), percentDecode_encodeChars, hencode,
    Utf8.decode_encode]

/-- A slash is in a text when it is in its code units. -/
theorem slash_mem_units {text : List Char} :
    (∀ c ∈ text, c ≠ '/' ∧ c ≠ '\\') ↔ ∀ u ∈ units text, isSlash u = false := by
  have hslash : (0x2F : UInt16) ∈ units text ↔ '/' ∈ text := mem_units (c := '/') (by decide)
  have hback : (0x5C : UInt16) ∈ units text ↔ '\\' ∈ text := mem_units (c := '\\') (by decide)
  constructor
  · intro h u hu
    simp only [isSlash, Bool.or_eq_false_iff, decide_eq_false_iff_not]
    constructor
    · rintro rfl
      exact (h _ (hback.mp hu)).2 rfl
    · rintro rfl
      exact (h _ (hslash.mp hu)).1 rfl
  · intro h c hc
    constructor
    · rintro rfl
      exact absurd (h _ (hslash.mpr hc)) (by decide)
    · rintro rfl
      exact absurd (h _ (hback.mpr hc)) (by decide)

/-- The value of a sanitized name is safe when the name has no slash. -/
theorem isSafe_header (type : Disposition) (text : List Char) :
    IsSafe (header type (units text) (text.flatMap encodeChar)) ↔
      ∀ u ∈ units text, isSlash u = false := by
  rw [← slash_mem_units]
  constructor
  · intro h
    have hslash := h.noSlash
    rwa [received_header, String.toList_ofList] at hslash
  · intro h
    refine ⟨header_noControl _ _ _, header_quotes _ _ _, ?_⟩
    rwa [received_header, String.toList_ofList]

/-! ## 5. Directories -/

variable {us : List UInt16}

theorem not_slash_lastPart (us : List UInt16) : ∀ u ∈ lastPart us, isSlash u = false := by
  intro u hu
  have h := List.mem_takeWhile_imp (List.mem_reverse.mp hu)
  rwa [Bool.not_eq_true'] at h

/-- When no slash follows the first line, the directories are stripped. -/
theorem stripDirectories_eq (h : ∀ u ∈ us.dropWhile (!isTerminator ·), isSlash u = false) :
    stripDirectories us = lastPart us := by
  have hrest : ∀ u ∈ (us.dropWhile (!isTerminator ·)).reverse, (!isSlash u) = true := by
    intro u hu
    rw [h u (List.mem_reverse.mp hu)]
    rfl
  have hsplit : us.reverse = (us.dropWhile (!isTerminator ·)).reverse ++
      (us.takeWhile (!isTerminator ·)).reverse := by
    rw [← List.reverse_append, List.takeWhile_append_dropWhile]
  rw [stripDirectories, lastPart, lastPart, hsplit, List.takeWhile_append_of_pos hrest,
    List.reverse_append, List.reverse_reverse]

/-- **Nothing but a slash behind a line separator is left.** -/
theorem not_slash_stripDirectories :
    (∀ u ∈ stripDirectories us, isSlash u = false) ↔
      ∀ u ∈ us.dropWhile (!isTerminator ·), isSlash u = false := by
  constructor
  · intro h u hu
    exact h u (List.mem_append_right _ hu)
  · intro h u hu
    rcases List.mem_append.mp hu with hu | hu
    · exact not_slash_lastPart _ u hu
    · exact h u hu

/-- White space is neither a slash nor half of a pair. -/
theorem blank_unit {u : UInt16} (h : JsText.isSpace (single u) = true) :
    isSlash u = false ∧ isSurrogate u = false := by
  have hsurrogate : isSurrogate u = false := by
    by_contra hu
    rw [Bool.not_eq_false, isSurrogate, Bool.and_eq_true, decide_eq_true_eq,
      decide_eq_true_eq] at hu
    have hvalid : ¬ u.toNat.isValidChar := by
      simp only [Nat.isValidChar]
      omega
    rw [single, Char.ofNat, dif_neg hvalid] at h
    exact absurd h (by decide)
  refine ⟨?_, hsurrogate⟩
  simp only [isSlash, Bool.or_eq_false_iff, decide_eq_false_iff_not]
  constructor
  · rintro rfl
    exact absurd h (by decide)
  · rintro rfl
    exact absurd h (by decide)

/-- A string without halves of pairs is a text. -/
theorem exists_text (h : ∀ u ∈ us, isSurrogate u = false) : ∃ text, units text = us := by
  induction us with
  | nil => exact ⟨[], rfl⟩
  | cons u us ih =>
    obtain ⟨text, htext⟩ := ih fun v hv => h v (List.mem_cons_of_mem _ hv)
    refine ⟨single u :: text, ?_⟩
    rw [units_cons, unitsOfChar_single (h u (List.mem_cons_self)), htext]
    rfl

/-! ## 6. When the header is safe -/

/-- A name is safe when what is left of it is a text without slashes. -/
theorem safe_iff_sanitize {filename : List UInt16} (hname : filename ≠ []) (type : Disposition) :
    Safe filename type ↔
      (∃ text, units text = sanitize filename) ∧ ∀ u ∈ sanitize filename, isSlash u = false := by
  have hbuild : buildSafeContentDisposition filename type =
      (codePoints (sanitize filename)).map fun text =>
        header type (sanitize filename) (text.flatMap encodeChar) := by
    rw [buildSafeContentDisposition, if_neg hname]
    simp only [encodeURIComponent]
    cases codePoints (sanitize filename) <;> rfl
  constructor
  · rintro ⟨value, hvalue, hsafe⟩
    rw [hbuild] at hvalue
    obtain ⟨text, htext, rfl⟩ := Option.map_eq_some_iff.mp hvalue
    rw [codePoints_eq_some] at htext
    rw [← htext] at hsafe ⊢
    exact ⟨⟨text, rfl⟩, (isSafe_header type text).mp hsafe⟩
  · rintro ⟨⟨text, htext⟩, hslash⟩
    rw [← htext] at hslash
    refine ⟨header type (units text) (text.flatMap encodeChar), ?_,
      (isSafe_header type text).mpr hslash⟩
    rw [hbuild, ← htext, codePoints_units, Option.map_some]

/-- What is left is a text without slashes when the name is sound. -/
theorem sanitize_iff_sound (filename : List UInt16) :
    ((∃ text, units text = sanitize filename) ∧
      ∀ u ∈ sanitize filename, isSlash u = false) ↔ Sound filename := by
  rw [sanitize]
  split
  · rename_i hblank
    have hunit : ∀ u ∈ stripDirectories (filename.filter (!isControl ·)),
        isSlash u = false ∧ isSurrogate u = false := by
      intro u hu
      exact blank_unit (List.all_eq_true.mp hblank u hu)
    have hflat := not_slash_stripDirectories.mp fun u hu => (hunit u hu).1
    constructor
    · intro _
      refine ⟨hflat, ?_⟩
      rw [← stripDirectories_eq hflat]
      exact exists_text fun u hu => (hunit u hu).2
    · intro _
      refine ⟨⟨_, rfl⟩, ?_⟩
      have hall : (units "download".toList).all (!isSlash ·) = true := by decide
      intro u hu
      have h := List.all_eq_true.mp hall u hu
      rwa [Bool.not_eq_true'] at h
  · rw [not_slash_stripDirectories]
    constructor
    · rintro ⟨htext, hflat⟩
      rw [stripDirectories_eq hflat] at htext
      exact ⟨hflat, htext⟩
    · rintro ⟨hflat, htext⟩
      rw [stripDirectories_eq hflat]
      exact ⟨htext, hflat⟩

/-- The empty name is a download. -/
theorem safe_nil (type : Disposition) : Safe [] type := by
  refine ⟨_, rfl, ?_, ?_, ?_⟩
  · intro c hc
    have hall : (type.text.toList ++ "; filename=\"download\"".toList).all
        (fun c => c != '\r' && c != '\n' && c != '\x00') = true := by cases type <;> decide
    have h := List.all_eq_true.mp hall c hc
    rw [Bool.and_eq_true, Bool.and_eq_true, bne_iff_ne, bne_iff_ne, bne_iff_ne] at h
    exact ⟨h.1.1, h.1.2, h.2⟩
  · cases type <;> decide
  · intro c hc
    have hnone : (received (type.text.toList ++ "; filename=\"download\"".toList)).toList = [] := by
      cases type <;> decide +kernel
    rw [hnone] at hc
    cases hc

/-- **The header is safe for the sound names, and for no others.** -/
theorem buildSafeContentDisposition_safe_iff (filename : List UInt16) (type : Disposition) :
    Safe filename type ↔ Sound filename := by
  by_cases hname : filename = []
  · rw [hname]
    constructor
    · intro _
      refine ⟨?_, [], rfl⟩
      intro u hu
      exact absurd hu List.not_mem_nil
    · intro _
      exact safe_nil type
  · rw [safe_iff_sanitize hname, sanitize_iff_sound]

/-- `"\uD800"` throws, and of `"\u2028../x"` the client reads all. -/
theorem halfPair_and_separator_not_safe :
    ¬ Safe [0xD800] .attachment ∧ ¬ Safe (0x2028 :: units "../x".toList) .attachment := by
  constructor
  · rintro ⟨value, hvalue, -⟩
    rw [show buildSafeContentDisposition [0xD800] .attachment = none by decide +kernel] at hvalue
    cases hvalue
  · rintro ⟨value, hvalue, hsafe⟩
    have hbuild : buildSafeContentDisposition (0x2028 :: units "../x".toList) .attachment =
        some "attachment; filename=\"_.._x\"; filename*=UTF-8''%E2%80%A8..%2Fx".toList := by
      decide +kernel
    rw [hbuild, Option.some.injEq] at hvalue
    subst hvalue
    have hslash : '/' ∈ (received
        "attachment; filename=\"_.._x\"; filename*=UTF-8''%E2%80%A8..%2Fx".toList).toList := by
      decide +kernel
    exact (hsafe.noSlash '/' hslash).1 rfl

end SmartDrop.ContentDisposition
