/-
# The code of a SQL text

What of a text is SQL code, by the rules of the standard: two hyphens begin a comment that ends with the
line, a slash and an asterisk one that ends with its own asterisk and slash (such comments nest), and
either quotation mark begins quoted text that ends with the same mark; two of them inside it end one text
and begin the next.  `codeOf` is the code, with a space for each comment and a quotation mark for each
quoted text.

Two passes that know nothing of quoted text, first over the comments of one kind and then over those of the
other, read the same code as long as they are out of their comments whenever it goes on.  `commonOf` is
what they have in common with `codeOf` up to there, and `shows_common` finds it in what they leave.

A phrase is a list of words with space between them; `Occurs` finds one that no identifier continues.
-/
import Mathlib
import SmartDrop.Lib.JsText

namespace SqlText

open JsText

/-! ## 1. Reading -/

/-- Where a reader is: in code, in a comment to the end of the line, in a comment inside so many others,
or in text with this quotation mark. -/
inductive State where
  | code
  | line
  | block (depth : ℕ)
  | quote (mark : Char)

def isQuote (c : Char) : Bool := c == '"' || c.toNat == 39

def isNewline (c : Char) : Bool := c == '\n' || c == '\r'

/-- The code of the text from here on. -/
def codeOf : State → List Char → List Char
  | _, [] => []
  | .code, '-' :: '-' :: cs => ' ' :: codeOf .line cs
  | .code, '/' :: '*' :: cs => ' ' :: codeOf (.block 0) cs
  | .code, c :: cs => if isQuote c then '"' :: codeOf (.quote c) cs else c :: codeOf .code cs
  | .line, c :: cs => if isNewline c then c :: codeOf .code cs else codeOf .line cs
  | .block 0, '*' :: '/' :: cs => codeOf .code cs
  | .block (depth + 1), '*' :: '/' :: cs => codeOf (.block depth) cs
  | .block depth, '/' :: '*' :: cs => codeOf (.block (depth + 1)) cs
  | .block depth, _ :: cs => codeOf (.block depth) cs
  | .quote mark, c :: cs => if c = mark then codeOf .code cs else codeOf (.quote mark) cs

attribute [local simp] codeOf

/-! ## 2. Two passes -/

/-- A comment that has begun comes to an end. -/
def closes (cs : List Char) : Bool := decide (['*', '/'] <:+: cs)

/-- The pass over the comments between slashes and asterisks, from outside or from inside one: each
becomes a space, and ends where one first can. -/
def stripBlocks : Bool → List Char → List Char
  | _, [] => []
  | false, '/' :: '*' :: cs =>
    if closes cs then ' ' :: stripBlocks true cs else '/' :: '*' :: stripBlocks false cs
  | false, c :: cs => c :: stripBlocks false cs
  | true, '*' :: '/' :: cs => stripBlocks false cs
  | true, _ :: cs => stripBlocks true cs

attribute [local simp] stripBlocks

/-- The pass over the comments to the end of the line, from outside or from inside one. -/
def stripLines : Bool → List Char → List Char
  | _, [] => []
  | false, '-' :: '-' :: cs => ' ' :: stripLines true cs
  | false, c :: cs => c :: stripLines false cs
  | true, c :: cs => if isNewline c then c :: stripLines false cs else stripLines true cs

attribute [local simp] stripLines

/-- Where the reader is, and whether the passes are inside a comment of their own there, each of its
kind. -/
inductive Both where
  | code
  | line (block : Bool)
  | block
  | quote (mark : Char) (block line : Bool)

/-- The code from here on, up to the first comment that holds the beginning of another of its kind, and up
to the first line or quoted text at whose end the passes are inside a comment that is none. -/
def commonOf : Both → List Char → List Char
  | _, [] => []
  | .code, '-' :: '-' :: cs => ' ' :: commonOf (.line false) cs
  | .code, '/' :: '*' :: cs => ' ' :: commonOf .block cs
  | .code, c :: cs =>
    if isQuote c then '"' :: commonOf (.quote c false false) cs else c :: commonOf .code cs
  | .line false, '/' :: '*' :: cs => commonOf (.line (closes cs)) cs
  | .line false, c :: cs => if isNewline c then c :: commonOf .code cs else commonOf (.line false) cs
  | .line true, '*' :: '/' :: cs => commonOf (.line false) cs
  | .line true, c :: cs => if isNewline c then [] else commonOf (.line true) cs
  | .block, '*' :: '/' :: cs => commonOf .code cs
  | .block, '/' :: '*' :: _ => []
  | .block, _ :: cs => commonOf .block cs
  | .quote mark false line, '/' :: '*' :: cs => commonOf (.quote mark (closes cs) line) cs
  | .quote mark false false, '-' :: '-' :: cs => commonOf (.quote mark false true) cs
  | .quote mark false line, c :: cs =>
    if c = mark then if line then [] else commonOf .code cs
    else commonOf (.quote mark false (line && !isNewline c)) cs
  | .quote mark true line, '*' :: '/' :: cs => commonOf (.quote mark false line) cs
  | .quote mark true line, c :: cs => if c = mark then [] else commonOf (.quote mark true line) cs

attribute [local simp] commonOf

/-! ## 3. Phrases -/

/-- What follows a word in capitals, which is written in any case. -/
def wordAt : List Char → List Char → Option (List Char)
  | [], cs => some cs
  | w :: word, c :: cs => if upper c = w then wordAt word cs else none
  | _ :: _, [] => none

attribute [local simp] wordAt

/-- What follows words with space between them. -/
def phraseAt (space : Char → Bool) : List (List Char) → List Char → Option (List Char)
  | [], cs => some cs
  | [word], cs => wordAt word cs
  | word :: words, cs =>
    match wordAt word cs with
    | some rest =>
      if rest.head?.any space then phraseAt space words (rest.dropWhile space) else none
    | none => none

attribute [local simp] phraseAt

/-- The phrase is here, and nothing continues its last word. -/
def wholeAt (space ident : Char → Bool) (words : List (List Char)) (cs : List Char) : Bool :=
  match phraseAt space words cs with
  | some rest => !rest.head?.any ident
  | none => false

/-- Something is found here or further on, and not after a character that it would continue. -/
def occurs (found : List Char → Bool) (ident : Char → Bool) : Bool → List Char → Bool
  | _, [] => false
  | continued, c :: cs => (!continued && found (c :: cs)) || occurs found ident (ident c) cs

attribute [local simp] occurs

/-- The white space of SQL. -/
def sqlSpace (c : Char) : Bool := c == ' ' || (9 ≤ c.toNat && c.toNat ≤ 13)

/-- A letter, a digit or an underscore of ASCII. -/
def isWord (c : Char) : Bool := isUpper c || isLower c || isDigit c || c == '_'

/-- A character of an identifier of SQL. -/
def isIdent (c : Char) : Bool := isWord c || c == '$' || 128 ≤ c.toNat

/-- **The phrase occurs** in this code. -/
def Occurs (words : List (List Char)) (code : List Char) : Prop :=
  occurs (wholeAt sqlSpace isIdent words) isIdent false code = true

instance (words : List (List Char)) (code : List Char) : Decidable (Occurs words code) :=
  inferInstanceAs (Decidable (_ = true))

/-! ## 4. What the passes show -/

/-- Code, and text in which it can be found: quoted text is there as it is, and after the end of the code
there may be more. -/
inductive Shows : List Char → List Char → Prop
  | nil : Shows [] []
  | char (c : Char) {code text : List Char} (h : Shows code text) : Shows (c :: code) (c :: text)
  | quoted {mark mark' : Char} (inside : List Char) {code text : List Char} (hmark : isQuote mark = true)
    (hmark' : isQuote mark' = true) (h : Shows code text) :
    Shows ('"' :: code) (mark :: (inside ++ mark' :: text))
  | last {v c : Char} (text : List Char) (hv : v = ' ' ∨ v = '"') (hc : isWord c = false) :
    Shows [v] (c :: text)

theorem isQuote_cases {c : Char} (h : isQuote c = true) : c = '"' ∨ c = Char.ofNat 39 := by
  simp only [isQuote, Bool.or_eq_true, beq_iff_eq] at h
  rcases h with h | h
  · exact Or.inl h
  · exact Or.inr (h ▸ (Char.ofNat_toNat c).symm)

theorem isWord_quote {c : Char} (h : isQuote c = true) : isWord c = false := by
  rcases isQuote_cases h with rfl | rfl <;> rfl

theorem ne_of_quote {c : Char} (h : isQuote c = true) : c ≠ '-' ∧ c ≠ '/' ∧ c ≠ '*' := by
  rcases isQuote_cases h with rfl | rfl <;> decide

theorem stripBlocks_cons {c : Char} {cs : List Char} (h : ∀ rest, c = '/' → cs = '*' :: rest → False) :
    stripBlocks false (c :: cs) = c :: stripBlocks false cs := by
  rw [stripBlocks]
  exact h

/-- A character that the first pass leaves at the front was there. -/
theorem stripBlocks_front {cs text : List Char} (h : stripBlocks false cs = '-' :: text) :
    ∃ rest, cs = '-' :: rest := by
  rcases cs with _ | ⟨c, rest⟩
  · cases h
  · refine ⟨rest, ?_⟩
    by_cases hopens : c = '/' ∧ ∃ after, rest = '*' :: after
    · obtain ⟨rfl, after, rfl⟩ := hopens
      rw [stripBlocks] at h
      split at h <;> cases h
    · rw [stripBlocks_cons fun after hc hrest => hopens ⟨hc, after, hrest⟩] at h
      rw [(List.cons.inj h).1]

/-- Nothing begins for the second pass that was not there. -/
theorem strip_cons {c : Char} {cs : List Char} (hblock : ∀ rest, c = '/' → cs = '*' :: rest → False)
    (hline : ∀ rest, c = '-' → cs = '-' :: rest → False) :
    stripLines false (stripBlocks false (c :: cs)) = c :: stripLines false (stripBlocks false cs) := by
  rw [stripBlocks_cons hblock, stripLines]
  intro text hc htext
  obtain ⟨rest, hrest⟩ := stripBlocks_front htext
  exact hline rest hc hrest

/-- What both read from here on is found in what the passes leave; there may be nothing of it inside a
comment or quoted text. -/
def Found : Both → List Char → Prop
  | .code, cs => Shows (commonOf .code cs) (stripLines false (stripBlocks false cs))
  | .line block, cs =>
    commonOf (.line block) cs = [] ∨
      Shows (commonOf (.line block) cs) (stripLines true (stripBlocks block cs))
  | .block, cs =>
    commonOf .block cs = [] ∨ Shows (commonOf .block cs) (stripLines false (stripBlocks true cs))
  | .quote mark block line, cs => isQuote mark = true →
    commonOf (.quote mark block line) cs = [] ∨
      ∃ inside text, stripLines line (stripBlocks block cs) = inside ++ mark :: text ∧
        Shows (commonOf (.quote mark block line) cs) text

theorem shows_space {code text : List Char} (h : code = [] ∨ Shows code text) :
    Shows (' ' :: code) (' ' :: text) := by
  rcases h with rfl | h
  · exact .last _ (Or.inl rfl) rfl
  · exact .char ' ' h

/-- Further inside quoted text. -/
theorem quote_further {mark : Char} {code text text' : List Char} (shown : List Char)
    (htext : text' = shown ++ text)
    (h : code = [] ∨ ∃ inside rest, text = inside ++ mark :: rest ∧ Shows code rest) :
    code = [] ∨ ∃ inside rest, text' = inside ++ mark :: rest ∧ Shows code rest := by
  rcases h with h | ⟨inside, rest, rfl, h⟩
  · exact Or.inl h
  · exact Or.inr ⟨shown ++ inside, rest, by rw [htext, List.append_assoc], h⟩

theorem closes_tail {c : Char} {cs : List Char} (h : closes (c :: cs) = false) : closes cs = false := by
  rw [closes, decide_eq_false_iff_not] at h ⊢
  exact fun hin => h (hin.trans (List.suffix_cons c cs).isInfix)

/-- A comment that does not come to an end is not followed by anything. -/
theorem commonOf_open {cs : List Char} (h : closes cs = false) : commonOf .block cs = [] := by
  induction cs with
  | nil => rw [commonOf]
  | cons c cs ih =>
    by_cases hends : c = '*' ∧ ∃ rest, cs = '/' :: rest
    · obtain ⟨rfl, rest, rfl⟩ := hends
      rw [closes, decide_eq_false_iff_not] at h
      exact absurd (List.prefix_append ['*', '/'] rest).isInfix h
    · by_cases hopens : c = '/' ∧ ∃ rest, cs = '*' :: rest
      · obtain ⟨rfl, rest, rfl⟩ := hopens
        rfl
      · rw [commonOf]
        · exact ih (closes_tail h)
        · exact fun rest hc hrest => hends ⟨hc, rest, hrest⟩
        · exact fun rest hc hrest => hopens ⟨hc, rest, hrest⟩

theorem stripBlocks_true {c : Char} {cs : List Char} (h : ∀ rest, c = '*' → cs = '/' :: rest → False) :
    stripBlocks true (c :: cs) = stripBlocks true cs := by
  rw [stripBlocks]
  exact h

theorem stripBlocks_opens (cs : List Char) :
    stripBlocks false ('/' :: '*' :: cs) = ' ' :: stripBlocks true cs ∧ closes cs = true ∨
      stripBlocks false ('/' :: '*' :: cs) = '/' :: '*' :: stripBlocks false cs ∧ closes cs = false := by
  rw [stripBlocks]
  split
  · exact Or.inl ⟨rfl, ‹_›⟩
  · exact Or.inr ⟨rfl, by simpa using ‹¬ closes cs = true›⟩

/-- Everything in common is found in what the passes leave. -/
theorem found (place : Both) (cs : List Char) : Found place cs := by
  fun_induction commonOf place cs with
  | case1 place =>
    cases place with
    | code => exact .nil
    | line => exact Or.inl (by rw [commonOf])
    | block => exact Or.inl (by rw [commonOf])
    | quote => exact fun _ => Or.inl (by rw [commonOf])
  | case2 cs ih => exact shows_space ih
  | case3 cs ih =>
    have hcommon : commonOf .code ('/' :: '*' :: cs) = ' ' :: commonOf .block cs := rfl
    rcases stripBlocks_opens cs with ⟨hstrip, -⟩ | ⟨hstrip, hopen⟩
    · rw [Found, hcommon, hstrip]
      exact shows_space ih
    · rw [Found, hcommon, hstrip, commonOf_open hopen]
      exact .last _ (Or.inl rfl) rfl
  | case4 c cs hline hblock hquote ih =>
    rw [Found, commonOf, if_pos hquote, strip_cons hblock hline]
    · rcases ih hquote with hnil | ⟨inside, text, htext, ih⟩
      · rw [hnil]
        exact .last _ (Or.inr rfl) (isWord_quote hquote)
      · rw [htext]
        exact .quoted inside hquote hquote ih
    · exact hline
    · exact hblock
  | case5 c cs hline hblock hquote ih =>
    rw [Found, commonOf, if_neg hquote, strip_cons hblock hline]
    · exact .char c ih
    · exact hline
    · exact hblock
  | case6 cs ih =>
    have hcommon : commonOf (.line false) ('/' :: '*' :: cs) = commonOf (.line (closes cs)) cs := rfl
    rcases stripBlocks_opens cs with ⟨hstrip, hcloses⟩ | ⟨hstrip, hcloses⟩ <;>
      rw [Found, hcommon, hstrip]
    · rw [hcloses] at ih ⊢
      exact ih
    · rw [hcloses] at ih ⊢
      exact ih
  | case7 c cs hblock hnewline ih =>
    rw [Found, commonOf, if_pos hnewline, stripBlocks_cons hblock, stripLines, if_pos hnewline]
    · exact Or.inr (.char c ih)
    · exact hblock
  | case8 c cs hblock hnewline ih =>
    rw [Found, commonOf, if_neg hnewline, stripBlocks_cons hblock, stripLines, if_neg hnewline]
    · exact ih
    · exact hblock
  | case9 cs ih => exact ih
  | case10 c cs hends hnewline =>
    rw [Found, commonOf, if_pos hnewline]
    · exact Or.inl rfl
    · exact hends
  | case11 c cs hends hnewline ih =>
    rw [Found, commonOf, if_neg hnewline, stripBlocks_true hends]
    · exact ih
    · exact hends
  | case12 cs ih => exact Or.inr ih
  | case13 cs => exact Or.inl rfl
  | case14 c cs hends hopens ih =>
    rw [Found, commonOf, stripBlocks_true hends]
    · exact ih
    · exact hends
    · exact hopens
  | case15 mark line cs ih =>
    intro hmark
    have hcommon : commonOf (.quote mark false line) ('/' :: '*' :: cs) =
      commonOf (.quote mark (closes cs) line) cs := by cases line <;> rfl
    rw [hcommon]
    rcases stripBlocks_opens cs with ⟨hstrip, hcloses⟩ | ⟨hstrip, hcloses⟩
    · rw [hstrip]
      rw [hcloses] at ih ⊢
      cases line with
      | false => exact quote_further [' '] rfl (ih hmark)
      | true => exact ih hmark
    · rw [hstrip]
      rw [hcloses] at ih ⊢
      cases line with
      | false => exact quote_further ['/', '*'] rfl (ih hmark)
      | true => exact ih hmark
  | case16 mark cs ih => exact fun hmark => quote_further [' '] rfl (ih hmark)
  | case17 mark cs hblock hline =>
    intro hmark
    rw [commonOf, if_pos rfl, if_pos rfl]
    · exact Or.inl rfl
    · exact hblock
    · exact hline
  | case18 line mark cs hblock hline hout ih =>
    intro hmark
    obtain rfl : line = false := by simpa using hout
    rw [commonOf, if_pos rfl, if_neg hout, strip_cons hblock fun rest => hline rest rfl]
    · exact Or.inr ⟨[], _, rfl, ih⟩
    · exact hblock
    · exact hline
  | case19 mark line c cs hblock hline hmark' ih =>
    intro hmark
    rw [commonOf, if_neg hmark']
    · cases line with
      | false =>
        rw [strip_cons hblock fun rest => hline rest rfl]
        exact quote_further [c] rfl (ih hmark)
      | true =>
        rw [stripBlocks_cons hblock, stripLines]
        cases hnewline : isNewline c with
        | false =>
          rw [hnewline] at ih
          exact ih hmark
        | true =>
          rw [hnewline] at ih
          exact quote_further [c] rfl (ih hmark)
    · exact hblock
    · exact hline
  | case20 mark line cs ih => exact ih
  | case21 line mark cs hends =>
    intro hmark
    rw [commonOf, if_pos rfl]
    · exact Or.inl rfl
    · exact hends
  | case22 mark line c cs hends hmark' ih =>
    intro hmark
    rw [commonOf, if_neg hmark', stripBlocks_true hends]
    · exact ih hmark
    · exact hends

theorem shows_common (cs : List Char) :
    Shows (commonOf .code cs) (stripLines false (stripBlocks false cs)) :=
  found .code cs

/-- Where the reader is. -/
def Both.state : Both → State
  | .code => .code
  | .line _ => .line
  | .block => .block 0
  | .quote mark _ _ => .quote mark

/-- Quoted text is between quotation marks. -/
def Both.Marked : Both → Prop
  | .quote mark _ _ => isQuote mark = true
  | _ => True

theorem codeOf_quote {mark c : Char} (hc : c ≠ mark) (cs : List Char) :
    codeOf (.quote mark) (c :: cs) = codeOf (.quote mark) cs := by
  rw [codeOf, if_neg hc]

/-- What both read is how the code begins. -/
theorem common_prefix (place : Both) (cs : List Char) (hmarked : place.Marked) :
    commonOf place cs <+: codeOf place.state cs := by
  fun_induction commonOf place cs with
  | case1 => exact List.nil_prefix
  | case2 cs ih => exact (List.prefix_cons_inj ' ').mpr (ih trivial)
  | case3 cs ih => exact (List.prefix_cons_inj ' ').mpr (ih trivial)
  | case4 c cs hline hblock hquote ih =>
    rw [Both.state, codeOf, if_pos hquote]
    · exact (List.prefix_cons_inj '"').mpr (ih hquote)
    · exact hline
    · exact hblock
  | case5 c cs hline hblock hquote ih =>
    rw [Both.state, codeOf, if_neg hquote]
    · exact (List.prefix_cons_inj c).mpr (ih trivial)
    · exact hline
    · exact hblock
  | case6 cs ih => exact ih trivial
  | case7 c cs hblock hnewline ih =>
    rw [Both.state, codeOf, if_pos hnewline]
    exact (List.prefix_cons_inj c).mpr (ih trivial)
  | case8 c cs hblock hnewline ih =>
    rw [Both.state, codeOf, if_neg hnewline]
    exact ih trivial
  | case9 cs ih =>
    have hcode : codeOf .line ('*' :: '/' :: cs) = codeOf .line cs := by
      rw [codeOf, if_neg (by decide), codeOf, if_neg (by decide)]
    rw [Both.state, hcode]
    exact ih trivial
  | case10 => exact List.nil_prefix
  | case11 c cs hends hnewline ih =>
    rw [Both.state, codeOf, if_neg hnewline]
    exact ih trivial
  | case12 cs ih => exact ih trivial
  | case13 => exact List.nil_prefix
  | case14 c cs hends hopens ih =>
    rw [Both.state, codeOf]
    · exact ih trivial
    · exact fun rest _ => hends rest
    · exact fun _ rest _ => hends rest
    · exact hopens
  | case15 mark line cs ih =>
    obtain ⟨-, hslash, hstar⟩ := ne_of_quote hmarked
    rw [Both.state, codeOf_quote hslash.symm, codeOf_quote hstar.symm]
    exact ih hmarked
  | case16 mark cs ih =>
    obtain ⟨hhyphen, -⟩ := ne_of_quote hmarked
    rw [Both.state, codeOf_quote hhyphen.symm, codeOf_quote hhyphen.symm]
    exact ih hmarked
  | case17 => exact List.nil_prefix
  | case18 line mark cs hblock hline hout ih =>
    rw [Both.state, codeOf, if_pos rfl]
    exact ih trivial
  | case19 mark line c cs hblock hline hmark ih =>
    rw [Both.state, codeOf_quote hmark]
    exact ih hmarked
  | case20 mark line cs ih =>
    obtain ⟨-, hslash, hstar⟩ := ne_of_quote hmarked
    rw [Both.state, codeOf_quote hstar.symm, codeOf_quote hslash.symm]
    exact ih hmarked
  | case21 => exact List.nil_prefix
  | case22 mark line c cs hends hmark ih =>
    rw [Both.state, codeOf_quote hmark]
    exact ih hmarked

/-! ## 5. Phrases in what is shown -/

variable {code text rest word : List Char} {words : List (List Char)}

theorem ne_of_last {v w : Char} (hv : v = ' ' ∨ v = '"') (hw : isUpper w = true) : upper v ≠ w := by
  rintro rfl
  rcases hv with rfl | rfl <;> cases hw

theorem Shows.wordAt (h : Shows code text) (hword : ∀ w ∈ word, isUpper w = true)
    (hat : SqlText.wordAt word code = some rest) :
    ∃ rest', SqlText.wordAt word text = some rest' ∧ Shows rest rest' := by
  induction word generalizing code text with
  | nil =>
    rw [SqlText.wordAt, Option.some.injEq] at hat
    exact ⟨text, by rw [SqlText.wordAt], hat ▸ h⟩
  | cons w word ih =>
    have hw := hword w List.mem_cons_self
    cases h with
    | nil => cases hat
    | char c h =>
      rw [SqlText.wordAt] at hat ⊢
      split at hat
      · rw [if_pos ‹_›]
        exact ih h (fun w' hw' => hword w' (List.mem_cons_of_mem w hw')) hat
      · cases hat
    | quoted =>
      rw [SqlText.wordAt, if_neg (ne_of_last (Or.inr rfl) hw)] at hat
      cases hat
    | last _ hv =>
      rw [SqlText.wordAt, if_neg (ne_of_last hv hw)] at hat
      cases hat

theorem isSpace_of_sqlSpace {c : Char} (h : sqlSpace c = true) : isSpace c = true := by
  simp only [sqlSpace, Bool.or_eq_true, beq_iff_eq] at h
  rcases h with rfl | h
  · rfl
  · rw [isSpace, h, Bool.true_or]

theorem isSpace_of_letter {c : Char} (h : isUpper (upper c) = true) : isSpace c = false := by
  have hrange : 65 ≤ c.toNat ∧ c.toNat ≤ 122 := by
    rw [upper] at h
    split at h
    · rename_i hlower
      simp only [isLower, Bool.and_eq_true, decide_eq_true_eq, Char.le_def,
        UInt32.le_iff_toNat_le] at hlower
      exact ⟨le_trans (by decide) hlower.1, hlower.2⟩
    · simp only [isUpper, Bool.and_eq_true, decide_eq_true_eq, Char.le_def,
        UInt32.le_iff_toNat_le] at h
      exact ⟨h.1, le_trans h.2 (by decide)⟩
  simp only [isSpace, spaces, Bool.or_eq_false_iff, Bool.and_eq_false_iff, decide_eq_false_iff_not,
    List.contains_eq_mem, List.mem_cons, List.not_mem_nil, or_false]
  omega

/-- Between two words there is the same space, and the second word after it. -/
theorem Shows.dropWhile (h : Shows code text)
    (hnext : ∃ c, (code.dropWhile sqlSpace).head? = some c ∧ isUpper (upper c) = true) :
    Shows (code.dropWhile sqlSpace) (text.dropWhile isSpace) := by
  induction h with
  | nil => exact .nil
  | char c h ih =>
    rw [List.dropWhile_cons] at hnext ⊢
    rw [List.dropWhile_cons]
    cases hc : sqlSpace c with
    | true =>
      rw [isSpace_of_sqlSpace hc, if_pos rfl, if_pos rfl]
      rw [hc, if_pos rfl] at hnext
      exact ih hnext
    | false =>
      rw [hc] at hnext
      obtain ⟨_, hhead, hupper⟩ := hnext
      obtain rfl := Option.some.inj hhead
      rw [isSpace_of_letter hupper]
      exact .char c h
  | quoted =>
    obtain ⟨c, hhead, hupper⟩ := hnext
    obtain rfl := Option.some.inj hhead
    cases hupper
  | last _ hv =>
    obtain ⟨c, hhead, hupper⟩ := hnext
    rcases hv with rfl | rfl
    · cases hhead
    · obtain rfl := Option.some.inj hhead
      cases hupper

/-- A word in capitals that is not empty. -/
def isCapitals (word : List Char) : Bool := !word.isEmpty && word.all isUpper

theorem isCapitals_iff : isCapitals word = true ↔ word ≠ [] ∧ ∀ w ∈ word, isUpper w = true := by
  rw [isCapitals, Bool.and_eq_true, List.all_eq_true, Bool.not_eq_true', List.isEmpty_eq_false_iff]

theorem head_of_phraseAt {space : Char → Bool} (hword : isCapitals word = true)
    (hat : phraseAt space (word :: words) code = some rest) :
    ∃ c, code.head? = some c ∧ isUpper (upper c) = true := by
  obtain ⟨hne, hupper⟩ := isCapitals_iff.mp hword
  obtain ⟨w, word, rfl⟩ := List.exists_cons_of_ne_nil hne
  have hw := hupper w List.mem_cons_self
  have hsome : ∃ rest, wordAt (w :: word) code = some rest := by
    cases words with
    | nil => exact ⟨rest, hat⟩
    | cons word' words =>
      rw [phraseAt] at hat
      · split at hat
        · exact ⟨_, ‹_›⟩
        · cases hat
      · exact List.cons_ne_nil word' words
  obtain ⟨rest, hrest⟩ := hsome
  cases code with
  | nil => cases hrest
  | cons c code =>
    rw [wordAt] at hrest
    split at hrest
    · rename_i hc
      exact ⟨c, rfl, hc ▸ hw⟩
    · cases hrest

theorem Shows.head_space (h : Shows code text) (hspace : code.head?.any sqlSpace = true)
    (hnext : ∃ c, (code.dropWhile sqlSpace).head? = some c ∧ isUpper (upper c) = true) :
    text.head?.any isSpace = true := by
  cases h with
  | nil => cases hspace
  | char c h => exact isSpace_of_sqlSpace hspace
  | quoted => cases hspace
  | last _ hv =>
    obtain ⟨c, hhead, hupper⟩ := hnext
    rcases hv with rfl | rfl
    · cases hhead
    · cases hspace

/-- Where nothing continues a word of the code, nothing continues it in what shows the code. -/
theorem Shows.head_ident (h : Shows code text) (hident : code.head?.any isIdent = false) :
    text.head?.any isWord = false := by
  cases h with
  | nil => rfl
  | char c h =>
    have hc : isIdent c = false := hident
    rw [isIdent, Bool.or_eq_false_iff, Bool.or_eq_false_iff] at hc
    exact hc.1.1
  | quoted _ hmark => exact isWord_quote hmark
  | last _ _ hc => exact hc

theorem Shows.phraseAt (h : Shows code text) (hwords : ∀ word ∈ words, isCapitals word = true)
    (hat : SqlText.phraseAt sqlSpace words code = some rest) :
    ∃ rest', SqlText.phraseAt isSpace words text = some rest' ∧ Shows rest rest' := by
  induction words generalizing code text with
  | nil =>
    rw [SqlText.phraseAt, Option.some.injEq] at hat
    exact ⟨text, by rw [SqlText.phraseAt], hat ▸ h⟩
  | cons word words ih =>
    have hword := (isCapitals_iff.mp (hwords word List.mem_cons_self)).2
    cases words with
    | nil => exact h.wordAt hword hat
    | cons word' words =>
      have hwords' : ∀ w ∈ word' :: words, isCapitals w = true := fun w hw =>
        hwords w (List.mem_cons_of_mem word hw)
      have hmore : word' :: words = [] → False := List.cons_ne_nil word' words
      rw [SqlText.phraseAt] at hat ⊢
      · split at hat
        · rename_i after hafter
          split at hat
          · rename_i hspace
            obtain ⟨after', hafter', hshows⟩ := h.wordAt hword hafter
            have hnext := head_of_phraseAt (hwords' word' List.mem_cons_self) hat
            rw [hafter']
            simp only [if_pos (hshows.head_space hspace hnext)]
            exact ih (hshows.dropWhile hnext) hwords' hat
          · cases hat
        · cases hat
      · exact hmore
      · exact hmore

theorem Shows.wholeAt (h : Shows code text) (hwords : ∀ word ∈ words, isCapitals word = true)
    (hat : SqlText.wholeAt sqlSpace isIdent words code = true) :
    SqlText.wholeAt isSpace isWord words text = true := by
  rw [SqlText.wholeAt] at hat ⊢
  split at hat
  · rename_i rest hrest
    obtain ⟨rest', hrest', hshows⟩ := h.phraseAt hwords hrest
    rw [hrest']
    simp only [hshows.head_ident (by simpa using hat), Bool.not_false]
  · cases hat

theorem occurs_append {found : List Char → Bool} {ident : Char → Bool} (before : List Char) {c : Char}
    {cs : List Char} (h : occurs found ident (ident c) cs = true) (continued : Bool) :
    occurs found ident continued (before ++ c :: cs) = true := by
  induction before generalizing continued with
  | nil => rw [List.nil_append, occurs, h, Bool.or_true]
  | cons b before ih => rw [List.cons_append, occurs, ih, Bool.or_true]

/-- Where a word does not begin, no phrase does. -/
theorem wholeAt_last {v : Char} {space ident : Char → Bool} (hv : v = ' ' ∨ v = '"') (hne : words ≠ [])
    (hwords : ∀ word ∈ words, isCapitals word = true) : wholeAt space ident words (v :: code) = false := by
  obtain ⟨word, words, rfl⟩ := List.exists_cons_of_ne_nil hne
  rw [wholeAt]
  split
  · rename_i rest hrest
    obtain ⟨c, hhead, hupper⟩ := head_of_phraseAt (hwords word List.mem_cons_self) hrest
    obtain rfl := Option.some.inj hhead
    rcases hv with rfl | rfl <;> cases hupper
  · rfl

theorem Shows.occurs (h : Shows code text) (hne : words ≠ []) (hwords : ∀ word ∈ words, isCapitals word = true)
    {continued continued' : Bool} (hcontinued : continued = false → continued' = false)
    (hocc : SqlText.occurs (SqlText.wholeAt sqlSpace isIdent words) isIdent continued code = true) :
    SqlText.occurs (SqlText.wholeAt isSpace isWord words) isWord continued' text = true := by
  induction h generalizing continued continued' with
  | nil => cases hocc
  | char c h ih =>
    rw [SqlText.occurs, Bool.or_eq_true, Bool.and_eq_true] at hocc ⊢
    rcases hocc with ⟨hfree, hat⟩ | hocc
    · refine Or.inl ⟨?_, (Shows.char c h).wholeAt hwords hat⟩
      rw [hcontinued (by simpa using hfree)]
      rfl
    · refine Or.inr (ih (fun hc => ?_) hocc)
      rw [isIdent, Bool.or_eq_false_iff, Bool.or_eq_false_iff] at hc
      exact hc.1.1
  | quoted inside hmark hmark' h ih =>
    rw [SqlText.occurs, wholeAt_last (Or.inr rfl) hne hwords, Bool.and_false, Bool.false_or] at hocc
    rw [← List.cons_append]
    exact occurs_append _ (ih (fun _ => isWord_quote hmark') hocc) continued'
  | last _ hv =>
    rw [SqlText.occurs, wholeAt_last hv hne hwords, Bool.and_false, Bool.false_or] at hocc
    cases hocc

end SqlText
