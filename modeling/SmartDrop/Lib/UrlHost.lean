/-
# The host of an `https` URL

How the parser of the URL standard finds the host in a text that begins with `https:`.  It strips control
characters and spaces from both ends and takes out tabs and line ends, passes over slashes of either kind,
and reads up to the next slash, `?` or `#`.  What stands before the last `@` there is a user name and a
password, and what stands after the first `:` outside brackets is a port.  How the rest is read as a host
(decoded, mapped to ASCII, checked) is left to a function that is given.
-/
import SmartDrop.Lib.JsText
import Mathlib.Data.List.DropRight

namespace UrlHost

open JsText

/-! ## 1. The parser -/

/-- A C0 control or a space. -/
def isControlOrSpace (c : Char) : Bool := c.toNat ≤ 0x20

/-- A tab or a line end. -/
def isTabOrNewline (c : Char) : Bool := c == '\t' || c == '\n' || c == '\r'

/-- What ends the authority of a special URL. -/
def isDelimiter (c : Char) : Bool := c == '/' || c == '\\' || c == '?' || c == '#'

/-- The end of a text as the parser sees it. -/
def clean (cs : List Char) : List Char :=
  (cs.rdropWhile isControlOrSpace).filter fun c => !isTabOrNewline c

/-- The part of a text that still belongs to the authority. -/
def authority (cs : List Char) : List Char := cs.takeWhile fun c => !isDelimiter c

/-- What follows the user name and the password. -/
def afterUserinfo (cs : List Char) : List Char := cs.rtakeWhile (· ≠ '@')

/-- The host and the port, if there is one; `inside` brackets a colon does not count. -/
def cutPort : Bool → List Char → List Char × Option (List Char)
  | _, [] => ([], none)
  | inside, c :: cs =>
    if c = ':' ∧ inside = false then ([], some cs)
    else
      let rest := cutPort (c == '[' || (inside && c != ']')) cs
      (c :: rest.1, rest.2)

def isPort (cs : List Char) : Bool := cs.all isDigit && Nat.ofDigitChars 10 cs 0 ≤ 65535

section Parser

variable (parseHost : List Char → Option String)

/-- The host of a host with its port. -/
def hostAndPort (cs : List Char) : Option String :=
  match cutPort false cs with
  | ([], _) => none
  | (c :: host, port) => if port.all isPort then parseHost (c :: host) else none

/-- The host of a URL, or `none` where the parser fails. -/
def hostOf (url : List Char) : Option String :=
  let cs := clean (url.dropWhile isControlOrSpace)
  if "https:".toList.isPrefixOf cs then
    hostAndPort parseHost
      (afterUserinfo (authority ((cs.drop 6).dropWhile fun c => c == '/' || c == '\\')))
  else none

end Parser

/-! ## 2. A name at the start -/

/-- A letter, a digit, a hyphen or a dot. -/
def isNameChar (c : Char) : Bool := isUpper c || isLower c || isDigit c || c == '-' || c == '.'

/-- A text of such characters. -/
structure IsName (name : List Char) : Prop where
  ne_nil : name ≠ []
  chars : ∀ c ∈ name, isNameChar c = true

instance (name : List Char) : Decidable (IsName name) :=
  decidable_of_iff (name ≠ [] ∧ name.all isNameChar = true)
    ⟨fun h => ⟨h.1, List.all_eq_true.mp h.2⟩, fun h => ⟨h.ne_nil, List.all_eq_true.mpr h.chars⟩⟩

/-- None of them means anything to the parser. -/
theorem isNameChar_plain {c : Char} (h : isNameChar c = true) :
    isControlOrSpace c = false ∧ isTabOrNewline c = false ∧ isDelimiter c = false ∧ c ≠ '@' ∧
      c ≠ ':' ∧ c ≠ '[' ∧ c ≠ ']' := by
  have hrange : ∀ n < 128, isNameChar (Char.ofNat n) = true →
      isControlOrSpace (Char.ofNat n) = false ∧ isTabOrNewline (Char.ofNat n) = false ∧
      isDelimiter (Char.ofNat n) = false ∧ Char.ofNat n ≠ '@' ∧ Char.ofNat n ≠ ':' ∧
      Char.ofNat n ≠ '[' ∧ Char.ofNat n ≠ ']' := by decide +kernel
  have hlt : c.toNat < 128 := by
    have hle : c ≤ 'z' := by
      by_contra hgt
      simp only [isNameChar, isUpper, isLower, isDigit, Bool.or_eq_true, Bool.and_eq_true,
        decide_eq_true_eq, beq_iff_eq] at h
      rcases h with (((h | h) | h) | rfl) | rfl
      · exact hgt (h.2.trans (by decide))
      · exact hgt h.2
      · exact hgt (h.2.trans (by decide))
      · exact hgt (by decide)
      · exact hgt (by decide)
    exact lt_of_le_of_lt (Char.le_def.mp hle) (by decide)
  have hof := hrange c.toNat hlt
  rw [Char.ofNat_toNat] at hof
  exact hof h

/-- Text without spaces and control characters is kept. -/
theorem clean_append {text : List Char}
    (htext : ∀ c ∈ text, isControlOrSpace c = false ∧ isTabOrNewline c = false) (tail : List Char) :
    clean (text ++ tail) = text ++ clean tail := by
  have hdrop : (text ++ tail).rdropWhile isControlOrSpace =
      text ++ tail.rdropWhile isControlOrSpace := by
    induction tail using List.reverseRecOn with
    | nil =>
      rw [List.append_nil, List.rdropWhile_nil, List.append_nil, List.rdropWhile_eq_self_iff]
      intro hl
      rw [(htext _ (List.getLast_mem hl)).1]
      exact Bool.false_ne_true
    | append_singleton tail c ih =>
      rw [← List.append_assoc, List.rdropWhile_concat, List.rdropWhile_concat, ih]
      split <;> simp
  have hkeep : text.filter (fun c => !isTabOrNewline c) = text := by
    rw [List.filter_eq_self]
    intro c hc
    rw [(htext c hc).2]
    rfl
  rw [clean, hdrop, List.filter_append, hkeep]
  rfl

/-- Before a slash nothing is stripped from the end. -/
theorem clean_slash (text tail : List Char) :
    clean (text ++ '/' :: tail) =
      text.filter (fun c => !isTabOrNewline c) ++ '/' :: clean tail := by
  have hdrop : (text ++ '/' :: tail).rdropWhile isControlOrSpace =
      text ++ '/' :: tail.rdropWhile isControlOrSpace := by
    induction tail using List.reverseRecOn with
    | nil => exact List.rdropWhile_concat_neg _ _ _ (by decide)
    | append_singleton tail c ih =>
      rw [← List.cons_append, ← List.append_assoc, List.rdropWhile_concat, List.rdropWhile_concat, ih]
      split <;> simp
  rw [clean, hdrop, List.filter_append]
  rfl

section Name

variable {parseHost : List Char → Option String} {name : List Char} (hname : IsName name)
include hname

theorem authority_append (tail : List Char) : authority (name ++ tail) = name ++ authority tail := by
  rw [authority, List.takeWhile_append_of_pos fun c hc => ?_]
  · rfl
  · rw [(isNameChar_plain (hname.chars c hc)).2.2.1]
    rfl

/-- A name alone, or one that a colon follows, is read as the host. -/
theorem cutPort_name (tail : List Char) :
    cutPort false (name ++ ':' :: tail) = (name, some tail) ∧ cutPort false name = (name, none) := by
  have hchars := hname.chars
  clear hname
  induction name with
  | nil => exact ⟨rfl, rfl⟩
  | cons c name ih =>
    obtain ⟨-, -, -, -, hcolon, hopen, -⟩ := isNameChar_plain (hchars c List.mem_cons_self)
    obtain ⟨hwith, hwithout⟩ := ih fun d hd => hchars d (List.mem_cons_of_mem _ hd)
    have hstep : ∀ cs, cutPort false (c :: cs) =
        (c :: (cutPort false cs).1, (cutPort false cs).2) := by
      intro cs
      have hbracket : (c == '[') = false := beq_eq_false_iff_ne.mpr hopen
      simp [cutPort, hcolon, hbracket]
    rw [List.cons_append, hstep, hstep, hwith, hwithout]
    exact ⟨rfl, rfl⟩

/-- **The host of a URL that begins with a name.** -/
theorem hostOf_name (tail : List Char) :
    hostOf parseHost ("https://".toList ++ (name ++ tail)) =
      hostAndPort parseHost (afterUserinfo (name ++ authority (clean tail))) := by
  obtain ⟨c, rest, rfl⟩ := List.exists_cons_of_ne_nil hname.ne_nil
  have hslash : (c == '/' || c == '\\') = false := by
    have hdelimiter := (isNameChar_plain (hname.chars c List.mem_cons_self)).2.2.1
    simp only [isDelimiter, Bool.or_eq_false_iff] at hdelimiter ⊢
    exact hdelimiter.1.1
  have hclean : clean (("https://".toList ++ (c :: rest ++ tail)).dropWhile isControlOrSpace) =
      "https://".toList ++ (c :: rest ++ clean tail) := by
    have hscheme : ∀ d ∈ "https://".toList, isControlOrSpace d = false ∧ isTabOrNewline d = false := by
      have hall : "https://".toList.all (fun d => !isControlOrSpace d && !isTabOrNewline d) = true := by
        decide
      simpa [List.all_eq_true] using hall
    have htext : ∀ d ∈ "https://".toList ++ c :: rest,
        isControlOrSpace d = false ∧ isTabOrNewline d = false := by
      intro d hd
      rcases List.mem_append.mp hd with hd | hd
      · exact hscheme d hd
      · obtain ⟨hcontrol, hnewline, -⟩ := isNameChar_plain (hname.chars d hd)
        exact ⟨hcontrol, hnewline⟩
    rw [← List.append_assoc, ← List.append_assoc, ← clean_append htext tail]
    rfl
  rw [hostOf, hclean]
  have hpre : "https:".toList.isPrefixOf ("https://".toList ++ (c :: rest ++ clean tail)) = true :=
    rfl
  have hdrop : ((("https://".toList ++ (c :: rest ++ clean tail)).drop 6).dropWhile
      fun c => c == '/' || c == '\\') = c :: rest ++ clean tail := by
    show ('/' :: '/' :: c :: (rest ++ clean tail)).dropWhile _ = _
    simp [hslash]
  show (if _ then _ else _) = _
  rw [if_pos hpre, hdrop, authority_append hname]

/-- Without a `@`, and with nothing or a colon after it, the name is the host. -/
theorem hostAndPort_name {x : List Char} (hat : '@' ∉ x) (hx : x = [] ∨ x.head? = some ':')
    {host : String} (h : hostAndPort parseHost (afterUserinfo (name ++ x)) = some host) :
    parseHost name = some host := by
  have hall : afterUserinfo (name ++ x) = name ++ x := by
    rw [afterUserinfo, List.rtakeWhile_eq_self_iff]
    intro c hc
    rcases List.mem_append.mp hc with hc | hc
    · exact decide_eq_true (isNameChar_plain (hname.chars c hc)).2.2.2.1
    · exact decide_eq_true fun heq => hat (heq ▸ hc)
  have hcut : (cutPort false (name ++ x)).1 = name := by
    rcases hx with rfl | hx
    · rw [List.append_nil, (cutPort_name hname []).2]
    · obtain ⟨port, rfl⟩ := List.head?_eq_some_iff.mp hx
      rw [(cutPort_name hname port).1]
  rw [hall, hostAndPort] at h
  split at h
  · cases h
  · rename_i c host' port hparts
    rw [hparts] at hcut
    split at h
    · rw [← hcut]
      exact h
    · cases h

end Name

end UrlHost
