/-
# Texts as JavaScript sees them

The white space that `String.prototype.trim` strips, a few tests on characters, and
`String.prototype.split`.  A text is the list of its characters, so that what is said of it can
be computed.
-/
import Mathlib.Data.List.TakeWhile
import Mathlib.Data.String.Basic

namespace JsText

/-- The code points of the white space and the line terminators above the control characters. -/
def spaces : List ℕ :=
  [0x20, 0xA0, 0x1680, 0x2000, 0x2001, 0x2002, 0x2003, 0x2004, 0x2005, 0x2006, 0x2007, 0x2008,
    0x2009, 0x200A, 0x2028, 0x2029, 0x202F, 0x205F, 0x3000, 0xFEFF]

/-- White space and line terminators. -/
def isSpace (c : Char) : Bool := (9 ≤ c.toNat && c.toNat ≤ 13) || spaces.contains c.toNat

/-- `text.trim()`. -/
def trim (text : String) : String :=
  String.ofList ((text.toList.dropWhile isSpace).reverse.dropWhile isSpace).reverse

/-- A text without white space has nothing to trim. -/
theorem trim_noSpace {cs : List Char} (h : ∀ c ∈ cs, isSpace c = false) :
    (trim (String.ofList cs)).toList = cs := by
  have hkeep : ∀ ds : List Char, (∀ c ∈ ds, isSpace c = false) → ds.dropWhile isSpace = ds := by
    rintro (_ | ⟨c, ds⟩) hds
    · rfl
    · rw [List.dropWhile_cons, hds c List.mem_cons_self]
      rfl
  rw [trim, String.toList_ofList, String.toList_ofList, hkeep cs h,
    hkeep cs.reverse (by simpa using h), List.reverse_reverse]

/-- `[A-Z]`. -/
def isUpper (c : Char) : Bool := 'A' ≤ c && c ≤ 'Z'

/-- `[a-z]`. -/
def isLower (c : Char) : Bool := 'a' ≤ c && c ≤ 'z'

/-- `[0-9]`. -/
def isDigit (c : Char) : Bool := '0' ≤ c && c ≤ '9'

/-- `toUpperCase()` of a letter or digit of ASCII. -/
def upper (c : Char) : Char := if isLower c then Char.ofNat (c.toNat - 32) else c

/-! ## Splitting -/

/-- The pieces of `text.split(sep)` from here on: `skip` characters of a separator are still to
be passed over, and `piece` is what the current piece has so far. -/
def splitFrom (sep : List Char) : ℕ → List Char → List Char → List (List Char)
  | _, piece, [] => [piece]
  | skip + 1, piece, _ :: cs => splitFrom sep skip piece cs
  | 0, piece, c :: cs =>
    if sep.isPrefixOf (c :: cs) then piece :: splitFrom sep (sep.length - 1) [] cs
    else splitFrom sep 0 (piece ++ [c]) cs

attribute [local simp] splitFrom

/-- `text.split(sep)`, for a separator that is not empty. -/
def split (sep text : List Char) : List (List Char) := splitFrom sep 0 [] text

variable {s : Char} {sep part : List Char}

theorem splitFrom_part (h : s ∉ part) (piece rest : List Char) :
    splitFrom (s :: sep) 0 piece (part ++ rest) = splitFrom (s :: sep) 0 (piece ++ part) rest := by
  induction part generalizing piece with
  | nil => simp
  | cons c part ih =>
    obtain ⟨hc, hpart⟩ : s ≠ c ∧ s ∉ part := by simpa using h
    simp only [List.cons_append, splitFrom, List.isPrefixOf, beq_eq_false_iff_ne.mpr hc,
      Bool.false_and, Bool.false_eq_true, if_false]
    rw [ih hpart, List.append_assoc, List.singleton_append]

theorem splitFrom_skip (piece skipped rest : List Char) :
    splitFrom sep skipped.length piece (skipped ++ rest) = splitFrom sep 0 piece rest := by
  induction skipped with
  | nil => rfl
  | cons c skipped ih => simpa [splitFrom] using ih

/-- A text without the first character of the separator is one piece. -/
theorem split_part (h : s ∉ part) : split (s :: sep) part = [part] := by
  have hall : splitFrom (s :: sep) 0 [] (part ++ []) = splitFrom (s :: sep) 0 ([] ++ part) [] :=
    splitFrom_part h [] []
  rw [List.append_nil] at hall
  rw [split, hall]
  rfl

/-- The first piece ends at the first separator. -/
theorem split_append (sep : List Char) (h : s ∉ part) (rest : List Char) :
    split (s :: sep) (part ++ (s :: sep ++ rest)) = part :: split (s :: sep) rest := by
  have hpre : (s :: sep).isPrefixOf (s :: (sep ++ rest)) = true := by
    simp [List.isPrefixOf_iff_prefix]
  rw [split, splitFrom_part h, List.nil_append, List.cons_append, splitFrom, if_pos hpre]
  rw [List.length_cons, Nat.add_sub_cancel, splitFrom_skip]
  rfl

/-- The same for a separator of one character. -/
theorem split_cons (h : s ∉ part) (rest : List Char) :
    split [s] (part ++ s :: rest) = part :: split [s] rest :=
  split_append [] h rest

theorem splitFrom_ne_nil (skip : ℕ) (piece text : List Char) : splitFrom sep skip piece text ≠ [] := by
  fun_induction splitFrom sep skip piece text with
  | case1 => exact List.cons_ne_nil _ _
  | case2 _ _ _ _ ih => exact ih
  | case3 => exact List.cons_ne_nil _ _
  | case4 _ _ _ _ ih => exact ih

/-- No piece holds the separator, when that is one character. -/
theorem not_mem_of_mem_splitFrom {text piece : List Char} (hpiece : s ∉ piece) :
    ∀ part ∈ splitFrom [s] 0 piece text, s ∉ part := by
  induction text generalizing piece with
  | nil =>
    intro part hpart
    rw [splitFrom, List.mem_singleton] at hpart
    exact hpart ▸ hpiece
  | cons c text ih =>
    rw [splitFrom]
    split
    · intro part hpart
      rcases List.mem_cons.mp hpart with rfl | hpart
      · exact hpiece
      · exact ih List.not_mem_nil part hpart
    · rename_i hc
      refine ih ?_
      rw [List.mem_append, List.mem_singleton, not_or]
      refine ⟨hpiece, ?_⟩
      rintro rfl
      simp [List.isPrefixOf] at hc

/-- A text without the separator is one piece. -/
theorem splitFrom_of_not_infix {text : List Char} (h : ¬ sep <:+: text) (piece : List Char) :
    splitFrom sep 0 piece text = [piece ++ text] := by
  induction text generalizing piece with
  | nil => rw [splitFrom, List.append_nil]
  | cons c text ih =>
    have hhead : ¬ sep.isPrefixOf (c :: text) = true := by
      rw [List.isPrefixOf_iff_prefix]
      exact fun hp => h hp.isInfix
    rw [splitFrom, if_neg hhead, ih fun hi => h (hi.trans (List.suffix_cons c text).isInfix),
      List.append_assoc, List.singleton_append]

/-- Where no separator begins in a piece, there is none in it. -/
theorem not_infix_of_scanned {piece text : List Char} (hsep : sep ≠ [])
    (h : ∀ i < piece.length, ¬ sep <+: (piece ++ text).drop i) : ¬ sep <:+: piece := by
  rintro ⟨before, after, rfl⟩
  have hlength := List.length_pos_of_ne_nil hsep
  refine h before.length (by simp only [List.length_append]; omega) ?_
  rw [List.append_assoc, List.append_assoc, List.drop_left]
  exact List.prefix_append _ _

/-- No piece holds the separator: it would have ended there. -/
theorem not_infix_of_mem_splitFrom (hsep : sep ≠ []) {skip : ℕ} {piece text : List Char}
    (hskip : skip ≠ 0 → piece = [])
    (hpiece : ∀ i < piece.length, ¬ sep <+: (piece ++ text).drop i) :
    ∀ part ∈ splitFrom sep skip piece text, ¬ sep <:+: part := by
  fun_induction splitFrom sep skip piece text with
  | case1 skip piece =>
    intro part hpart
    rw [List.mem_singleton.mp hpart]
    exact not_infix_of_scanned hsep hpiece
  | case2 skip piece c text ih =>
    obtain rfl := hskip (Nat.succ_ne_zero _)
    exact ih (fun _ => rfl) (by simp)
  | case3 piece c text hhead ih =>
    intro part hpart
    rcases List.mem_cons.mp hpart with rfl | hpart
    · exact not_infix_of_scanned hsep hpiece
    · exact ih (fun _ => rfl) (by simp) part hpart
  | case4 piece c text hhead ih =>
    refine ih (fun h => absurd rfl h) fun i hi => ?_
    rw [List.append_assoc, List.singleton_append]
    rcases Nat.lt_or_ge i piece.length with hlt | hge
    · exact hpiece i hlt
    · obtain rfl : i = piece.length := by
        rw [List.length_append, List.length_singleton] at hi
        omega
      rw [List.drop_left, ← List.isPrefixOf_iff_prefix]
      exact hhead

theorem not_infix_of_mem_split (hsep : sep ≠ []) {text : List Char} :
    ∀ part ∈ split sep text, ¬ sep <:+: part :=
  not_infix_of_mem_splitFrom hsep (fun _ => rfl) (by simp)

/-- The pieces and the separators between them are the text. -/
theorem intercalate_splitFrom (text piece : List Char) :
    [s].intercalate (splitFrom [s] 0 piece text) = piece ++ text := by
  induction text generalizing piece with
  | nil => simp [splitFrom]
  | cons c text ih =>
    rw [splitFrom]
    split
    · rename_i hc
      obtain rfl : s = c := by simpa [List.isPrefixOf] using hc
      change [s].intercalate (piece :: splitFrom [s] 0 [] text) = piece ++ s :: text
      rw [List.intercalate_cons_of_ne_nil (splitFrom_ne_nil _ _ _), ih, List.nil_append,
        List.append_assoc, List.singleton_append]
    · rw [ih, List.append_assoc, List.singleton_append]

theorem intercalate_split (text : List Char) : [s].intercalate (split [s] text) = text :=
  (intercalate_splitFrom text []).trans (List.nil_append text)

/-- A piece is a part of the text. -/
theorem infix_of_mem_split {text part : List Char} (h : part ∈ split [s] text) : part <:+: text := by
  have hjoin := intercalate_split (s := s) text
  generalize split [s] text = pieces at h hjoin
  rw [← hjoin]
  obtain ⟨before, after, rfl⟩ := List.append_of_mem h
  clear hjoin h
  induction before with
  | nil =>
    cases after with
    | nil => simp
    | cons b after =>
      rw [List.nil_append, List.intercalate_cons_of_ne_nil (List.cons_ne_nil _ _), List.append_assoc]
      exact (List.prefix_append _ _).isInfix
  | cons b before ih =>
    rw [List.cons_append, List.intercalate_cons_of_ne_nil (by simp)]
    exact ih.trans (List.suffix_append _ _).isInfix

/-- The first piece is what stands before the first separator. -/
theorem split_eq_cons (s : Char) (text : List Char) :
    ∃ pieces, split [s] text = text.takeWhile (· ≠ s) :: pieces := by
  by_cases hs : s ∈ text
  · obtain ⟨part, rest, rfl, hpart⟩ := List.eq_append_cons_of_mem hs
    refine ⟨split [s] rest, ?_⟩
    rw [split_cons hpart, List.takeWhile_append_of_pos fun c hc => ?_]
    · simp
    · simpa using fun h : c = s => hpart (h ▸ hc)
  · refine ⟨[], ?_⟩
    rw [split_part hs, List.takeWhile_eq_self_iff.mpr fun c hc => ?_]
    simpa using fun h : c = s => hs (h ▸ hc)

/-- Where a text is cut at a character: at the first one, or further on. -/
theorem append_cons_cases {as bs cs ds : List Char} (hs : s ∉ cs)
    (h : as ++ s :: bs = cs ++ s :: ds) :
    as = cs ∧ bs = ds ∨ ∃ more, as = cs ++ s :: more ∧ more ++ s :: bs = ds := by
  rcases List.append_eq_append_iff.mp h with ⟨l, hl, hr⟩ | ⟨l, hl, hr⟩
  · cases l with
    | nil =>
      rw [List.append_nil] at hl
      exact .inl ⟨hl.symm, (List.cons.inj hr).2⟩
    | cons c l =>
      obtain ⟨rfl, -⟩ := List.cons.inj hr
      exact absurd (hl ▸ List.mem_append_right _ List.mem_cons_self) hs
  · cases l with
    | nil =>
      rw [List.append_nil] at hl
      exact .inl ⟨hl, (List.cons.inj hr).2.symm⟩
    | cons c l =>
      obtain ⟨rfl, hrest⟩ := List.cons.inj hr
      exact .inr ⟨l, hl, hrest.symm⟩

/-- Where a text is cut at a character: at the last one, or before. -/
theorem append_cons_cases_last {as bs cs ds : List Char} (hs : s ∉ bs)
    (h : as ++ s :: bs = cs ++ s :: ds) :
    as = cs ∧ bs = ds ∨ ∃ more, as = cs ++ s :: more ∧ more ++ s :: bs = ds := by
  rcases List.append_eq_append_iff.mp h with ⟨l, hl, hr⟩ | ⟨l, hl, hr⟩
  · cases l with
    | nil =>
      rw [List.append_nil] at hl
      exact .inl ⟨hl.symm, (List.cons.inj hr).2⟩
    | cons c l =>
      obtain ⟨-, hrest⟩ := List.cons.inj hr
      exact absurd (hrest ▸ List.mem_append_right _ List.mem_cons_self) hs
  · cases l with
    | nil =>
      rw [List.append_nil] at hl
      exact .inl ⟨hl, (List.cons.inj hr).2.symm⟩
    | cons c l =>
      obtain ⟨rfl, hrest⟩ := List.cons.inj hr
      exact .inr ⟨l, hl, hrest.symm⟩

/-- Repetitions of a character differ when their numbers do. -/
theorem repeat_inj (c : Char) (k : ℕ) :
    Function.Injective fun n => String.ofList (List.replicate (n + k) c) := by
  intro m n h
  simpa using congrArg String.length h

theorem repeat_ne_empty (c : Char) (n : ℕ) : String.ofList (List.replicate (n + 1) c) ≠ "" := by
  intro h
  simpa using congrArg String.length h

end JsText
