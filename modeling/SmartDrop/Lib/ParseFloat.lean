/-
# The number at the start of a text

`parseFloat(text)` skips white space and takes the longest decimal literal it finds there,
whatever follows it.  On a text that is nothing but a literal, white space around it aside, it
yields the number of that literal (`parseFloat_of_trim`).
-/
import SmartDrop.Lib.Rounding
import Mathlib.Data.List.Infix
import Mathlib.Data.List.Induction

namespace JsNumber

open Binary64

/-- A decimal literal without its sign, or `Infinity`. -/
def readLiteral (negative : Bool) (cs : List Char) : Option Number :=
  if cs = "Infinity".toList then some (.infinity negative)
  else (readDecimal cs).map fun q => ofRat (if negative then -q else q)

/-- A decimal literal. -/
def readSigned : List Char → Option Number
  | '-' :: cs => readLiteral true cs
  | '+' :: cs => readLiteral false cs
  | cs => readLiteral false cs

/-- `parseFloat(text)`. -/
def parseFloat (text : List Char) : Number :=
  ((text.dropWhile JsText.isSpace).inits.reverse.findSome? readSigned).getD .nan

example : parseFloat " 12.5e1abc".toList = .finite 125 := by decide +kernel

/-! ## 1. Literals have no white space -/

theorem isSpace_of_digitValue {c : Char} (h : digitValue c < 10) : JsText.isSpace c = false := by
  have hd : JsText.isDigit c = true := by
    by_contra hd
    rw [digitValue, if_neg hd] at h
    split at h
    · rename_i hc
      have : 97 ≤ c.toNat := (Bool.and_eq_true_iff.mp hc).1 |> of_decide_eq_true
      omega
    split at h
    · rename_i hc
      have : 65 ≤ c.toNat := (Bool.and_eq_true_iff.mp hc).1 |> of_decide_eq_true
      omega
    · omega
  exact isSpace_of_isDigit hd

theorem noSpace_readBase {cs : List Char} {n : ℕ} (h : readBase 10 cs = some n) :
    ∀ c ∈ cs, JsText.isSpace c = false := by
  intro c hc
  unfold readBase at h
  split at h
  · cases h
  · rename_i hall
    rw [Bool.or_eq_true, not_or, List.any_eq_true] at hall
    refine isSpace_of_digitValue (not_le.mp fun hle => hall.2 ⟨c, hc, ?_⟩)
    exact decide_eq_true hle

theorem noSpace_readExponent {cs : List Char} {e : ℤ} (h : readExponent cs = some e) :
    ∀ c ∈ cs, JsText.isSpace c = false := by
  rcases cs with _ | ⟨c, cs⟩
  · exact fun c hc => absurd hc List.not_mem_nil
  rw [readExponent.eq_def] at h
  dsimp only at h
  split at h
  · rename_i hc
    have hspace : JsText.isSpace c = false := by
      rw [Bool.or_eq_true, decide_eq_true_iff, decide_eq_true_iff] at hc
      rcases hc with rfl | rfl <;> decide
    have hrest : ∀ d ∈ cs, JsText.isSpace d = false := by
      split at h
      · obtain ⟨_, hn, -⟩ := Option.map_eq_some_iff.mp h
        obtain ⟨n, hm, -⟩ := Option.bind_eq_some_iff.mp hn
        rw [List.forall_mem_cons]
        exact ⟨by decide, noSpace_readBase hm⟩
      · obtain ⟨n, hn, -⟩ := Option.map_eq_some_iff.mp h
        rw [List.forall_mem_cons]
        exact ⟨by decide, noSpace_readBase hn⟩
      · obtain ⟨n, hn, -⟩ := Option.map_eq_some_iff.mp h
        exact noSpace_readBase hn
    rw [List.forall_mem_cons]
    exact ⟨hspace, hrest⟩
  · cases h

theorem noSpace_takeWhile (cs : List Char) :
    ∀ c ∈ cs.takeWhile JsText.isDigit, JsText.isSpace c = false :=
  fun _ hc => isSpace_of_isDigit (List.mem_takeWhile_imp hc)

theorem noSpace_readDecimal {cs : List Char} {q : ℚ} (h : readDecimal cs = some q) :
    ∀ c ∈ cs, JsText.isSpace c = false := by
  unfold readDecimal at h
  dsimp only at h
  rw [← List.takeWhile_append_dropWhile (p := JsText.isDigit) (l := cs), List.forall_mem_append]
  refine ⟨noSpace_takeWhile cs, ?_⟩
  generalize cs.dropWhile JsText.isDigit = rest at h ⊢
  split at h
  · rename_i r
    have he := (Option.ite_none_left_eq_some.mp h).2
    obtain ⟨e, he, -⟩ := Option.map_eq_some_iff.mp he
    rw [List.forall_mem_cons]
    refine ⟨by decide, ?_⟩
    rw [← List.takeWhile_append_dropWhile (p := JsText.isDigit) (l := r), List.forall_mem_append]
    exact ⟨noSpace_takeWhile r, noSpace_readExponent he⟩
  · have he := (Option.ite_none_left_eq_some.mp h).2
    obtain ⟨e, he, -⟩ := Option.map_eq_some_iff.mp he
    exact noSpace_readExponent he

theorem noSpace_readLiteral {negative : Bool} {cs : List Char} {v : Number}
    (h : readLiteral negative cs = some v) : ∀ c ∈ cs, JsText.isSpace c = false := by
  unfold readLiteral at h
  split at h
  · rename_i hcs
    have hall : "Infinity".toList.all (fun c => !JsText.isSpace c) = true := by decide
    intro c hc
    rw [hcs] at hc
    simpa using List.all_eq_true.mp hall c hc
  · obtain ⟨q, hq, -⟩ := Option.map_eq_some_iff.mp h
    exact noSpace_readDecimal hq

theorem noSpace_readSigned {cs : List Char} {v : Number} (h : readSigned cs = some v) :
    ∀ c ∈ cs, JsText.isSpace c = false := by
  unfold readSigned at h
  split at h
  · rw [List.forall_mem_cons]
    exact ⟨by decide, noSpace_readLiteral h⟩
  · rw [List.forall_mem_cons]
    exact ⟨by decide, noSpace_readLiteral h⟩
  · exact noSpace_readLiteral h

/-! ## 2. Nothing but a literal -/

/-- The longest prefix first. -/
theorem reverse_inits_concat (cs : List Char) (c : Char) :
    (cs ++ [c]).inits.reverse = (cs ++ [c]) :: cs.inits.reverse := by
  rw [List.inits_append]
  simp [List.inits]

/-- White space behind a literal is not part of a longer one. -/
theorem findSome?_inits {cs spaces : List Char} {v : Number} (h : readSigned cs = some v)
    (hspaces : ∀ c ∈ spaces, JsText.isSpace c = true) :
    (cs ++ spaces).inits.reverse.findSome? readSigned = some v := by
  induction spaces using List.reverseRecOn with
  | nil =>
    rw [List.append_nil]
    rcases List.eq_nil_or_concat cs with rfl | ⟨ds, d, rfl⟩
    · simpa using h
    · rw [List.concat_eq_append] at h ⊢
      rw [reverse_inits_concat, List.findSome?_cons, h]
  | append_singleton spaces c ih =>
    have hc : JsText.isSpace c = true := hspaces c (by simp)
    have hnone : readSigned (cs ++ spaces ++ [c]) = none := by
      by_contra hsome
      obtain ⟨w, hw⟩ := Option.ne_none_iff_exists'.mp hsome
      have := noSpace_readSigned hw c (by simp)
      rw [hc] at this
      cases this
    rw [← List.append_assoc, reverse_inits_concat, List.findSome?_cons, hnone]
    exact ih fun d hd => hspaces d (List.mem_append_left _ hd)

/-- The trimmed text and the white space behind it. -/
theorem exists_trim (text : String) : ∃ spaces : List Char,
    text.toList.dropWhile JsText.isSpace = (JsText.trim text).toList ++ spaces ∧
      ∀ c ∈ spaces, JsText.isSpace c = true := by
  refine ⟨((text.toList.dropWhile JsText.isSpace).reverse.takeWhile JsText.isSpace).reverse, ?_, ?_⟩
  · rw [JsText.trim, String.toList_ofList, ← List.reverse_append, List.takeWhile_append_dropWhile,
      List.reverse_reverse]
  · intro c hc
    exact List.mem_takeWhile_imp (List.mem_reverse.mp hc)

/-- **A text that is a literal is read as that literal.** -/
theorem parseFloat_of_trim {text : String} {v : Number}
    (h : readSigned (JsText.trim text).toList = some v) : parseFloat text.toList = v := by
  obtain ⟨spaces, htext, hspaces⟩ := exists_trim text
  rw [parseFloat, htext, findSome?_inits h hspaces]
  rfl

/-- A number that a rational is rounded to is a double. -/
theorem nearest_of_ofRat {p q : ℚ} (h : ofRat p = .finite q) : nearest q = q := by
  unfold ofRat at h
  split at h
  · cases h
  · rw [← Number.finite.inj h, nearest_nearest]

theorem nearest_of_readSigned {cs : List Char} {q : ℚ} (h : readSigned cs = some (.finite q)) :
    nearest q = q := by
  have key : ∀ {negative : Bool} {cs : List Char},
      readLiteral negative cs = some (.finite q) → nearest q = q := by
    intro negative cs h
    unfold readLiteral at h
    split at h
    · cases h
    · obtain ⟨p, -, hp⟩ := Option.map_eq_some_iff.mp h
      exact nearest_of_ofRat hp
  unfold readSigned at h
  split at h <;> exact key h

/-- What `parseFloat` yields is a double, when it is finite. -/
theorem nearest_of_parseFloat {text : List Char} {q : ℚ} (h : parseFloat text = .finite q) :
    nearest q = q := by
  unfold parseFloat at h
  cases hfound : (text.dropWhile JsText.isSpace).inits.reverse.findSome? readSigned with
  | none =>
    rw [hfound] at h
    cases h
  | some v =>
    rw [hfound] at h
    obtain ⟨cs, -, hcs⟩ := List.exists_of_findSome?_eq_some hfound
    obtain rfl : v = .finite q := h
    exact nearest_of_readSigned hcs

end JsNumber
