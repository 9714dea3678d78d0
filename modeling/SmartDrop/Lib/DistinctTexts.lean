/-
# Different numbers have different texts

`String(number)` of a double is read as a decimal that rounds to it (`readDecimal_positiveText`), so no two
doubles have one text (`write_injective`); and the names of the other numbers are not decimals (`Number.write_injective`).
-/
import SmartDrop.Lib.IntegerText
import SmartDrop.Lib.ShortestText

namespace JsNumber

open Binary64

variable {p q : ℚ}

theorem readDecimal_minus (cs : List Char) : readDecimal ('-' :: cs) = none := rfl

theorem positiveText_injective (hp : 0 < p) (hq : 0 < q) (hpdouble : nearest p = p)
    (hqdouble : nearest q = q) (h : positiveText p = positiveText q) : p = q := by
  have hread := readDecimal_positiveText (shortest_normal hp hpdouble)
  rw [h, readDecimal_positiveText (shortest_normal hq hqdouble)] at hread
  rw [← shortest_reads hp hpdouble, ← shortest_reads hq hqdouble, Option.some.inj hread]

theorem positiveText_ne_minus (hp : 0 < p) (hpdouble : nearest p = p) (cs : List Char) :
    positiveText p ≠ '-' :: cs := by
  intro h
  have hread := readDecimal_positiveText (shortest_normal hp hpdouble)
  rw [h, readDecimal_minus] at hread
  cases hread

theorem text_injective (hp : p ≠ 0) (hq : q ≠ 0) (hpdouble : nearest p = p) (hqdouble : nearest q = q)
    (h : text p = text q) : p = q := by
  have hneg : ∀ {r : ℚ}, r ≠ 0 → nearest r = r → ¬ 0 < r → 0 < -r ∧ nearest (-r) = -r := by
    intro r hr hdouble hpos
    have hlt : r < 0 := lt_of_le_of_ne (not_lt.mp hpos) hr
    exact ⟨neg_pos.mpr hlt, by rw [nearest_neg, hdouble]⟩
  rw [text, if_neg hp, text, if_neg hq] at h
  by_cases hp' : 0 < p
  · rw [if_pos hp'] at h
    by_cases hq' : 0 < q
    · rw [if_pos hq'] at h
      exact positiveText_injective hp' hq' hpdouble hqdouble h
    · rw [if_neg hq'] at h
      exact absurd h (positiveText_ne_minus hp' hpdouble _)
  · rw [if_neg hp'] at h
    by_cases hq' : 0 < q
    · rw [if_pos hq'] at h
      exact absurd h.symm (positiveText_ne_minus hq' hqdouble _)
    · rw [if_neg hq'] at h
      obtain ⟨hp', hpdouble'⟩ := hneg hp hpdouble hp'
      obtain ⟨hq', hqdouble'⟩ := hneg hq hqdouble hq'
      exact neg_inj.mp (positiveText_injective hp' hq' hpdouble' hqdouble' (List.cons.inj h).2)

/-- A number that is written in full is a natural number. -/
theorem write_finite_cases (q : ℚ) : (∃ n : ℕ, n < 2 ^ 53 ∧ q = n ∧ write (.finite q) = Nat.toDigits 10 n) ∨
    q ≠ 0 ∧ write (.finite q) = text q := by
  by_cases hwhole : q.den = 1 ∧ 0 ≤ q.num ∧ q.num < 2 ^ 53
  · refine Or.inl ⟨q.num.toNat, by omega, ?_, by rw [write, if_pos hwhole]⟩
    rw [← Rat.num_div_den q, hwhole.1]
    push_cast
    rw [div_one]
    exact_mod_cast (Int.toNat_of_nonneg hwhole.2.1).symm
  · refine Or.inr ⟨?_, by rw [write, if_neg hwhole]⟩
    rintro rfl
    exact hwhole (by decide)

/-- **No two doubles have one text.** -/
theorem write_injective (hpdouble : nearest p = p) (hqdouble : nearest q = q)
    (h : write (.finite p) = write (.finite q)) : p = q := by
  rcases write_finite_cases p with ⟨n, hn, hp, hwrite⟩ | ⟨hp, hwrite⟩
  · rw [hp]
    exact (eq_of_write_toDigits hn hqdouble (h.symm.trans hwrite)).symm
  · rcases write_finite_cases q with ⟨m, hm, hq, hwrite'⟩ | ⟨hq, hwrite'⟩
    · rw [hq]
      exact eq_of_write_toDigits hm hpdouble (h.trans hwrite')
    · exact text_injective hp hq hpdouble hqdouble (hwrite.symm.trans (h.trans hwrite'))

/-! ## Numbers that are not finite -/

/-- A number of the language: a finite one is a double. -/
def Number.IsDouble : Number → Prop
  | .finite q => nearest q = q
  | _ => True

/-- A decimal, perhaps with a minus sign. -/
def IsDecimal (cs : List Char) : Prop :=
  (readDecimal cs).isSome ∨ ∃ ds, cs = '-' :: ds ∧ (readDecimal ds).isSome

theorem isDecimal_write (hdouble : nearest q = q) : IsDecimal (write (.finite q)) := by
  rcases write_finite_cases q with ⟨n, -, -, hwrite⟩ | ⟨hq, hwrite⟩
  · rw [hwrite]
    refine Or.inl ?_
    rw [readDecimal_digits Nat.toDigits_ne_nil fun c => isDigit_of_mem_toDigits]
    rfl
  · rw [hwrite, text, if_neg hq]
    by_cases hpos : 0 < q
    · rw [if_pos hpos, IsDecimal, readDecimal_positiveText (shortest_normal hpos hdouble)]
      exact Or.inl rfl
    · rw [if_neg hpos]
      have hlt : q < 0 := lt_of_le_of_ne (not_lt.mp hpos) hq
      have hdouble' : nearest (-q) = -q := by rw [nearest_neg, hdouble]
      refine Or.inr ⟨_, rfl, ?_⟩
      rw [readDecimal_positiveText (shortest_normal (neg_pos.mpr hlt) hdouble')]
      rfl

/-- No name is a decimal. -/
theorem not_isDecimal {name : List Char}
    (h : name ∈ ["NaN", "Infinity", "-Infinity", "+Inf"].map String.toList) : ¬ IsDecimal name := by
  have hnone : ∀ text ∈ ["NaN", "Infinity", "-Infinity", "+Inf"].map String.toList,
      (readDecimal text).isSome = false ∧ (text.head? = some '-' → (readDecimal text.tail).isSome = false) := by
    simp only [List.map_cons, List.map_nil]
    rw [show "NaN".toList = ['N', 'a', 'N'] from String.toList_ofList,
      show "Infinity".toList = ['I', 'n', 'f', 'i', 'n', 'i', 't', 'y'] from String.toList_ofList,
      show "-Infinity".toList = ['-', 'I', 'n', 'f', 'i', 'n', 'i', 't', 'y'] from
        String.toList_ofList,
      show "+Inf".toList = ['+', 'I', 'n', 'f'] from String.toList_ofList]
    decide +kernel
  rintro (hsome | ⟨ds, rfl, hsome⟩)
  · rw [(hnone name h).1] at hsome
    cases hsome
  · have htail := (hnone _ h).2 rfl
    rw [List.tail_cons, hsome] at htail
    cases htail

/-- **No two numbers have one text.** -/
theorem Number.write_injective {a b : Number} (ha : a.IsDouble) (hb : b.IsDouble) (h : write a = write b) :
    a = b := by
  cases a with
  | nan =>
    cases b with
    | nan => rfl
    | infinity negative => cases negative <;> exact absurd h (by decide)
    | finite q => exact absurd (h ▸ isDecimal_write hb) (not_isDecimal (by decide))
  | infinity negative =>
    cases b with
    | nan => cases negative <;> exact absurd h (by decide)
    | infinity negative' => cases negative <;> cases negative' <;> first | rfl | exact absurd h (by decide)
    | finite q =>
      refine absurd (h ▸ isDecimal_write hb) (not_isDecimal ?_)
      cases negative <;> decide
  | finite p =>
    cases b with
    | nan => exact absurd (h ▸ isDecimal_write ha) (not_isDecimal (by decide))
    | infinity negative =>
      refine absurd (h ▸ isDecimal_write ha) (not_isDecimal ?_)
      cases negative <;> decide
    | finite q => rw [JsNumber.write_injective ha hb h]

/-- No number is written as `+Inf`. -/
theorem Number.write_ne_plusInf {a : Number} (ha : a.IsDouble) : write a ≠ "+Inf".toList := by
  cases a with
  | nan => decide
  | infinity negative => cases negative <;> decide
  | finite q => exact fun h => not_isDecimal (by decide) (h ▸ isDecimal_write ha)

end JsNumber
