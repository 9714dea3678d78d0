/-
# The order in which rows are locked

`sortIds` of `database/transaction.js` sorts the ids of the rows that a transaction locks, "to prevent AB-BA
deadlock cycles".  Two numbers are compared as numbers and everything else as texts, so which order two ids have
depends on the pair, and there are two ways in which a list of ids has no one order.

* **A cycle.**  Of `2`, `10` and `'1a'` each is below the next one: `2 < 10`, and `'10'`, `'1a'`, `'2'` are in
  the order of texts.
* **A tie.**  `1` and `'1'` compare equal and stay as they come.

`sortIds_canonical_iff` says that these are the only two.  The order of texts is the one of the host's locale: any
comparison that is consistent (`Collation`).
-/
import SmartDrop.Lib.JsNumber
import SmartDrop.Lib.Sorting

namespace SmartDrop.LockOrder

open List Sorting

/-- The order of texts in a locale: a consistent comparison, which may take different texts for equal. -/
structure Collation where
  localeCompare : String → String → Ordering
  consistent : Std.TransCmp localeCompare

/-- A row's id: a finite number or a text. -/
inductive Id where
  | number (n : ℚ)
  | text (s : String)
deriving DecidableEq

/-- `String(id)`. -/
def Id.toText : Id → String
  | number n => String.ofList (JsNumber.write (.finite n))
  | text s => s

/-- What a comparison by a difference says. -/
def ofDifference (d : ℚ) : Ordering := if d < 0 then .lt else if 0 < d then .gt else .eq

/-- The comparison of `sortIds`. -/
def comparator (C : Collation) : Id → Id → Ordering
  | .number a, .number b => ofDifference (a - b)
  | a, b => C.localeCompare a.toText b.toText

/-- `sortIds`. -/
def sortIds (C : Collation) (ids : List Id) : List Id := sortBy (comparator C) ids

/-- The ids are sorted into one sequence, whatever order they come in, by a comparison that orders them. -/
def Canonical (C : Collation) (ids : List Id) : Prop :=
  (∀ l₁ l₂, l₁ ~ ids → l₂ ~ ids → sortIds C l₁ = sortIds C l₂) ∧ StrictWeakOn (comparator C) ids

/-- No two ids of which one is a text tie, and no text is between two numbers that come the other way round. -/
structure Consistent (C : Collation) (ids : List Id) : Prop where
  apart : ∀ s, .text s ∈ ids → ∀ a ∈ ids, a ≠ .text s → C.localeCompare a.toText s ≠ .eq
  between : ∀ s, .text s ∈ ids → ∀ m n, .number m ∈ ids → .number n ∈ ids → m < n →
    C.localeCompare (Id.number n).toText s = .lt → C.localeCompare s (Id.number m).toText ≠ .lt

/-! ## 1. The comparison of two ids -/

theorem ofDifference_lt {a b : ℚ} : ofDifference (a - b) = .lt ↔ a < b := by
  rw [ofDifference]
  constructor
  · intro h
    split at h
    · linarith
    · split at h <;> cases h
  · intro h
    rw [if_pos (by linarith)]

theorem ofDifference_eq {a b : ℚ} : ofDifference (a - b) = .eq ↔ a = b := by
  rw [ofDifference]
  constructor
  · intro h
    split at h
    · cases h
    · split at h
      · cases h
      · linarith
  · rintro rfl
    simp

theorem ofDifference_swap (a b : ℚ) : ofDifference (b - a) = (ofDifference (a - b)).swap := by
  rcases lt_trichotomy a b with h | rfl | h
  · rw [ofDifference_lt.mpr h, ofDifference, if_neg (by linarith), if_pos (by linarith)]
    rfl
  · rw [ofDifference_eq.mpr rfl]
    rfl
  · rw [ofDifference_lt.mpr h, ofDifference, if_neg (by linarith), if_pos (by linarith)]
    rfl

variable {C : Collation} {ids : List Id}

@[simp] theorem comparator_number (m n : ℚ) :
    comparator C (.number m) (.number n) = ofDifference (m - n) := rfl

@[simp] theorem comparator_text_left (s : String) (a : Id) :
    comparator C (.text s) a = C.localeCompare s a.toText := by
  cases a <;> rfl

@[simp] theorem comparator_text_right (s : String) (a : Id) :
    comparator C a (.text s) = C.localeCompare a.toText s := by
  cases a <;> rfl

theorem Collation.oriented (C : Collation) : Oriented C.localeCompare := by
  intro a b
  have := C.consistent
  exact Std.OrientedCmp.eq_swap

theorem Collation.trans (C : Collation) {a b c : String} (hab : C.localeCompare a b = .lt)
    (hbc : C.localeCompare b c = .lt) : C.localeCompare a c = .lt := by
  have := C.consistent
  exact Std.TransCmp.lt_trans hab hbc

theorem Collation.irrefl (C : Collation) {a b : String} (hab : C.localeCompare a b = .lt) :
    C.localeCompare b a ≠ .lt := by
  rw [C.oriented a b, hab]
  intro h
  cases h

theorem oriented_comparator (C : Collation) : Oriented (comparator C) := by
  intro a b
  cases a with
  | number m =>
    cases b with
    | number n => exact ofDifference_swap m n
    | text s => exact C.oriented _ _
  | text s =>
    rw [comparator_text_left, comparator_text_right]
    exact C.oriented _ _

/-! ## 2. Lists of ids -/

namespace Consistent

/-- Only an id and itself tie. -/
theorem eq_of_tie (h : Consistent C ids) {a b : Id} (ha : a ∈ ids) (hb : b ∈ ids)
    (htie : comparator C a b = .eq) : a = b := by
  by_contra hne
  cases b with
  | text s =>
    rw [comparator_text_right] at htie
    exact h.apart s hb a ha hne htie
  | number n =>
    cases a with
    | number m => exact hne (congrArg Id.number (ofDifference_eq.mp htie))
    | text s =>
      rw [comparator_text_left, C.oriented (Id.number n).toText s] at htie
      refine h.apart s ha _ hb (Ne.symm hne) ?_
      cases hn : C.localeCompare (Id.number n).toText s <;> rw [hn] at htie <;> first | rfl | cases htie

theorem lt_or_gt (h : Consistent C ids) {s : String} {n : ℚ} (hs : .text s ∈ ids) (hn : .number n ∈ ids) :
    C.localeCompare (Id.number n).toText s = .lt ∨ C.localeCompare s (Id.number n).toText = .lt := by
  have hne := h.apart s hs _ hn (by simp)
  rw [C.oriented (Id.number n).toText s]
  cases hcmp : C.localeCompare (Id.number n).toText s with
  | lt => exact Or.inl rfl
  | eq => exact absurd hcmp hne
  | gt => exact Or.inr rfl

/-- A text above the greater of two numbers is above the lesser one. -/
theorem above (h : Consistent C ids) {s : String} {m n : ℚ} (hs : .text s ∈ ids) (hm : .number m ∈ ids)
    (hn : .number n ∈ ids) (hlt : m < n) (hns : C.localeCompare (Id.number n).toText s = .lt) :
    C.localeCompare (Id.number m).toText s = .lt :=
  (h.lt_or_gt hs hm).resolve_right (h.between s hs m n hm hn hlt hns)

/-- A text below the lesser of two numbers is below the greater one. -/
theorem below (h : Consistent C ids) {s : String} {m n : ℚ} (hs : .text s ∈ ids) (hm : .number m ∈ ids)
    (hn : .number n ∈ ids) (hlt : m < n) (hsm : C.localeCompare s (Id.number m).toText = .lt) :
    C.localeCompare s (Id.number n).toText = .lt :=
  (h.lt_or_gt hs hn).resolve_left fun hns => h.between s hs m n hm hn hlt hns hsm

theorem trans (h : Consistent C ids) {a b c : Id} (ha : a ∈ ids) (hb : b ∈ ids) (hc : c ∈ ids)
    (hab : comparator C a b = .lt) (hbc : comparator C b c = .lt) : comparator C a c = .lt := by
  cases b with
  | text s =>
    rw [comparator_text_right] at hab
    rw [comparator_text_left] at hbc
    have hac := C.trans hab hbc
    cases a with
    | text _ => rwa [comparator_text_left]
    | number m =>
      cases c with
      | text _ => rwa [comparator_text_right]
      | number n =>
        -- the text is between the two numbers, so they come in their own order
        rw [comparator_number, ofDifference_lt]
        rcases lt_trichotomy m n with hlt | rfl | hgt
        · exact hlt
        · exact absurd hac (C.irrefl hac)
        · exact absurd hab (h.between s hb n m hc ha hgt · hbc)
  | number n =>
    cases a with
    | text s =>
      rw [comparator_text_left] at hab ⊢
      cases c with
      | text _ =>
        rw [comparator_text_right] at hbc
        exact C.trans hab hbc
      | number k => exact h.below ha hb hc (ofDifference_lt.mp hbc) hab
    | number m =>
      rw [comparator_number, ofDifference_lt] at hab
      cases c with
      | text s =>
        rw [comparator_text_right] at hbc ⊢
        exact h.above hc ha hb hab hbc
      | number k =>
        rw [comparator_number, ofDifference_lt] at hbc ⊢
        exact hab.trans hbc

theorem strictWeakOn (h : Consistent C ids) : StrictWeakOn (comparator C) ids := by
  constructor
  · intro a _ haa
    have heq := oriented_comparator C a a
    rw [haa] at heq
    cases heq
  · exact fun a ha b hb c hc => h.trans ha hb hc
  · intro a ha b hb c hc hab hbc
    rwa [h.eq_of_tie ha hb hab]

theorem canonical (h : Consistent C ids) : Canonical C ids := by
  refine ⟨fun l₁ l₂ h₁ h₂ => ?_, h.strictWeakOn⟩
  have hone : ∀ l, l ~ ids → sortIds C l = sortIds C ids := fun l hl =>
    sortBy_eq_of_perm (oriented_comparator C) h.strictWeakOn (fun a ha b hb => h.eq_of_tie ha hb) hl
  exact (hone l₁ h₁).trans (hone l₂ h₂).symm

end Consistent

namespace Canonical

theorem apart (h : Canonical C ids) (s : String) (hs : .text s ∈ ids) (a : Id) (ha : a ∈ ids)
    (hne : a ≠ .text s) : C.localeCompare a.toText s ≠ .eq := by
  intro htie
  rw [← comparator_text_right] at htie
  obtain ⟨l, hl, hdiffer⟩ := sortBy_ne_of_tie (oriented_comparator C) h.2 ha hs hne htie
  exact hdiffer (h.1 l ids hl (Perm.refl ids))

theorem between (h : Canonical C ids) (s : String) (hs : .text s ∈ ids) (m n : ℚ) (hm : .number m ∈ ids)
    (hn : .number n ∈ ids) (hlt : m < n) (hns : C.localeCompare (Id.number n).toText s = .lt) :
    C.localeCompare s (Id.number m).toText ≠ .lt := by
  have hms := h.2.trans _ hm _ hn _ hs (ofDifference_lt.mpr hlt) ((comparator_text_right s _).trans hns)
  rw [comparator_text_right] at hms
  exact C.irrefl hms

end Canonical

/-- The ids are locked in one order exactly when they have neither a cycle nor a tie. -/
theorem sortIds_canonical_iff (C : Collation) (ids : List Id) : Canonical C ids ↔ Consistent C ids :=
  ⟨fun h => ⟨h.apart, h.between⟩, Consistent.canonical⟩

/-- The order of texts by their characters. -/
def ordinal : Collation := ⟨compare, inferInstance⟩

/-- Two numbers and a text in a cycle. -/
theorem sortIds_cycle : ¬ Canonical ordinal [.number 2, .number 10, .text "1a"] := by
  intro h
  have hlt : ordinal.localeCompare (Id.number 10).toText "1a" = .lt := by decide
  refine h.between "1a" (by decide) 2 10 (by decide) (by decide) (by norm_num) hlt ?_
  decide

end SmartDrop.LockOrder
