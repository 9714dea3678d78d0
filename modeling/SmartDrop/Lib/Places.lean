/-
# Things that are each in one place

Several parties claim things from a common stock by one atomic step, and hand on later what they
have claimed.  `holds p` lists what is at the place `p`, and `taken` says what was claimed.
`Apart` says that only what was taken is anywhere, and nothing in two places or twice in one;
claiming (`Apart.claim`), handing on (`Apart.give`) and losing things (`Apart.drop`) keep it so.
`Placed` says moreover that nothing is lost.
-/
import Mathlib.Data.List.Nodup
import Mathlib.Logic.Function.Basic

namespace Conc

variable {κ α : Type}

/-- Nothing is in two places or twice in one, and what is somewhere was taken. -/
structure Apart (holds : κ → List α) (taken : α → Prop) : Prop where
  nodup : ∀ p, (holds p).Nodup
  apart : ∀ p q a, a ∈ holds p → a ∈ holds q → p = q
  taken_of_mem : ∀ p a, a ∈ holds p → taken a

/-- Moreover, what was taken is somewhere. -/
structure Placed (holds : κ → List α) (taken : α → Prop) : Prop extends Apart holds taken where
  exists_mem : ∀ a, taken a → ∃ p, a ∈ holds p

namespace Apart

variable {holds holds' : κ → List α} {taken taken' : α → Prop}

/-- Nothing is anywhere. -/
theorem empty (hholds : ∀ p, holds p = []) : Apart holds taken where
  nodup p := by
    rw [hholds]
    exact List.nodup_nil
  apart p q a h := by simp [hholds] at h
  taken_of_mem p a h := by simp [hholds] at h

/-- Where nothing was taken, every place is empty. -/
theorem holds_eq_nil (h : Apart holds taken) (htaken : ∀ a, ¬ taken a) (p : κ) :
    holds p = [] :=
  List.eq_nil_iff_forall_not_mem.mpr fun a ha => htaken a (h.taken_of_mem p a ha)

/-- More can be taken. -/
theorem mono (h : Apart holds taken) (ht : ∀ a, taken a → taken' a) : Apart holds taken' :=
  ⟨h.nodup, h.apart, fun p a ha => ht a (h.taken_of_mem p a ha)⟩

theorem congr (h : Apart holds taken) (hh : ∀ p, holds' p = holds p) : Apart holds' taken := by
  rwa [funext hh]

variable [DecidableEq κ] {p q : κ}

/-- What is at `p` is lost. -/
theorem drop (h : Apart holds taken) (p : κ) : Apart (Function.update holds p []) taken := by
  have hsub : ∀ r a, a ∈ Function.update holds p [] r → a ∈ holds r := by
    intro r a ha
    by_cases hr : r = p
    · subst hr
      simp at ha
    · rwa [Function.update_of_ne hr] at ha
  refine ⟨fun r => ?_, fun r t a hr ht => h.apart r t a (hsub r a hr) (hsub t a ht),
    fun r a hr => h.taken_of_mem r a (hsub r a hr)⟩
  by_cases hr : r = p
  · subst hr
    simp
  · rw [Function.update_of_ne hr]
    exact h.nodup r

/-- **A claim**: an empty place gets things that were not taken. -/
theorem claim (h : Apart holds taken) {new : List α} (hnew : new.Nodup)
    (hfree : ∀ a ∈ new, ¬ taken a) :
    Apart (Function.update holds p new) fun a => taken a ∨ a ∈ new := by
  have hother : ∀ r a, a ∈ holds r → a ∉ new := fun r a ha hmem =>
    hfree a hmem (h.taken_of_mem r a ha)
  refine ⟨fun r => ?_, fun r t a hr ht => ?_, fun r a hr => ?_⟩
  · by_cases hrp : r = p
    · subst hrp
      rwa [Function.update_self]
    · rw [Function.update_of_ne hrp]
      exact h.nodup r
  · by_cases hrp : r = p <;> by_cases htp : t = p
    · rw [hrp, htp]
    · subst hrp
      rw [Function.update_self] at hr
      rw [Function.update_of_ne htp] at ht
      exact absurd hr (hother t a ht)
    · subst htp
      rw [Function.update_self] at ht
      rw [Function.update_of_ne hrp] at hr
      exact absurd ht (hother r a hr)
    · rw [Function.update_of_ne hrp] at hr
      rw [Function.update_of_ne htp] at ht
      exact h.apart r t a hr ht
  · by_cases hrp : r = p
    · subst hrp
      rw [Function.update_self] at hr
      exact .inr hr
    · rw [Function.update_of_ne hrp] at hr
      exact .inl (h.taken_of_mem r a hr)

/-- **Handing on**: what was at `q` is at `p` now. -/
theorem give (h : Apart holds taken) (hpq : p ≠ q) :
    Apart (Function.update (Function.update holds q []) p (holds p ++ holds q)) taken := by
  -- what is at a place other than `p` was there before
  have hback : ∀ r a, r ≠ p →
      a ∈ Function.update (Function.update holds q []) p (holds p ++ holds q) r →
      a ∈ holds r ∧ r ≠ q := by
    intro r a hrp ha
    rw [Function.update_of_ne hrp] at ha
    by_cases hrq : r = q
    · subst hrq
      simp at ha
    · rw [Function.update_of_ne hrq] at ha
      exact ⟨ha, hrq⟩
  have hmine : ∀ r a, r ≠ p → r ≠ q → a ∈ holds r → a ∉ holds p ++ holds q := by
    intro r a hrp hrq hr ha
    rcases List.mem_append.mp ha with ha | ha
    · exact hrp (h.apart r p a hr ha)
    · exact hrq (h.apart r q a hr ha)
  refine ⟨fun r => ?_, fun r t a hr ht => ?_, fun r a hr => ?_⟩
  · by_cases hrp : r = p
    · subst hrp
      rw [Function.update_self]
      refine List.nodup_append.mpr ⟨h.nodup r, h.nodup q, fun a ha b hb hab => ?_⟩
      exact hpq (h.apart r q a ha (hab ▸ hb))
    · rw [Function.update_of_ne hrp]
      exact (h.drop q).nodup r
  · by_cases hrp : r = p <;> by_cases htp : t = p
    · rw [hrp, htp]
    · obtain ⟨hat, htq⟩ := hback t a htp ht
      rw [hrp, Function.update_self] at hr
      exact absurd hr (hmine t a htp htq hat)
    · obtain ⟨har, hrq⟩ := hback r a hrp hr
      rw [htp, Function.update_self] at ht
      exact absurd ht (hmine r a hrp hrq har)
    · exact h.apart r t a (hback r a hrp hr).1 (hback t a htp ht).1
  · by_cases hrp : r = p
    · rw [hrp, Function.update_self] at hr
      rcases List.mem_append.mp hr with hr | hr
      · exact h.taken_of_mem p a hr
      · exact h.taken_of_mem q a hr
    · exact h.taken_of_mem r a (hback r a hrp hr).1

end Apart

namespace Placed

variable {holds holds' : κ → List α} {taken taken' : α → Prop}

theorem congr (h : Placed holds taken) (hh : ∀ p, holds' p = holds p)
    (ht : ∀ a, taken' a ↔ taken a) : Placed holds' taken' := by
  obtain rfl : holds' = holds := funext hh
  exact ⟨h.toApart.mono fun a => (ht a).mpr, fun a ha => h.exists_mem a ((ht a).mp ha)⟩

variable [DecidableEq κ] {p q : κ}

/-- **A claim** by an empty place. -/
theorem claim (h : Placed holds taken) {new : List α} (hempty : holds p = []) (hnew : new.Nodup)
    (hfree : ∀ a ∈ new, ¬ taken a) :
    Placed (Function.update holds p new) fun a => taken a ∨ a ∈ new := by
  refine ⟨h.toApart.claim hnew hfree, ?_⟩
  rintro a (ha | ha)
  · obtain ⟨r, hr⟩ := h.exists_mem a ha
    have hrp : r ≠ p := by
      rintro rfl
      simp [hempty] at hr
    exact ⟨r, by rwa [Function.update_of_ne hrp]⟩
  · exact ⟨p, by rwa [Function.update_self]⟩

/-- **Handing on**: what was at `q` is at `p` now. -/
theorem give (h : Placed holds taken) (hpq : p ≠ q) :
    Placed (Function.update (Function.update holds q []) p (holds p ++ holds q)) taken := by
  refine ⟨h.toApart.give hpq, fun a ha => ?_⟩
  obtain ⟨r, hr⟩ := h.exists_mem a ha
  by_cases hrp : r = p
  · exact ⟨p, by rw [Function.update_self]; exact List.mem_append_left _ (hrp ▸ hr)⟩
  · by_cases hrq : r = q
    · exact ⟨p, by rw [Function.update_self]; exact List.mem_append_right _ (hrq ▸ hr)⟩
    · exact ⟨r, by rwa [Function.update_of_ne hrp, Function.update_of_ne hrq]⟩

end Placed

end Conc
