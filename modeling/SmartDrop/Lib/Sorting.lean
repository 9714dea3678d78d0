/-
# Sorting by a comparison of pairs

`sortBy cmp` is the stable sort by a comparison.  What it gives depends on the comparison being consistent,
and only on the elements of the list: if it is a strict weak order there, every order of the elements gives
one result exactly if only equal elements compare equal (`sortBy_eq_of_perm`, `sortBy_ne_of_tie`).
-/
import Mathlib.Data.List.Basic
import Mathlib.Data.List.Perm.Basic

namespace Sorting

open List

variable {α : Type} {cmp : α → α → Ordering} {l l₁ l₂ : List α}

/-- Neither above the other, or the first one below. -/
def le (cmp : α → α → Ordering) (a b : α) : Bool := (cmp a b).isLE

/-- `[...list].sort(cmp)`. -/
def sortBy (cmp : α → α → Ordering) (l : List α) : List α := l.mergeSort (le cmp)

/-- The comparison of two elements the other way round. -/
def Oriented (cmp : α → α → Ordering) : Prop := ∀ a b, cmp b a = (cmp a b).swap

/-- The comparison is a strict weak order on the elements of the list. -/
structure StrictWeakOn (cmp : α → α → Ordering) (l : List α) : Prop where
  irrefl : ∀ a ∈ l, cmp a a ≠ .lt
  trans : ∀ a ∈ l, ∀ b ∈ l, ∀ c ∈ l, cmp a b = .lt → cmp b c = .lt → cmp a c = .lt
  ties : ∀ a ∈ l, ∀ b ∈ l, ∀ c ∈ l, cmp a b = .eq → cmp b c = .eq → cmp a c = .eq

theorem le_iff {a b : α} : le cmp a b = true ↔ cmp a b = .lt ∨ cmp a b = .eq := by
  rw [le]
  cases cmp a b <;> decide

theorem le_iff_ne_gt {a b : α} : le cmp a b = true ↔ cmp a b ≠ .gt := by
  rw [le]
  cases cmp a b <;> decide

namespace StrictWeakOn

theorem le_trans (hor : Oriented cmp) (h : StrictWeakOn cmp l) {a b c : α} (ha : a ∈ l) (hb : b ∈ l)
    (hc : c ∈ l) (hab : le cmp a b = true) (hbc : le cmp b c = true) : le cmp a c = true := by
  by_contra hac
  have hca : cmp c a = .lt := by
    rw [hor a c, Classical.not_not.mp (le_iff_ne_gt.not.mp hac)]
    rfl
  have heq : cmp c b = (cmp b c).swap := hor b c
  rcases le_iff.mp hab with hab | hab
  · -- `c` is below `b` then
    have hcb := h.trans c hc a ha b hb hca hab
    rw [heq] at hcb
    rcases le_iff.mp hbc with hbc | hbc <;> rw [hbc] at hcb <;> cases hcb
  · rcases le_iff.mp hbc with hbc | hbc
    · have hba := h.trans b hb c hc a ha hbc hca
      rw [hor a b, hab] at hba
      cases hba
    · have hall := h.ties a ha b hb c hc hab hbc
      rw [hor a c, hall] at hca
      cases hca

end StrictWeakOn

/-! ## 1. An order on everything -/

/-- The comparison on the elements of the list, with everything else above them. -/
noncomputable def leOn (cmp : α → α → Ordering) (l : List α) (a b : α) : Bool :=
  @decide (b ∈ l → a ∈ l ∧ le cmp a b = true) (Classical.propDecidable _)

theorem leOn_iff {a b : α} : leOn cmp l a b = true ↔ (b ∈ l → a ∈ l ∧ le cmp a b = true) :=
  @decide_eq_true_iff _ (Classical.propDecidable _)

theorem leOn_of_mem {a b : α} (ha : a ∈ l) (hb : b ∈ l) : leOn cmp l a b = le cmp a b := by
  rw [Bool.eq_iff_iff, leOn_iff]
  exact ⟨fun h => (h hb).2, fun h _ => ⟨ha, h⟩⟩

theorem leOn_trans (hor : Oriented cmp) (h : StrictWeakOn cmp l) (a b c : α)
    (hab : leOn cmp l a b = true) (hbc : leOn cmp l b c = true) : leOn cmp l a c = true := by
  rw [leOn_iff] at hab hbc ⊢
  intro hc
  obtain ⟨hb, hbc⟩ := hbc hc
  obtain ⟨ha, hab⟩ := hab hb
  exact ⟨ha, h.le_trans hor ha hb hc hab hbc⟩

theorem leOn_total (hor : Oriented cmp) (a b : α) : (leOn cmp l a b || leOn cmp l b a) = true := by
  rw [Bool.or_eq_true, leOn_iff, leOn_iff]
  by_cases hb : b ∈ l
  · by_cases ha : a ∈ l
    · have hone : le cmp a b = true ∨ le cmp b a = true := by
        rw [le_iff_ne_gt, le_iff_ne_gt, hor a b]
        cases cmp a b <;> decide
      rcases hone with hab | hba
      · exact Or.inl fun _ => ⟨ha, hab⟩
      · exact Or.inr fun _ => ⟨hb, hba⟩
    · exact Or.inr fun h => absurd h ha
  · exact Or.inl fun h => absurd h hb

/-- On a list of these elements the two sort alike. -/
theorem sortBy_eq (hsub : l₁ ⊆ l) : sortBy cmp l₁ = l₁.mergeSort (leOn cmp l) := by
  have hmap := List.map_mergeSort (f := id) (l := l₁) fun a ha b hb =>
    (@leOn_of_mem _ cmp l _ _ (hsub ha) (hsub hb)).symm
  rwa [List.map_id, List.map_id] at hmap

/-! ## 2. Orders of the same elements -/

theorem sortBy_perm (l : List α) : sortBy cmp l ~ l := List.mergeSort_perm l _

theorem pairwise_sortBy (hor : Oriented cmp) (h : StrictWeakOn cmp l) :
    (sortBy cmp l).Pairwise fun a b => le cmp a b = true := by
  have hsorted : (sortBy cmp l).Pairwise (leOn cmp l · · = true) := by
    rw [sortBy_eq (List.Subset.refl l)]
    exact List.pairwise_mergeSort (leOn_trans hor h) (leOn_total hor) l
  refine hsorted.imp_of_mem fun {a b} ha hb hab => ?_
  rwa [leOn_of_mem ((sortBy_perm l).subset ha) ((sortBy_perm l).subset hb)] at hab

/-- One result, if only equal elements compare equal. -/
theorem sortBy_eq_of_perm (hor : Oriented cmp) (h : StrictWeakOn cmp l)
    (hties : ∀ a ∈ l, ∀ b ∈ l, cmp a b = .eq → a = b) (hperm : l₁ ~ l) :
    sortBy cmp l₁ = sortBy cmp l := by
  have hsorted : ∀ l₂ : List α, l₂ ~ l → (sortBy cmp l₂).Pairwise (leOn cmp l · · = true) := by
    intro l₂ h₂
    rw [sortBy_eq h₂.subset]
    exact List.pairwise_mergeSort (leOn_trans hor h) (leOn_total hor) l₂
  have hboth : sortBy cmp l₁ ~ sortBy cmp l := (sortBy_perm l₁).trans (hperm.trans (sortBy_perm l).symm)
  refine hboth.eq_of_pairwise ?_ (hsorted l₁ hperm) (hsorted l (List.Perm.refl l))
  intro a b ha hb hab hba
  have ha : a ∈ l := hperm.subset ((sortBy_perm l₁).subset ha)
  have hb : b ∈ l := (sortBy_perm l).subset hb
  rw [leOn_of_mem ha hb, le_iff_ne_gt] at hab
  rw [leOn_of_mem hb ha, le_iff_ne_gt, hor a b] at hba
  refine hties a ha b hb ?_
  cases hcmp : cmp a b with
  | eq => rfl
  | lt =>
    rw [hcmp] at hba
    exact absurd rfl hba
  | gt => exact absurd hcmp hab

/-- Elements that compare equal stay in their order. -/
theorem filter_sortBy (hor : Oriented cmp) (h : StrictWeakOn cmp l) (hsub : l₁ ⊆ l) (p : α → Bool)
    (hties : ∀ a b, p a = true → p b = true → cmp a b = .eq) :
    (sortBy cmp l₁).filter p = l₁.filter p := by
  have hsorted : (l₁.filter p).Pairwise (leOn cmp l · · = true) := by
    refine List.pairwise_of_forall_mem_list fun a ha b hb => ?_
    rw [List.mem_filter] at ha hb
    rw [leOn_of_mem (hsub ha.1) (hsub hb.1)]
    exact le_iff.mpr (Or.inr (hties a b ha.2 hb.2))
  have hpart : l₁.filter p <+ sortBy cmp l₁ := by
    rw [sortBy_eq hsub]
    exact List.sublist_mergeSort (leOn_trans hor h) (leOn_total hor) hsorted List.filter_sublist
  have hfilter : l₁.filter p <+ (sortBy cmp l₁).filter p := by
    have htwice := hpart.filter p
    rwa [List.filter_filter, funext fun a => Bool.and_self (p a)] at htwice
  exact (hfilter.eq_of_length ((sortBy_perm l₁).filter p).length_eq.symm).symm

/-- Two different elements that compare equal are sorted as they come. -/
theorem sortBy_ne_of_tie (hor : Oriented cmp) (h : StrictWeakOn cmp l) {a b : α} (ha : a ∈ l)
    (hb : b ∈ l) (hne : a ≠ b) (htie : cmp a b = .eq) : ∃ l₁, l₁ ~ l ∧ sortBy cmp l₁ ≠ sortBy cmp l := by
  classical
  let p : α → Bool := fun x => x = a ∨ x = b
  have hself : ∀ x, cmp x x = .eq := by
    intro x
    have heq := hor x x
    cases hx : cmp x x <;> rw [hx] at heq <;> first | rfl | cases heq
  have hties : ∀ x y, p x = true → p y = true → cmp x y = .eq := by
    intro x y hx hy
    rcases of_decide_eq_true hx with rfl | rfl <;> rcases of_decide_eq_true hy with rfl | rfl
    · exact hself _
    · exact htie
    · rw [hor, htie]
      rfl
    · exact hself _
  -- the `a`s come first in one order and last in the other one
  let l₁ := l.filter (· = a) ++ l.filter fun x => !decide (x = a)
  let l₂ := (l.filter fun x => !decide (x = a)) ++ l.filter (· = a)
  have hl₁ : l₁ ~ l := List.filter_append_perm _ l
  have hl₂ : l₂ ~ l := List.perm_append_comm.trans hl₁
  have hdiffer : l₁.filter p ≠ l₂.filter p := by
    intro heq
    have hp : (l.filter (· = a)).filter p = l.filter (· = a) := by
      refine List.filter_eq_self.mpr fun x hx => ?_
      exact decide_eq_true (Or.inl (of_decide_eq_true (List.mem_filter.mp hx).2))
    rw [List.filter_append, List.filter_append, hp] at heq
    have hmem : b ∈ (l.filter fun x => !decide (x = a)).filter p := by
      simp [p, hb, Ne.symm hne]
    obtain ⟨x, m, hm⟩ := List.exists_cons_of_ne_nil
      (List.ne_nil_of_mem (List.mem_filter.mpr ⟨ha, decide_eq_true rfl⟩) : l.filter (· = a) ≠ [])
    obtain ⟨y, n, hn⟩ := List.exists_cons_of_ne_nil (List.ne_nil_of_mem hmem)
    have hx : x ∈ l.filter (· = a) := hm ▸ List.mem_cons_self
    have hy : y ∈ (l.filter fun x => !decide (x = a)).filter p := hn ▸ List.mem_cons_self
    rw [hm, hn] at heq
    have hxy : x = y := (List.cons.inj heq).1
    have hxa : x = a := of_decide_eq_true (List.mem_filter.mp hx).2
    have hya := (List.mem_filter.mp (List.mem_filter.mp hy).1).2
    rw [← hxy, hxa] at hya
    simp at hya
  by_contra hall
  rw [not_exists] at hall
  refine hdiffer ?_
  have hone := Classical.not_not.mp (not_and.mp (hall l₁) hl₁)
  have htwo := Classical.not_not.mp (not_and.mp (hall l₂) hl₂)
  rw [← filter_sortBy hor h hl₁.subset p hties, ← filter_sortBy hor h hl₂.subset p hties, hone, htwo]

end Sorting
