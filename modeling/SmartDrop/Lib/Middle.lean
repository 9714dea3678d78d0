/-
# Places in a sorted list

What stands at place `i` of a sorted list lies above a bound as soon as no more than `i` of its entries lie
below that bound (`le_of_countP_lt`), and below a bound as soon as not all the entries from there on lie above
it (`le_of_countP_gt`).  So a few entries cannot carry the middle beyond what the others have.
-/
import Mathlib.Data.List.Sort

namespace Middle

variable {α : Type} [LinearOrder α] {l : List α} {a x : α} {i : ℕ}

theorem le_of_le_place (hsorted : l.Pairwise (· ≤ ·)) {j : ℕ} {y : α} (hx : l[i]? = some x)
    (hy : l[j]? = some y) (hij : i ≤ j) : x ≤ y := by
  obtain ⟨hi, rfl⟩ := List.getElem?_eq_some_iff.mp hx
  obtain ⟨hj, rfl⟩ := List.getElem?_eq_some_iff.mp hy
  rcases hij.eq_or_lt with rfl | hlt
  · exact le_refl _
  · exact List.pairwise_iff_getElem.mp hsorted i j hi hj hlt

theorem le_of_countP_lt (hsorted : l.Pairwise (· ≤ ·)) (hx : l[i]? = some x)
    (hfew : l.countP (· < a) ≤ i) : a ≤ x := by
  by_contra hlt
  have hi : i < l.length := (List.getElem?_eq_some_iff.mp hx).1
  have hall : (l.take (i + 1)).countP (· < a) = (l.take (i + 1)).length := by
    refine List.countP_eq_length.mpr fun y hy => decide_eq_true ?_
    obtain ⟨j, hj⟩ := List.mem_iff_getElem?.mp hy
    rw [List.getElem?_take] at hj
    split at hj
    · rename_i hji
      exact lt_of_le_of_lt (le_of_le_place hsorted hj hx (Nat.lt_succ_iff.mp hji)) (not_le.mp hlt)
    · cases hj
  have hle : (l.take (i + 1)).countP (· < a) ≤ l.countP (· < a) :=
    (List.take_sublist _ _).countP_le
  rw [hall, List.length_take] at hle
  omega

theorem le_of_countP_gt (hsorted : l.Pairwise (· ≤ ·)) (hx : l[i]? = some x)
    (hfew : l.countP (a < ·) + i < l.length) : x ≤ a := by
  by_contra hlt
  have hall : (l.drop i).countP (a < ·) = (l.drop i).length := by
    refine List.countP_eq_length.mpr fun y hy => decide_eq_true ?_
    obtain ⟨j, hj⟩ := List.mem_iff_getElem?.mp hy
    rw [List.getElem?_drop] at hj
    exact lt_of_lt_of_le (not_le.mp hlt) (le_of_le_place hsorted hx hj (Nat.le_add_right i j))
  have hle : (l.drop i).countP (a < ·) ≤ l.countP (a < ·) := (List.drop_sublist _ _).countP_le
  rw [hall, List.length_drop] at hle
  omega

end Middle
