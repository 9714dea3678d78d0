/-
# Pages of a list

`paginateResponse` is the envelope of one page of a list, and `pageOf` cuts the page out of the list.
The pages from the first to the last are the list (`flatMap_pageOf`), whatever the limit, and there is
a next page exactly while it has entries (`has_next_iff`).
-/
import Mathlib.Data.List.Basic

namespace Paging

open List

variable {α : Type}

/-- A page and what is said of it. -/
structure Page (α : Type) where
  data : List α
  page : ℕ
  limit : ℕ
  total : ℕ
  total_pages : ℕ
  has_next : Bool
  has_prev : Bool

/-- `paginateResponse`. -/
def paginateResponse (data : List α) (total page limit : ℕ) : Page α :=
  let total_pages := (total + limit - 1) / limit
  { data, page, limit, total, total_pages
    has_next := page < total_pages
    has_prev := 1 < page }

/-- The page of a list. -/
def pageOf (all : List α) (page limit : ℕ) : Page α :=
  paginateResponse ((all.drop ((page - 1) * limit)).take limit) all.length page limit

/-- The pages before the last, put together. -/
theorem flatMap_take (all : List α) (limit n : ℕ) :
    (List.range n).flatMap (fun k => (all.drop (k * limit)).take limit) = all.take (n * limit) := by
  induction n with
  | zero => simp
  | succ n ih => rw [List.range_succ, List.flatMap_append, List.flatMap_singleton, ih,
      Nat.succ_mul, List.take_add]

/-- **All pages** together are the list. -/
theorem flatMap_pageOf (all : List α) {limit : ℕ} (hlimit : 0 < limit) (page : ℕ) :
    (List.range (pageOf all page limit).total_pages).flatMap (fun k => (pageOf all (k + 1) limit).data) =
      all := by
  show (List.range ((all.length + limit - 1) / limit)).flatMap
    (fun k => (all.drop (k * limit)).take limit) = all
  rw [flatMap_take, List.take_of_length_le]
  have hceil : all.length + limit - 1 < ((all.length + limit - 1) / limit + 1) * limit :=
    Nat.lt_mul_of_div_lt (Nat.lt_succ_self _) hlimit
  rw [Nat.succ_mul] at hceil
  omega

/-- **There is a next page** exactly if it has entries. -/
theorem has_next_iff (all : List α) (page : ℕ) {limit : ℕ} (hlimit : 0 < limit) :
    (pageOf all page limit).has_next = true ↔ (pageOf all (page + 1) limit).data ≠ [] := by
  show decide (page < (all.length + limit - 1) / limit) = true ↔
    (all.drop (page * limit)).take limit ≠ []
  rw [decide_eq_true_eq, ← Nat.succ_le_iff, Nat.le_div_iff_mul_le hlimit, ← List.length_pos_iff,
    List.length_take, List.length_drop, Nat.succ_mul]
  omega

end Paging
