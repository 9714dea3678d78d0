/-
# Pages of a table that changes

Rows are read in pages of at most `limit` rows: each request takes the rows whose key comes after the last key
that was given out, in the order of the keys, and between two requests rows come and go.

* The pages follow one another in the order of the keys (`Follows.sorted`), since a page begins where the one
  before it ends, so no row is given twice.
* A row that is there all the time is on a page (`Follows.complete`): as long as it is not, it comes after the
  last key.
* If there are only finitely many rows over all the time, the pages come to an end (`exists_follows`): each one
  with a successor takes at least one row from those that are to come.
-/
import Mathlib.Data.List.Nodup
import Mathlib.Data.List.Perm.Basic

namespace Keyset

open List

variable {ρ κ : Type}

/-- A strict order in which two different keys can be compared. -/
structure Strict (lt : κ → κ → Bool) : Prop where
  irrefl : ∀ a, lt a a = false
  trans : ∀ {a b c}, lt a b = true → lt b c = true → lt a c = true
  connected : ∀ {a b}, a ≠ b → lt a b = true ∨ lt b a = true

variable (lt : κ → κ → Bool) (key : ρ → κ) (limit : ℕ)

/-- Whether a row comes after a key, if there is one. -/
def after (start : Option κ) (r : ρ) : Bool := start.all fun k => lt k (key r)

/-- The rows after a key, in order. -/
def select (start : Option κ) (rows : List ρ) : List ρ :=
  (rows.filter (after lt key start)).mergeSort fun r s => !lt (key s) (key r)

/-- The rows of a page. -/
def items (start : Option κ) (rows : List ρ) : List ρ := (select lt key start rows).take limit

/-- Where the next page begins, if there is one. -/
def next (start : Option κ) (rows : List ρ) : Option κ :=
  if limit < (select lt key start rows).length then (items lt key limit start rows).getLast?.map key
  else none

/-- The pages from the `n`-th request on. -/
inductive Follows (table : ℕ → List ρ) : ℕ → Option κ → List (List ρ) → Prop
  | last {n start} (h : next lt key limit start (table n) = none) :
    Follows table n start [items lt key limit start (table n)]
  | more {n start k pages} (h : next lt key limit start (table n) = some k)
    (hrest : Follows table (n + 1) (some k) pages) :
    Follows table n start (items lt key limit start (table n) :: pages)

variable {lt : κ → κ → Bool} {key : ρ → κ} {limit : ℕ} {start : Option κ} {rows : List ρ} {r : ρ} {k : κ}

/-! ## 1. One page -/

theorem mem_select : r ∈ select lt key start rows ↔ r ∈ rows ∧ after lt key start r = true := by
  rw [select, List.mem_mergeSort, List.mem_filter]

theorem after_some : after lt key (some k) r = lt k (key r) := rfl

/-- What comes after a later key comes after an earlier one. -/
theorem after_of_lt (hlt : Strict lt) {s : ρ} (hs : after lt key start s = true)
    (h : lt (key s) (key r) = true) : after lt key start r = true := by
  cases start with
  | none => rfl
  | some k => exact hlt.trans hs h

theorem sorted_select (hlt : Strict lt) (hnodup : (rows.map key).Nodup) (start : Option κ) :
    (select lt key start rows).Pairwise fun r s => lt (key r) (key s) = true := by
  have htotal : ∀ a b : κ, lt a b = false → lt b a = false → a = b := by
    intro a b hab hba
    by_contra hne
    rcases hlt.connected hne with h | h
    · rw [hab] at h
      cases h
    · rw [hba] at h
      cases h
  have hle : (select lt key start rows).Pairwise fun r s => (!lt (key s) (key r)) = true := by
    refine List.pairwise_mergeSort ?_ ?_ _
    · intro a b c hab hbc
      rw [Bool.not_eq_true'] at hab hbc ⊢
      by_contra hca
      rw [Bool.not_eq_false] at hca
      -- `b` is neither before `a` nor after `c`, so the three are one
      by_cases hba : key b = key a
      · rw [hba, hca] at hbc
        cases hbc
      · rcases hlt.connected hba with h | h
        · rw [hab] at h
          cases h
        · rw [hlt.trans hca h] at hbc
          cases hbc
    · intro a b
      rw [Bool.or_eq_true, Bool.not_eq_true', Bool.not_eq_true']
      cases hba : lt (key b) (key a) with
      | false => exact Or.inl rfl
      | true =>
        right
        by_contra hab
        rw [Bool.not_eq_false] at hab
        have := hlt.trans hab hba
        rw [hlt.irrefl] at this
        cases this
  have hne : (select lt key start rows).Pairwise fun r s => key r ≠ key s := by
    have hperm : select lt key start rows ~ rows.filter (after lt key start) := List.mergeSort_perm _ _
    rw [← List.pairwise_map (R := (· ≠ ·))]
    exact ((hperm.map key).nodup_iff).mpr (hnodup.sublist (List.filter_sublist.map key))
  refine (hle.and hne).imp fun {r s} h => ?_
  refine (hlt.connected h.2).resolve_right fun hsr => ?_
  rw [hsr] at h
  cases h.1

theorem mem_items (h : r ∈ items lt key limit start rows) : r ∈ rows ∧ after lt key start r = true :=
  mem_select.mp (List.mem_of_mem_take h)

/-- The parts of a page that has a successor: the last row has the key. -/
theorem split_of_next (h : next lt key limit start rows = some k) :
    ∃ front s rest, select lt key start rows = front ++ s :: rest ∧
      items lt key limit start rows = front ++ [s] ∧ key s = k := by
  rw [next] at h
  split at h
  · obtain ⟨s, hs, hk⟩ := Option.map_eq_some_iff.mp h
    obtain ⟨front, hfront⟩ := List.getLast?_eq_some_iff.mp hs
    refine ⟨front, s, (select lt key start rows).drop limit, ?_, hfront, hk⟩
    have hall := List.take_append_drop limit (select lt key start rows)
    rw [← items, hfront] at hall
    exact hall.symm.trans (by simp)
  · cases h

/-- Without a successor the page has all rows. -/
theorem mem_items_of_next_none (hlimit : 1 ≤ limit) (h : next lt key limit start rows = none)
    (hr : r ∈ rows) (hafter : after lt key start r = true) : r ∈ items lt key limit start rows := by
  rw [next] at h
  split at h
  · rename_i hlt
    rw [Option.map_eq_none_iff, List.getLast?_eq_none_iff, items, List.take_eq_nil_iff] at h
    rcases h with h | h
    · omega
    · rw [h] at hlt
      cases hlt
  · rename_i hle
    rw [items, List.take_of_length_le (by omega)]
    exact mem_select.mpr ⟨hr, hafter⟩

/-- With one, the rows that are left come after it. -/
theorem mem_items_or_after (hlt : Strict lt) (hnodup : (rows.map key).Nodup)
    (h : next lt key limit start rows = some k) (hr : r ∈ rows) (hafter : after lt key start r = true) :
    r ∈ items lt key limit start rows ∨ after lt key (some k) r = true := by
  obtain ⟨front, s, rest, hselect, hitems, rfl⟩ := split_of_next h
  have hmem : r ∈ select lt key start rows := mem_select.mpr ⟨hr, hafter⟩
  have hsorted := sorted_select hlt hnodup start
  rw [hselect] at hmem hsorted
  rw [hitems]
  rcases List.mem_append.mp hmem with hmem | hmem
  · exact Or.inl (List.mem_append_left _ hmem)
  rcases List.mem_cons.mp hmem with rfl | hmem
  · exact Or.inl (List.mem_append_right _ List.mem_cons_self)
  · exact Or.inr (List.rel_of_pairwise_cons (List.pairwise_append.mp hsorted).2.1 hmem)

/-! ## 2. All pages -/

variable {table : ℕ → List ρ} {n : ℕ} {pages : List (List ρ)}

namespace Follows

theorem after_of_mem (hlt : Strict lt) (h : Follows lt key limit table n start pages) (hr : r ∈ pages.flatten) :
    after lt key start r = true := by
  induction h with
  | last _ =>
    rw [List.flatten_singleton] at hr
    exact (mem_items hr).2
  | more h _ ih =>
    rw [List.flatten_cons, List.mem_append] at hr
    rcases hr with hr | hr
    · exact (mem_items hr).2
    · obtain ⟨front, s, rest, -, hitems, rfl⟩ := split_of_next h
      have hs : s ∈ items lt key limit _ (table _) := hitems ▸ List.mem_append_right _ List.mem_cons_self
      exact after_of_lt hlt (mem_items hs).2 (ih hr)

theorem mem_table (h : Follows lt key limit table n start pages) (hr : r ∈ pages.flatten) :
    ∃ i, r ∈ table i := by
  induction h with
  | last _ =>
    rw [List.flatten_singleton] at hr
    exact ⟨_, (mem_items hr).1⟩
  | more _ _ ih =>
    rw [List.flatten_cons, List.mem_append] at hr
    rcases hr with hr | hr
    · exact ⟨_, (mem_items hr).1⟩
    · exact ih hr

/-- **Order.** -/
theorem sorted (hlt : Strict lt) (hnodup : ∀ i, ((table i).map key).Nodup)
    (h : Follows lt key limit table n start pages) :
    pages.flatten.Pairwise fun r s => lt (key r) (key s) = true := by
  induction h with
  | @last n start _ =>
    rw [List.flatten_singleton]
    exact (sorted_select hlt (hnodup n) start).sublist (List.take_sublist _ _)
  | @more n start k pages h hrest ih =>
    obtain ⟨front, s, rest, hselect, hitems, rfl⟩ := split_of_next h
    have hsorted := sorted_select hlt (hnodup n) start
    have hpage : (front ++ [s]).Pairwise fun r s => lt (key r) (key s) = true := by
      rw [hselect] at hsorted
      exact hsorted.sublist (by simp)
    rw [List.flatten_cons, hitems, List.pairwise_append]
    refine ⟨hpage, ih, fun r hr t ht => ?_⟩
    have hst : lt (key s) (key t) = true := hrest.after_of_mem hlt ht
    rcases List.mem_append.mp hr with hr | hr
    · exact hlt.trans ((List.pairwise_append.mp hpage).2.2 r hr s List.mem_cons_self) hst
    · rwa [List.mem_singleton.mp hr]

/-- **What stays is found.** -/
theorem complete (hlt : Strict lt) (hnodup : ∀ i, ((table i).map key).Nodup) (hlimit : 1 ≤ limit)
    (h : Follows lt key limit table n start pages) (hafter : after lt key start r = true)
    (hr : ∀ i < pages.length, r ∈ table (n + i)) : r ∈ pages.flatten := by
  induction h with
  | last h =>
    rw [List.flatten_singleton]
    exact mem_items_of_next_none hlimit h (hr 0 Nat.one_pos) hafter
  | more h _ ih =>
    rw [List.flatten_cons, List.mem_append]
    rcases mem_items_or_after hlt (hnodup _) h (hr 0 (by simp)) hafter with hmem | hmem
    · exact Or.inl hmem
    · refine Or.inr (ih hmem fun i hi => ?_)
      have := hr (i + 1) (by simpa using hi)
      rwa [Nat.add_comm i 1, ← Nat.add_assoc] at this

end Follows

/-- **The end.** -/
theorem exists_follows (hlt : Strict lt) {all : List ρ} (hall : ∀ i, ∀ r ∈ table i, r ∈ all) (n : ℕ)
    (start : Option κ) : ∃ pages, Follows lt key limit table n start pages := by
  induction hm : (all.filter (after lt key start)).length using Nat.strongRecOn generalizing n start with
  | ind m ih =>
    cases hnext : next lt key limit start (table n) with
    | none => exact ⟨_, .last hnext⟩
    | some k =>
      obtain ⟨front, s, rest, -, hitems, rfl⟩ := split_of_next hnext
      have hs : s ∈ items lt key limit start (table n) := hitems ▸ List.mem_append_right _ List.mem_cons_self
      -- the last row of the page is not to come any more
      have hless : (all.filter (after lt key (some (key s)))).length <
          (all.filter (after lt key start)).length := by
        have htwice : all.filter (after lt key (some (key s))) =
            (all.filter (after lt key start)).filter (after lt key (some (key s))) := by
          rw [List.filter_filter]
          refine List.filter_congr fun r _ => ?_
          cases hr : after lt key (some (key s)) r with
          | false => rfl
          | true => rw [after_of_lt hlt (mem_items hs).2 hr, Bool.and_self]
        rw [htwice, List.length_filter_lt_length_iff_exists]
        refine ⟨s, List.mem_filter.mpr ⟨hall n s (mem_items hs).1, (mem_items hs).2⟩, ?_⟩
        rw [after_some, hlt.irrefl]
        exact Bool.false_ne_true
      obtain ⟨pages, hpages⟩ := ih _ (hm ▸ hless) (n + 1) (some (key s)) rfl
      exact ⟨_, .more hnext hpages⟩

end Keyset
