/-
# Throttled signals

A signal is asked for at some times and given unless one was given less than a period ago.  However often
it is asked for, the given ones are more than a period apart (`spaced_fires`), and on a clock that does not
go back each time it is asked for, one was given within the last period (`covered_fires`).
-/
import Mathlib.Data.List.Basic
import Mathlib.Order.Basic

namespace Throttle

variable {period now : ℕ} {last : Option ℕ} {times : List ℕ}

/-- `!last || now - last > period`: a time of zero is as good as none. -/
def due (period : ℕ) (last : Option ℕ) (now : ℕ) : Bool :=
  match last with
  | none => true
  | some t => t == 0 || t + period < now

/-- When the signal was given last. -/
def next (period : ℕ) (last : Option ℕ) (now : ℕ) : Option ℕ :=
  if due period last now then some now else last

/-- The times at which it is given, of those at which it is asked for. -/
def fires (period : ℕ) : Option ℕ → List ℕ → List ℕ
  | _, [] => []
  | last, now :: times =>
    if due period last now then now :: fires period (some now) times else fires period last times

attribute [local simp] fires

theorem fires_append (last : Option ℕ) (times : List ℕ) (now : ℕ) :
    fires period last (times ++ [now]) = fires period last times ++
      if due period (times.foldl (next period) last) now then [now] else [] := by
  induction times generalizing last with
  | nil =>
    rw [List.nil_append, List.foldl_nil, fires]
    by_cases hdue : due period last now = true <;> simp [fires, hdue]
  | cons t times ih =>
    rw [List.cons_append, List.foldl_cons, fires, fires, next]
    split
    · rw [ih, List.cons_append]
    · rw [ih]

theorem mem_of_mem_fires {t : ℕ} (h : t ∈ fires period last times) : t ∈ times := by
  induction times generalizing last with
  | nil => exact h
  | cons now times ih =>
    rw [fires] at h
    split at h
    · rcases List.mem_cons.mp h with rfl | h
      · exact List.mem_cons_self
      · exact List.mem_cons_of_mem now (ih h)
    · exact List.mem_cons_of_mem now (ih h)

/-- After one signal, the next is more than a period later. -/
theorem lt_of_mem_fires {t : ℕ} (ht : t ≠ 0) (hpos : ∀ u ∈ times, u ≠ 0) {u : ℕ}
    (h : u ∈ fires period (some t) times) : t + period < u := by
  induction times generalizing t with
  | nil => cases h
  | cons now times ih =>
    have hnow := hpos now List.mem_cons_self
    have hrest := fun u hu => hpos u (List.mem_cons_of_mem now hu)
    rw [fires] at h
    split at h
    · rename_i hdue
      have hlate : t + period < now := by simpa [due, ht] using hdue
      rcases List.mem_cons.mp h with rfl | h
      · exact hlate
      · have hnext := ih hnow hrest h
        omega
    · exact ih ht hrest h

/-- **More than a period apart.** -/
theorem spaced_fires (last : Option ℕ) (hpos : ∀ u ∈ times, u ≠ 0) :
    (fires period last times).Pairwise fun t u => t + period < u := by
  induction times generalizing last with
  | nil => exact List.Pairwise.nil
  | cons now times ih =>
    have hrest := fun u hu => hpos u (List.mem_cons_of_mem now hu)
    rw [fires]
    split
    · exact .cons (fun u hu => lt_of_mem_fires (hpos now List.mem_cons_self) hrest hu)
        (ih (some now) hrest)
    · exact ih last hrest

/-- **None is missed**: on a clock that does not go back, whenever the signal is asked for, it is given or
was given within the last period. -/
theorem covered_fires {last : Option ℕ} (hsorted : times.Pairwise (· ≤ ·))
    (hlast : ∀ t, last = some t → ∀ u ∈ times, t ≤ u) {now : ℕ} (h : now ∈ times) :
    ∃ t, (last = some t ∨ t ∈ fires period last times) ∧ t ≤ now ∧ now ≤ t + period := by
  induction times generalizing last with
  | nil => cases h
  | cons first times ih =>
    obtain ⟨hfirst, hrest⟩ := List.pairwise_cons.mp hsorted
    rw [fires]
    split
    · rcases List.mem_cons.mp h with rfl | h
      · exact ⟨now, .inr List.mem_cons_self, Nat.le_refl now, Nat.le_add_right now period⟩
      · obtain ⟨t, ht, hbounds⟩ := ih hrest (fun t heq => Option.some.inj heq ▸ hfirst) h
        refine ⟨t, .inr ?_, hbounds⟩
        rcases ht with heq | hmem
        · exact Option.some.inj heq ▸ List.mem_cons_self
        · exact List.mem_cons_of_mem first hmem
    · rename_i hdue
      rcases List.mem_cons.mp h with rfl | h
      · cases last with
        | none => exact absurd rfl hdue
        | some t =>
          refine ⟨t, .inl rfl, hlast t rfl now List.mem_cons_self, ?_⟩
          simp only [due, Bool.or_eq_true, decide_eq_true_eq] at hdue
          omega
      · exact ih hrest (fun t heq u hu => hlast t heq u (List.mem_cons_of_mem first hu)) h

end Throttle
