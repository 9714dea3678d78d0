/-
# Work that is under way once for each key

A process keeps a map from keys to the flight that is under way for each, so that a second caller
joins the first one's flight.  Flights are numbered in the order in which they begin, and each is in a
phase; some phases are `held`, and `Sound held` says that the entries of the map are the flights in
those.  A flight begins (`begin`), goes on to another phase (`move`), and gets its entry (`enter`) or
loses it (`leave`) on the way; each pairing of these that fits the phases keeps the map sound, and
then no two held flights have the same key (`Sound.one`).
-/
import Mathlib.Data.List.Basic
import Mathlib.Logic.Function.Basic

namespace Conc

/-- The map, and all flights so far with their keys and phases. -/
structure Flights (κ φ : Type) where
  entry : κ → Option ℕ
  flights : List (κ × φ)

namespace Flights

variable {κ φ : Type}

/-- Nothing has begun. -/
def empty : Flights κ φ := ⟨fun _ => none, []⟩

/-- The `n`-th flight is for `key` and in the phase `p`. -/
def At (f : Flights κ φ) (n : ℕ) (key : κ) (p : φ) : Prop := f.flights[n]? = some (key, p)

instance [DecidableEq κ] [DecidableEq φ] (f : Flights κ φ) (n : ℕ) (key : κ) (p : φ) :
    Decidable (f.At n key p) := inferInstanceAs (Decidable (_ = _))

/-- A flight begins, without an entry. -/
def begin (f : Flights κ φ) (key : κ) (p : φ) : Flights κ φ :=
  { f with flights := f.flights ++ [(key, p)] }

/-- The `n`-th flight goes on to the phase `p`. -/
def move (f : Flights κ φ) (n : ℕ) (p : φ) : Flights κ φ :=
  { f with flights := f.flights.modify n fun e => (e.1, p) }

section Entries

variable [DecidableEq κ]

/-- `map.set(key, flight)`. -/
def enter (f : Flights κ φ) (key : κ) (n : ℕ) : Flights κ φ :=
  { f with entry := Function.update f.entry key (some n) }

/-- `map.delete(key)`. -/
def leave (f : Flights κ φ) (key : κ) : Flights κ φ :=
  { f with entry := Function.update f.entry key none }

end Entries

/-- The entries are the flights in a held phase. -/
structure Sound (held : φ → Prop) (f : Flights κ φ) : Prop where
  entry_iff : ∀ key n, f.entry key = some n ↔ ∃ p, f.At n key p ∧ held p

/-! ## 1. Phases -/

section Phases

variable {f : Flights κ φ} {m n : ℕ} {key other : κ} {p q : φ}

theorem At.phase_unique (h : f.At n key p) (h' : f.At n other q) : key = other ∧ p = q := by
  have := h.symm.trans h'
  simpa using this

theorem at_begin : (f.begin other q).At n key p ↔
    f.At n key p ∨ n = f.flights.length ∧ key = other ∧ p = q := by
  unfold At begin
  rw [List.getElem?_append]
  split
  · rename_i hlt
    constructor
    · exact .inl
    · rintro (h | ⟨rfl, -⟩)
      · exact h
      · omega
  · rename_i hge
    constructor
    · intro h
      have hn : n - f.flights.length = 0 := by
        have := (List.getElem?_eq_some_iff.mp h).1
        rw [List.length_singleton] at this
        omega
      rw [hn, List.getElem?_cons_zero, Option.some_inj, Prod.mk.injEq] at h
      exact .inr ⟨by omega, h.1.symm, h.2.symm⟩
    · rintro (h | ⟨rfl, rfl, rfl⟩)
      · exact absurd (List.getElem?_eq_some_iff.mp h).1 (by omega)
      · simp

theorem at_move : (f.move m q).At n key p ↔
    if m = n then p = q ∧ ∃ p', f.At n key p' else f.At n key p := by
  unfold At move
  rw [List.getElem?_modify]
  split
  · cases hf : f.flights[n]? with
    | none => simp
    | some e =>
      obtain ⟨key', p'⟩ := e
      simp only [Option.map_eq_map, Option.map_some, Option.some_inj, Prod.mk.injEq]
      constructor
      · rintro ⟨rfl, rfl⟩
        exact ⟨rfl, p', rfl, rfl⟩
      · rintro ⟨rfl, _, rfl, -⟩
        exact ⟨rfl, rfl⟩
  · simp

theorem at_move_self (h : f.At n key p) : (f.move n q).At n key q :=
  at_move.mpr (by rw [if_pos rfl]; exact ⟨rfl, p, h⟩)

theorem at_move_of_ne (hne : m ≠ n) : (f.move m q).At n key p ↔ f.At n key p := by
  rw [at_move, if_neg hne]

/-- Only the phase of the flight that moves is another one. -/
theorem At.of_move (h : (f.move m q).At n key p) : ∃ p', f.At n key p' := by
  rw [at_move] at h
  split at h
  · exact h.2
  · exact ⟨p, h⟩

end Phases

/-! ## 2. Soundness -/

section Sound

variable {held : φ → Prop} {f : Flights κ φ} {m n : ℕ} {key : κ} {p q : φ}

theorem sound_empty : (empty : Flights κ φ).Sound held := by
  refine ⟨fun key n => ?_⟩
  simp [empty, At]

/-- **At most one** held flight for each key. -/
theorem Sound.one (h : f.Sound held) (hm : f.At m key p) (hp : held p) (hn : f.At n key q)
    (hq : held q) : m = n := by
  have hfirst := (h.entry_iff key m).mpr ⟨p, hm, hp⟩
  have hsecond := (h.entry_iff key n).mpr ⟨q, hn, hq⟩
  exact Option.some_inj.mp (hfirst.symm.trans hsecond)

theorem Sound.not_held (h : f.Sound held) (hnone : f.entry key = none) (hn : f.At n key p) :
    ¬ held p := by
  intro hp
  have := (h.entry_iff key n).mpr ⟨p, hn, hp⟩
  rw [hnone] at this
  cases this

theorem Sound.begin (h : f.Sound held) (key : κ) (hp : ¬ held p) : (f.begin key p).Sound held := by
  refine ⟨fun key' n => (h.entry_iff key' n).trans ?_⟩
  constructor
  · rintro ⟨p', hat, hheld⟩
    exact ⟨p', at_begin.mpr (.inl hat), hheld⟩
  · rintro ⟨p', hat, hheld⟩
    rcases at_begin.mp hat with hat | ⟨-, -, rfl⟩
    · exact ⟨p', hat, hheld⟩
    · exact absurd hheld hp

/-- A flight stays held, or stays not held. -/
theorem Sound.move (h : f.Sound held) (hat : f.At n key p) (hpq : held q ↔ held p) :
    (f.move n q).Sound held := by
  refine ⟨fun key' n' => (h.entry_iff key' n').trans ?_⟩
  by_cases hn : n = n'
  · subst hn
    constructor
    · rintro ⟨p', hat', hheld⟩
      obtain ⟨rfl, rfl⟩ := hat.phase_unique hat'
      exact ⟨q, at_move_self hat, hpq.mpr hheld⟩
    · rintro ⟨p', hat', hheld⟩
      obtain ⟨rfl, p'', hat''⟩ : p' = q ∧ ∃ p'', f.At n key' p'' := by
        have := at_move.mp hat'
        rwa [if_pos rfl] at this
      obtain ⟨rfl, rfl⟩ := hat.phase_unique hat''
      exact ⟨p, hat, hpq.mp hheld⟩
  · simp only [at_move_of_ne hn]

section Entries

variable [DecidableEq κ]

/-- **A flight gets its entry.** -/
theorem Sound.enter (h : f.Sound held) (hat : f.At n key p) (hq : held q)
    (hfree : f.entry key = none) : ((f.move n q).enter key n).Sound held := by
  refine ⟨fun key' n' => ?_⟩
  change Function.update f.entry key (some n) key' = some n' ↔ ∃ p', (f.move n q).At n' key' p' ∧ _
  by_cases hkey : key' = key
  · subst hkey
    rw [Function.update_self, Option.some_inj]
    constructor
    · rintro rfl
      exact ⟨q, at_move_self hat, hq⟩
    · rintro ⟨p', hat', hheld⟩
      by_contra hne
      exact h.not_held hfree ((at_move_of_ne hne).mp hat') hheld
  · rw [Function.update_of_ne hkey, h.entry_iff]
    by_cases hn : n = n'
    · subst hn
      constructor
      · rintro ⟨p', hat', -⟩
        exact absurd (hat.phase_unique hat').1.symm hkey
      · rintro ⟨p', hat', -⟩
        obtain ⟨p'', hat''⟩ := hat'.of_move
        exact absurd (hat.phase_unique hat'').1.symm hkey
    · simp only [at_move_of_ne hn]

/-- **A flight loses its entry.** -/
theorem Sound.leave (h : f.Sound held) (hat : f.At n key p) (hp : held p) (hq : ¬ held q) :
    ((f.move n q).leave key).Sound held := by
  refine ⟨fun key' n' => ?_⟩
  change Function.update f.entry key none key' = some n' ↔ ∃ p', (f.move n q).At n' key' p' ∧ _
  by_cases hkey : key' = key
  · subst hkey
    rw [Function.update_self]
    constructor
    · intro hnone
      cases hnone
    · rintro ⟨p', hat', hheld⟩
      by_cases hn : n = n'
      · subst hn
        have hmoved := at_move.mp hat'
        rw [if_pos rfl] at hmoved
        exact absurd (hmoved.1 ▸ hheld) hq
      · exact absurd (h.one hat hp ((at_move_of_ne hn).mp hat') hheld) hn
  · rw [Function.update_of_ne hkey, h.entry_iff]
    by_cases hn : n = n'
    · subst hn
      constructor
      · rintro ⟨p', hat', -⟩
        exact absurd (hat.phase_unique hat').1.symm hkey
      · rintro ⟨p', hat', -⟩
        obtain ⟨p'', hat''⟩ := hat'.of_move
        exact absurd (hat.phase_unique hat'').1.symm hkey
    · simp only [at_move_of_ne hn]

/-- **A flight begins with its entry.** -/
theorem Sound.launch (h : f.Sound held) (hp : held p) (hfree : f.entry key = none) :
    ((f.begin key p).enter key f.flights.length).Sound held := by
  refine ⟨fun key' n => ?_⟩
  change Function.update f.entry key (some f.flights.length) key' = some n ↔
    ∃ p', (f.begin key p).At n key' p' ∧ _
  by_cases hkey : key' = key
  · subst hkey
    rw [Function.update_self, Option.some_inj]
    constructor
    · rintro rfl
      exact ⟨p, at_begin.mpr (.inr ⟨rfl, rfl, rfl⟩), hp⟩
    · rintro ⟨p', hat, hheld⟩
      rcases at_begin.mp hat with hat | ⟨rfl, -⟩
      · exact absurd hheld (h.not_held hfree hat)
      · rfl
  · rw [Function.update_of_ne hkey, h.entry_iff]
    refine exists_congr fun p' => and_congr_left fun _ => ?_
    rw [at_begin]
    simp [hkey]

end Entries

end Sound

end Flights

end Conc
