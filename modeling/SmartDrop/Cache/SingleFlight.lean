/-
# Single flight

`SingleFlight` in `cache/stampede.js`: `do(key, fn)` joins the execution that is in flight for the
key, or starts one.  `fn` runs synchronously up to its first `await`, or until it returns; only then
is the promise put into the map, and it is taken out in the `finally` of the execution.  A function
that throws before that is taken out first and put in afterwards, and stays there
(`stays_in_flight`).

The event loop is a transition system.  The executions whose functions run synchronously are on a
stack, the innermost first, and such a function may call `do` again.  An execution settles while
nothing runs.
-/
import SmartDrop.Lib.Flights
import SmartDrop.Lib.Run
import Mathlib.Data.List.Nodup

namespace SmartDrop.Cache.SingleFlight

open Conc

/-! ## 1. The source -/

/-- How far an execution is: its function runs synchronously, its result is awaited, or its promise
has settled. -/
inductive Phase (α ε : Type) where
  | entered
  | awaiting
  | settled (o : Except ε α)

variable {κ α ε : Type}

/-- `_inFlight` with all executions so far, the stack, and the calls that have returned: the key of each
and the execution whose promise it was given. -/
structure Process (κ α ε : Type) where
  flights : Flights κ (Phase α ε)
  stack : List (κ × ℕ)
  calls : List (κ × ℕ)

/-- A new `SingleFlight`. -/
def Process.init : Process κ α ε := ⟨.empty, [], []⟩

/-- What can happen: `do` is called, the innermost function comes to its first `await` or returns, it
throws, or the result of the `n`-th execution is there. -/
inductive Label (κ α ε : Type) where
  | do (key : κ)
  | suspends
  | throws (e : ε)
  | settles (n : ℕ) (o : Except ε α)

namespace Process

variable [DecidableEq κ] (s : Process κ α ε)

/-- The `n`-th execution awaits its result. -/
def awaits? (n : ℕ) : Option κ :=
  match s.flights.flights[n]? with
  | some (key, .awaiting) => some key
  | _ => none

/-- One step. -/
def step : Label κ α ε → Process κ α ε
  | .do key =>
    match s.flights.entry key with
    | some n => { s with calls := s.calls ++ [(key, n)] }
    | none =>
      { s with
        flights := s.flights.begin key .entered
        stack := (key, s.flights.flights.length) :: s.stack }
  | .suspends =>
    match s.stack with
    | [] => s
    | (key, n) :: stack =>
      { flights := (s.flights.move n .awaiting).enter key n
        stack
        calls := s.calls ++ [(key, n)] }
  | .throws e =>
    match s.stack with
    | [] => s
    | (key, n) :: stack =>
      -- the `finally` comes before `_inFlight.set`
      { flights := ((s.flights.move n (.settled (.error e))).leave key).enter key n
        stack
        calls := s.calls ++ [(key, n)] }
  | .settles n o =>
    match s.stack, s.awaits? n with
    | [], some key => { s with flights := (s.flights.move n (.settled o)).leave key }
    | _, _ => s

/-! ## 2. What single flight means -/

omit [DecidableEq κ] in
/-- The `n`-th execution is of `key` and has not settled. -/
def InFlight (key : κ) (n : ℕ) : Prop :=
  s.flights.At n key .entered ∨ s.flights.At n key .awaiting

omit [DecidableEq κ] in
/-- The outcome of the `n`-th execution, which is what a call gets that was given its promise. -/
def outcome? (n : ℕ) : Option (Except ε α) :=
  match s.flights.flights[n]? with
  | some (_, .settled o) => some o
  | _ => none

omit [DecidableEq κ] in
/-- At most one execution of a key is in flight, the map has none that has settled, and every call
was given the promise of an execution of its key. -/
structure Coalesced : Prop where
  one : ∀ key m n, s.InFlight key m → s.InFlight key n → m = n
  unsettled : ∀ key n, s.flights.entry key = some n → s.InFlight key n
  own : ∀ key n, (key, n) ∈ s.calls → ∃ p, s.flights.At n key p

/-- What a call does: it joins the execution that is in flight for its key, and if there is none it
starts one.  An execution that settles is no longer in the map. -/
def Law : Label κ α ε → Prop
  | .do key =>
    (∀ n, s.InFlight key n →
      (s.step (.do key)).calls = s.calls ++ [(key, n)] ∧ (s.step (.do key)).flights = s.flights) ∧
    ((∀ n, ¬ s.InFlight key n) →
      (s.step (.do key)).flights = s.flights.begin key .entered)
  | .settles n o => s.stack = [] → ∀ key, s.awaits? n = some key →
      (s.step (.settles n o)).flights.entry key = none ∧
        (s.step (.settles n o)).outcome? n = some o
  | _ => True

omit [DecidableEq κ] in
/-- No function throws before its first `await`, and none calls `do` for its own key until then. -/
def Plain : Label κ α ε → Prop
  | .do key => ∀ n, (key, n) ∉ s.stack
  | .throws _ => False
  | _ => True

/-! ## 3. The invariant -/

/-- The executions that have to be in the map. -/
def Held : Phase α ε → Prop
  | .awaiting => True
  | _ => False

omit [DecidableEq κ] in
/-- The map is sound; the stack has the executions that have been entered, each of another key, and
none of these keys is in the map. -/
structure Inv : Prop where
  sound : s.flights.Sound Held
  stack : ∀ key n, (key, n) ∈ s.stack ↔ s.flights.At n key .entered
  distinct : (s.stack.map Prod.fst).Nodup
  free : ∀ key n, (key, n) ∈ s.stack → s.flights.entry key = none
  own : ∀ key n, (key, n) ∈ s.calls → ∃ p, s.flights.At n key p

section Inv

variable {s : Process κ α ε} {key : κ} {n : ℕ}

omit [DecidableEq κ] in
theorem inv_init : (init : Process κ α ε).Inv where
  sound := Flights.sound_empty
  stack key n := by simp [init, Flights.empty, Flights.At]
  distinct := List.nodup_nil
  free key n h := by cases h
  own key n h := by cases h

omit [DecidableEq κ] in
theorem awaits?_eq_some : s.awaits? n = some key ↔ s.flights.At n key .awaiting := by
  unfold awaits? Flights.At
  split
  · rename_i key' h
    simp [h]
  · rename_i h
    constructor
    · intro hnone
      cases hnone
    · intro hsome
      exact absurd hsome (h key)

omit [DecidableEq κ] in
theorem Inv.entry (hs : s.Inv) (h : s.flights.entry key = some n) : s.flights.At n key .awaiting := by
  obtain ⟨p, hat, hheld⟩ := (hs.sound.entry_iff key n).mp h
  cases p with
  | awaiting => exact hat
  | entered => cases hheld
  | settled o => cases hheld

omit [DecidableEq κ] in
theorem Inv.coalesced (hs : s.Inv) : s.Coalesced where
  one key m n hm hn := by
    -- what has been entered is on the stack, and its key is not in the map
    have hmixed : ∀ m n, s.flights.At m key .entered → s.flights.At n key .awaiting → m = n := by
      intro m n hm hn
      have hfree := hs.free key m ((hs.stack key m).mpr hm)
      exact absurd trivial (hs.sound.not_held hfree hn)
    rcases hm with hm | hm <;> rcases hn with hn | hn
    · have hm' := (hs.stack key m).mpr hm
      have hn' := (hs.stack key n).mpr hn
      exact congrArg Prod.snd (List.inj_on_of_nodup_map hs.distinct hm' hn' rfl)
    · exact hmixed m n hm hn
    · exact (hmixed n m hn hm).symm
    · exact hs.sound.one hm trivial hn trivial
  unsettled key n h := .inr (hs.entry h)
  own := hs.own

/-- A call joins, or a function is entered. -/
theorem Inv.do (hs : s.Inv) (hplain : s.Plain (.do key)) : (s.step (.do key)).Inv := by
  simp only [step]
  split
  · rename_i n hn
    refine ⟨hs.sound, hs.stack, hs.distinct, hs.free, fun key' n' h => ?_⟩
    rcases List.mem_append.mp h with h | h
    · exact hs.own key' n' h
    · obtain ⟨rfl, rfl⟩ : key' = key ∧ n' = n := by simpa using h
      exact ⟨_, hs.entry hn⟩
  · rename_i hnone
    refine ⟨hs.sound.begin key (p := .entered) id, fun key' n' => ?_, ?_, ?_, fun key' n' h => ?_⟩
    · rw [List.mem_cons, hs.stack, Flights.at_begin, Prod.mk.injEq, or_comm]
      simp only [and_true, and_comm (a := n' = _)]
    · rw [List.map_cons, List.nodup_cons]
      refine ⟨fun h => ?_, hs.distinct⟩
      obtain ⟨⟨key', n'⟩, hmem, rfl⟩ := List.mem_map.mp h
      exact hplain n' hmem
    · intro key' n' h
      rcases List.mem_cons.mp h with h | h
      · obtain ⟨rfl, -⟩ := Prod.mk.inj h
        exact hnone
      · exact hs.free key' n' h
    · obtain ⟨p, hat⟩ := hs.own key' n' h
      exact ⟨p, Flights.at_begin.mpr (.inl hat)⟩

/-- A function comes to its first `await`. -/
theorem Inv.suspends (hs : s.Inv) : (s.step .suspends).Inv := by
  simp only [step]
  split
  · exact hs
  · rename_i key n stack hstack
    have hentered : s.flights.At n key .entered := (hs.stack key n).mp (by simp [hstack])
    have hfree : s.flights.entry key = none := hs.free key n (by simp [hstack])
    have hdistinct := hs.distinct
    rw [hstack, List.map_cons, List.nodup_cons] at hdistinct
    have hother : ∀ key' n', (key', n') ∈ stack → key' ≠ key := by
      rintro key' n' h rfl
      exact hdistinct.1 (List.mem_map.mpr ⟨(key', n'), h, rfl⟩)
    have howned : ∀ key' n', (∃ p, s.flights.At n' key' p) →
        ∃ p, (s.flights.move n .awaiting).At n' key' p := by
      rintro key' n' ⟨p, hat⟩
      by_cases hn : n = n'
      · subst hn
        exact ⟨_, Flights.at_move_self hat⟩
      · exact ⟨p, (Flights.at_move_of_ne hn).mpr hat⟩
    refine ⟨hs.sound.enter hentered trivial hfree, fun key' n' => ?_, hdistinct.2,
      fun key' n' h => ?_, fun key' n' h => ?_⟩
    · change _ ↔ (s.flights.move n .awaiting).At n' key' .entered
      by_cases hn : n = n'
      · subst hn
        constructor
        · intro h
          have hat := (hs.stack key' n).mp (by simp [hstack, h])
          exact absurd (hat.phase_unique hentered).1 (hother key' n h)
        · intro h
          have hmoved := Flights.at_move.mp h
          rw [if_pos rfl] at hmoved
          cases hmoved.1
      · rw [Flights.at_move_of_ne hn, ← hs.stack, hstack, List.mem_cons, Prod.mk.injEq]
        constructor
        · exact .inr
        · rintro (⟨-, rfl⟩ | h)
          · exact absurd rfl hn
          · exact h
    · change Function.update s.flights.entry key (some n) key' = none
      rw [Function.update_of_ne (hother key' n' h)]
      exact hs.free key' n' (by simp [hstack, h])
    · rcases List.mem_append.mp h with h | h
      · exact howned key' n' (hs.own key' n' h)
      · obtain ⟨rfl, rfl⟩ : key' = key ∧ n' = n := by simpa using h
        exact howned key' n' ⟨_, hentered⟩

/-- An execution settles. -/
theorem Inv.settles (hs : s.Inv) (n : ℕ) (o : Except ε α) : (s.step (.settles n o)).Inv := by
  simp only [step]
  split
  · rename_i key hstack hawaits
    have hat : s.flights.At n key .awaiting := awaits?_eq_some.mp hawaits
    refine ⟨hs.sound.leave hat trivial id, fun key' n' => ?_, hs.distinct, fun key' n' h => ?_,
      fun key' n' h => ?_⟩
    · change _ ↔ (s.flights.move n (.settled o)).At n' key' .entered
      by_cases hn : n = n'
      · subst hn
        constructor
        · intro h
          have hentered := (hs.stack key' n).mp h
          cases (hentered.phase_unique hat).2
        · intro h
          have hmoved := Flights.at_move.mp h
          rw [if_pos rfl] at hmoved
          cases hmoved.1
      · rw [Flights.at_move_of_ne hn]
        exact hs.stack key' n'
    · rw [hstack] at h
      cases h
    · obtain ⟨p, hat'⟩ := hs.own key' n' h
      by_cases hn : n = n'
      · subst hn
        exact ⟨_, Flights.at_move_self hat'⟩
      · exact ⟨p, (Flights.at_move_of_ne hn).mpr hat'⟩
  · exact hs

theorem Inv.step (hs : s.Inv) {l : Label κ α ε} (hl : s.Plain l) : (s.step l).Inv := by
  cases l with
  | «do» key => exact hs.do hl
  | suspends => exact hs.suspends
  | throws e => cases hl
  | settles n o => exact hs.settles n o

/-- What a call does under the invariant. -/
theorem Inv.law (hs : s.Inv) {l : Label κ α ε} (hl : s.Plain l) : s.Law l := by
  cases l with
  | «do» key =>
    constructor
    · intro n hn
      have hat : s.flights.At n key .awaiting := by
        rcases hn with hn | hn
        · exact absurd ((hs.stack key n).mpr hn) (hl n)
        · exact hn
      have hentry := (hs.sound.entry_iff key n).mpr ⟨_, hat, trivial⟩
      simp [Process.step, hentry]
    · intro hnone
      cases hentry : s.flights.entry key with
      | none => simp [Process.step, hentry]
      | some n => exact absurd (.inr (hs.entry hentry)) (hnone n)
  | suspends => trivial
  | throws e => trivial
  | settles n o =>
    intro hstack key hawaits
    have hat : s.flights.At n key .awaiting := awaits?_eq_some.mp hawaits
    have hstep : s.step (.settles n o) =
        { s with flights := (s.flights.move n (.settled o)).leave key } := by
      simp [Process.step, hstack, hawaits]
    rw [hstep]
    constructor
    · exact Function.update_self key none s.flights.entry
    · have hmoved : (s.flights.move n (.settled o)).flights[n]? = some (key, .settled o) :=
        Flights.at_move_self hat
      simp [outcome?, Flights.leave, hmoved]

end Inv

/-! ## 4. Every interleaving -/

/-- **Single flight**, in every run whose functions come to their first `await` without throwing and
without calling `do` for their own key: in every state at most one execution of a key is in flight,
and every call joins the one that is, or starts one. -/
theorem single_flight {ls : List (Label κ α ε)} (h : Along step Plain init ls) :
    (∀ l₁ l₂, ls = l₁ ++ l₂ → (run step init l₁).Coalesced) ∧ Along step Law init ls := by
  constructor
  · intro l₁ l₂ hls
    rw [hls, along_append] at h
    exact (run_inv (fun _ _ hs hl => hs.step hl) inv_init h.1).coalesced
  · exact Along.of_inv (I := Inv) (fun _ _ hs hl => ⟨hs.step hl, hs.law hl⟩) inv_init h

/-- A function that rejects later, a second call that joins, and a third that runs its own. -/
theorem single_flight_sample :
    let ls : List (Label String Unit String) :=
      [.do "a", .suspends, .do "a", .settles 0 (.error "timeout"), .do "a"]
    (∀ l₁ l₂, ls = l₁ ++ l₂ → (run step init l₁).Coalesced) ∧ Along step Law init ls := by
  refine single_flight ?_
  refine ⟨fun n => ?_, trivial, fun n => ?_, trivial, fun n => ?_, trivial⟩
  · exact List.not_mem_nil
  · exact List.not_mem_nil
  · exact List.not_mem_nil

/-- A function throws at once: its key stays in the map, and the next call is given its error. -/
theorem stays_in_flight :
    let ls : List (Label String Unit String) := [.do "a", .throws "no client", .do "a"]
    ¬ ((∀ l₁ l₂, ls = l₁ ++ l₂ → (run step init l₁).Coalesced) ∧ Along step Law init ls) := by
  rintro ls ⟨hcoalesced, -⟩
  have hstuck := (hcoalesced ls [] (List.append_nil _).symm).unsettled "a" 0 (by decide)
  revert hstuck
  simp [InFlight, Flights.At, ls, step, init, Flights.empty, Flights.begin, Flights.move,
    Flights.enter, Flights.leave]

end Process

end SmartDrop.Cache.SingleFlight
