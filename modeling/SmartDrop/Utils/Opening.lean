/-
# When the circuit breaker opens

The list `failures` of a closed breaker is pruned by time whenever a failure is recorded or counted,
and emptied by every success.  Beside the breaker a record is kept of how the calls have ended.  As
long as calls do not overlap, what the list says of any later moment is what the whole record says of
it (`Tracks`), so that a failure opens a closed breaker exactly when the record has
`failureThreshold` of them in the window (`opens_exactly`).

A half-open breaker is opened by its first failure, whatever the window holds.
-/
import SmartDrop.Utils.CircuitBreaker

namespace SmartDrop.Utils.Opening

open Conc

variable {ε : Type}

/-! ## 1. The record -/

/-- How the calls have ended and when, the latest first. -/
abbrev History (ε : Type) := List (ℕ × Outcome ε)

/-- When the dependency has failed since the last success; other errors are ignored. -/
def failedAt (c : CircuitBreaker ε) : History ε → List ℕ
  | [] => []
  | (_, .resolved) :: _ => []
  | (t, .rejected err) :: h => if c.isFailure err then t :: failedAt c h else failedAt c h

/-- The times that are at most `windowMs` before `now`. -/
def within (c : CircuitBreaker ε) (now : ℕ) (times : List ℕ) : ℕ :=
  times.countP fun t => now ≤ t + c.windowMs

/-- The breaker among its calls, and the record. -/
structure Observed (ε : Type) where
  system : System
  outcomes : History ε

/-- Before the first call. -/
def Observed.init : Observed ε := ⟨.init, []⟩

/-- One step; a call that settles is recorded. -/
def step (c : CircuitBreaker ε) (o : Observed ε) (l : Label ε) : Observed ε where
  system := o.system.step c l
  outcomes := match l with
    | .complete n out =>
      if o.system.calls[n]?.isSome then (o.system.now, out) :: o.outcomes else o.outcomes
    | _ => o.outcomes

/-- A call is made only when no other is in flight. -/
def NonOverlapping (o : Observed ε) : Label ε → Prop
  | .call _ => o.system.calls = []
  | _ => True

/-- A failure that is recorded now makes up the threshold, with those that the window holds. -/
def Reached (c : CircuitBreaker ε) (o : Observed ε) (err : ε) : Prop :=
  c.failureThreshold ≤
    within c o.system.now (failedAt c ((o.system.now, .rejected err) :: o.outcomes))

/-- What `recordFailure` does of a dependency failure: it opens the breaker exactly when `φ`. -/
def OpensWhen (φ : Observed ε → ε → Prop) (c : CircuitBreaker ε) (o : Observed ε) : Label ε → Prop
  | .complete n (.rejected err) =>
    o.system.calls[n]?.isSome → c.isFailure err = true →
      o.system.breaker.state ≠ .OPEN ∧
        ((step c o (.complete n (.rejected err))).system.breaker.state = .OPEN ↔ φ o err)
  | _ => True

/-- Either the breaker is half open, or the threshold is reached. -/
def HalfOpenOrReached (c : CircuitBreaker ε) (o : Observed ε) (err : ε) : Prop :=
  o.system.breaker.state = .HALF_OPEN ∨ Reached c o err

/-! ## 2. The list and the record -/

/-- From `now` on, a closed breaker counts in its list what the record says. -/
def Agrees (c : CircuitBreaker ε) (now : ℕ) (b : Breaker) (h : History ε) : Prop :=
  b.state = .CLOSED → ∀ t, now ≤ t → within c t b.failures = within c t (failedAt c h)

/-- At most one call is in flight, and the breaker is not open then. -/
structure Tracks (c : CircuitBreaker ε) (o : Observed ε) : Prop where
  agrees : Agrees c o.system.now o.system.breaker o.outcomes
  alone : o.system.calls.length ≤ 1
  admitted : o.system.calls ≠ [] → o.system.breaker.state ≠ .OPEN

section Agrees

variable {c : CircuitBreaker ε} {now : ℕ} {b : Breaker} {h : History ε}

theorem tracks_init : Tracks c (.init : Observed ε) where
  agrees _ _ _ := rfl
  alone := Nat.zero_le 1
  admitted h := absurd rfl h

theorem Agrees.later (ha : Agrees c now b h) (ms : ℕ) : Agrees c (now + ms) b h := by
  intro hclosed t ht
  exact ha hclosed t (Nat.le_trans (Nat.le_add_right now ms) ht)

/-- Pruning drops only what no later window holds. -/
theorem within_prune {t : ℕ} (ht : now ≤ t) (times : List ℕ) :
    within c t (times.filter fun u => now ≤ u + c.windowMs) = within c t times := by
  unfold within
  rw [List.countP_filter]
  refine List.countP_congr fun u _ => ?_
  simp only [Bool.and_eq_true, decide_eq_true_eq]
  omega

theorem Agrees.prune (ha : Agrees c now b h) : Agrees c now (pruneFailures c now b) h := by
  intro hclosed t ht
  rw [← ha hclosed t ht]
  exact within_prune ht b.failures

/-- Whether the cooldown is over makes no difference to a closed breaker. -/
theorem Agrees.move (ha : Agrees c now b h) : Agrees c now (moveToHalfOpenIfReady c now b) h := by
  rcases moveToHalfOpenIfReady_cases c now b with he | ⟨hopen, -, he⟩
  · rwa [he]
  · intro hclosed
    rw [he, transitionTo_of_ne (by simp [hopen])] at hclosed
    cases hclosed

theorem move_ne_open (hb : b.state ≠ .OPEN) : (moveToHalfOpenIfReady c now b).state ≠ .OPEN := by
  rcases moveToHalfOpenIfReady_cases c now b with he | ⟨hopen, -, -⟩
  · rwa [he]
  · exact absurd hopen hb

@[simp] theorem leave_failures (probing : Bool) (b : Breaker) :
    (leave probing b).failures = b.failures := by
  cases probing <;> rfl

theorem Agrees.leave (ha : Agrees c now b h) (probing : Bool) :
    Agrees c now (leave probing b) h := by
  intro hclosed t ht
  rw [leave_failures]
  exact ha (by rwa [leave_state] at hclosed) t ht

/-- After a success a closed breaker has no failures, and the record has none since. -/
theorem agrees_recordSuccess (t₀ : ℕ) :
    Agrees c now (recordSuccess c now b) ((t₀, .resolved) :: h) := by
  unfold recordSuccess
  intro hclosed t _
  cases hs : b.state with
  | OPEN => simp [hs] at hclosed
  | CLOSED => rfl
  | HALF_OPEN =>
    simp only [hs] at hclosed ⊢
    split at hclosed
    · rename_i hle
      rw [if_pos hle, transitionTo_of_ne (by simp)]
      rfl
    · simp at hclosed

/-- The breaker when a failure has been pushed and the list pruned. -/
def pushed (c : CircuitBreaker ε) (now : ℕ) (b : Breaker) : Breaker :=
  let p := pruneFailures c now { b with failures := b.failures ++ [now] }
  { p with failureCount := p.failures.length }

theorem recordFailure_of_closed (hclosed : b.state = .CLOSED) :
    recordFailure c now b =
      if c.failureThreshold ≤ (pushed c now b).failures.length then
        transitionTo now (pushed c now b) .OPEN
      else pushed c now b := by
  unfold recordFailure pushed
  rw [hclosed]

/-- **A failure of a closed breaker**: it opens it exactly when the record reaches the threshold, and
otherwise is one more in the list. -/
theorem recordFailure_closed (ha : Agrees c now b h) (hclosed : b.state = .CLOSED) {err : ε}
    (herr : c.isFailure err = true) :
    ((recordFailure c now b).state = .OPEN ↔
        c.failureThreshold ≤ within c now (failedAt c ((now, .rejected err) :: h))) ∧
      Agrees c now (recordFailure c now b) ((now, .rejected err) :: h) := by
  have hrecord : failedAt c ((now, .rejected err) :: h) = now :: failedAt c h := if_pos herr
  have hcons : ∀ t, within c t (b.failures ++ [now]) = within c t (now :: b.failures) := fun t =>
    (List.perm_append_singleton now b.failures).countP_eq _
  have hsame : ∀ t, now ≤ t →
      within c t (b.failures ++ [now]) = within c t (failedAt c ((now, .rejected err) :: h)) := by
    intro t ht
    rw [hcons, hrecord]
    have := ha hclosed t ht
    unfold within at this ⊢
    rw [List.countP_cons, List.countP_cons, this]
  -- what is left after pruning is what the window holds
  have hlength : (pushed c now b).failures.length =
      within c now (failedAt c ((now, .rejected err) :: h)) := by
    rw [← hsame now (Nat.le_refl now)]
    exact List.countP_eq_length_filter.symm
  have hstate : (pushed c now b).state = .CLOSED := hclosed
  rw [recordFailure_of_closed hclosed, hlength]
  split
  · rename_i hle
    rw [transitionTo_of_ne (by simp [hstate])]
    refine ⟨⟨fun _ => hle, fun _ => rfl⟩, ?_⟩
    intro hopen
    cases hopen
  · rename_i hlt
    constructor
    · simp [hstate, hlt]
    · intro _ t ht
      rw [← hsame t ht]
      exact within_prune ht _

/-- A failure of a half-open breaker opens it. -/
theorem recordFailure_halfOpen (hs : b.state = .HALF_OPEN) :
    (recordFailure c now b).state = .OPEN := by
  unfold recordFailure
  simp only [hs]
  rw [transitionTo_of_ne (by simp [hs])]

/-- A call that settles is recorded on both sides. -/
theorem Agrees.record (ha : Agrees c now b h) (hb : b.state ≠ .OPEN) (out : Outcome ε) :
    Agrees c now (record c now out b) ((now, out) :: h) := by
  cases out with
  | resolved => exact agrees_recordSuccess now
  | rejected err =>
    simp only [Utils.record]
    split
    · rename_i herr
      cases hs : b.state with
      | OPEN => exact absurd hs hb
      | CLOSED => exact (recordFailure_closed ha hs herr).2
      | HALF_OPEN =>
        intro hclosed
        rw [recordFailure_halfOpen hs] at hclosed
        cases hclosed
    · rename_i herr
      intro hclosed t ht
      rw [ha hclosed t ht, show failedAt c ((now, .rejected err) :: h) = failedAt c h from if_neg herr]

end Agrees

/-! ## 3. Runs -/

section Runs

variable {c : CircuitBreaker ε} {o : Observed ε}

theorem note_now (s : System) (b : Breaker) : (s.note b).now = s.now := by
  unfold System.note
  split <;> rfl

theorem arrive_now (s : System) (throwOnOpen : Option Bool) :
    (s.arrive c throwOnOpen).now = s.now := note_now s _

/-- A call arrives. -/
theorem Tracks.arrive (ht : Tracks c o) (hnone : o.system.calls = []) (throwOnOpen : Option Bool) :
    Tracks c (step c o (.call throwOnOpen)) := by
  have hmove := ht.agrees.move
  rcases enter_cases c throwOnOpen o.system.now o.system.breaker with
    ⟨hno, hb, -⟩ | ⟨hs, -, he⟩ | ⟨hs, he⟩
  · have hcalls : (o.system.arrive c throwOnOpen).calls = [] := by
      unfold System.arrive
      dsimp only
      split
      · rename_i probing hp
        exact absurd hp (hno probing)
      · exact (System.note_calls _ _).trans hnone
    have hbreaker : (o.system.arrive c throwOnOpen).breaker =
        moveToHalfOpenIfReady c o.system.now o.system.breaker := (System.note_breaker _ _).trans hb
    refine ⟨?_, ?_, fun hne => absurd hcalls hne⟩
    · simp only [step, System.step, hbreaker, arrive_now]
      exact hmove
    · simp only [step, System.step, hcalls]
      exact Nat.zero_le 1
  · have hbreaker : (o.system.arrive c throwOnOpen).breaker.state = .HALF_OPEN := by
      simp [System.arrive, he, hs]
    refine ⟨?_, ?_, fun _ => ?_⟩
    · intro hclosed
      rw [show (step c o (.call throwOnOpen)).system.breaker.state = .HALF_OPEN from hbreaker]
        at hclosed
      cases hclosed
    · simp [step, System.step, System.arrive, he, hnone]
    · simp [step, System.step, hbreaker]
  · have hbreaker : (o.system.arrive c throwOnOpen).breaker =
        moveToHalfOpenIfReady c o.system.now o.system.breaker := by
      simp [System.arrive, he]
    refine ⟨?_, ?_, fun _ => ?_⟩
    · simp only [step, System.step, hbreaker, arrive_now]
      exact hmove
    · simp [step, System.step, System.arrive, he, hnone]
    · simp [step, System.step, hbreaker, hs]

/-- A call settles, when it is the only one. -/
theorem Tracks.finish (ht : Tracks c o) (n : ℕ) (out : Outcome ε) :
    Tracks c (step c o (.complete n out)) := by
  cases hcall : o.system.calls[n]? with
  | none =>
    have hsame : step c o (.complete n out) = o := by
      simp [step, System.step, System.finish, hcall]
    rwa [hsame]
  | some call =>
    have hlt := (List.getElem?_eq_some_iff.mp hcall).1
    have hne : o.system.calls ≠ [] := List.ne_nil_of_length_pos (by omega)
    have hnone : o.system.calls.eraseIdx n = [] := by
      refine List.eq_nil_of_length_eq_zero ?_
      have := ht.alone
      rw [List.length_eraseIdx_of_lt hlt]
      omega
    have hbreaker : (step c o (.complete n out)).system.breaker =
        settle c call.probing o.system.now out o.system.breaker := by
      simp [step, System.step, System.finish, hcall]
    have hcalls : (step c o (.complete n out)).system.calls = [] := by
      simp [step, System.step, System.finish, hcall, hnone]
    have hnow : (step c o (.complete n out)).system.now = o.system.now := by
      simp [step, System.step, System.finish, hcall]
    have houtcomes : (step c o (.complete n out)).outcomes =
        (o.system.now, out) :: o.outcomes := by
      simp [step, hcall]
    refine ⟨?_, by simp [hcalls], fun h => absurd hcalls h⟩
    rw [hbreaker, hnow, houtcomes]
    exact (ht.agrees.record (ht.admitted hne) out).leave call.probing

/-- **One step** of calls that do not overlap. -/
theorem Tracks.step (ht : Tracks c o) {l : Label ε} (hl : NonOverlapping o l) :
    Tracks c (step c o l) := by
  cases l with
  | tick ms => exact ⟨ht.agrees.later ms, ht.alone, ht.admitted⟩
  | call throwOnOpen => exact ht.arrive hl throwOnOpen
  | complete n out => exact ht.finish n out
  | getState =>
    refine ⟨?_, ?_, fun h => ?_⟩
    · simp only [Opening.step, System.step, System.note_breaker]
      rw [note_now]
      exact ht.agrees.move
    · simp only [Opening.step, System.step, System.note_calls]
      exact ht.alone
    · simp only [Opening.step, System.step, System.note_calls, System.note_breaker] at h ⊢
      exact move_ne_open (ht.admitted h)
  | getFailureCount => exact ⟨ht.agrees.prune, ht.alone, ht.admitted⟩

/-- What a failure does that is recorded now. -/
theorem Tracks.opensWhen (ht : Tracks c o) (l : Label ε) :
    OpensWhen (HalfOpenOrReached c) c o l := by
  unfold OpensWhen
  split
  · rename_i n err
    intro hsome herr
    obtain ⟨call, hcall⟩ := Option.isSome_iff_exists.mp hsome
    have hlt := (List.getElem?_eq_some_iff.mp hcall).1
    have hadmitted := ht.admitted (List.ne_nil_of_length_pos (by omega))
    refine ⟨hadmitted, ?_⟩
    have hstate : (Opening.step c o (.complete n (.rejected err))).system.breaker.state =
        (recordFailure c o.system.now o.system.breaker).state := by
      simp [Opening.step, System.step, System.finish, hcall, settle, Utils.record, herr]
    rw [hstate]
    unfold HalfOpenOrReached Reached
    cases hs : o.system.breaker.state with
    | OPEN => exact absurd hs hadmitted
    | CLOSED => simpa using (recordFailure_closed ht.agrees hs herr).1
    | HALF_OPEN => simpa using recordFailure_halfOpen hs
  · trivial

/-- **When the breaker opens**, in every run of calls that do not overlap: a failure that is recorded
while the breaker is closed opens it exactly when at least `failureThreshold` failures, this one
counted, were at most `windowMs` ago and after the last success, and one that is recorded while it is
half open always does. -/
theorem opens_exactly (c : CircuitBreaker ε) (ls : List (Label ε))
    (h : Along (step c) NonOverlapping .init ls) :
    Along (step c) (OpensWhen (HalfOpenOrReached c) c) .init ls :=
  Along.of_inv (I := Tracks c) (fun _ l ht hl => ⟨ht.step hl, ht.opensWhen l⟩) tracks_init h

end Runs

/-! ## 4. A half-open breaker -/

instance (o : Observed ε) : (l : Label ε) → Decidable (NonOverlapping o l)
  | .call _ => inferInstanceAs (Decidable (o.system.calls = []))
  | .tick _ => isTrue trivial
  | .complete .. => isTrue trivial
  | .getState => isTrue trivial
  | .getFailureCount => isTrue trivial

instance (φ : Observed ε → ε → Prop) [∀ o err, Decidable (φ o err)] (c : CircuitBreaker ε)
    (o : Observed ε) : (l : Label ε) → Decidable (OpensWhen φ c o l)
  | .complete n (.rejected err) => inferInstanceAs (Decidable (o.system.calls[n]?.isSome →
      c.isFailure err = true → o.system.breaker.state ≠ .OPEN ∧
        ((step c o (.complete n (.rejected err))).system.breaker.state = .OPEN ↔ φ o err)))
  | .complete _ .resolved => isTrue trivial
  | .call _ => isTrue trivial
  | .tick _ => isTrue trivial
  | .getState => isTrue trivial
  | .getFailureCount => isTrue trivial

instance (c : CircuitBreaker ε) (o : Observed ε) (err : ε) : Decidable (Reached c o err) :=
  inferInstanceAs (Decidable (_ ≤ _))

/-- The breaker of a source of prices, with the default options. -/
def sample : CircuitBreaker Unit :=
  .new "stellar_dex" ⟨none, none, none, none, none, false, fun _ => true⟩

/-- A call that fails. -/
def failing : List (Label Unit) := [.call none, .complete 0 (.rejected ())]

/-- Three failures open the breaker; the next call is made long after, and fails as well. -/
def reopened : List (Label Unit) := failing ++ failing ++ failing ++ .tick 100000 :: failing

theorem opens_exactly_sample :
    Along (step sample) (OpensWhen (HalfOpenOrReached sample) sample) .init reopened :=
  opens_exactly sample reopened (by decide +kernel)

/-- The fourth failure opens the breaker, although it is the only one in the window. -/
theorem reopens_early :
    Along (step sample) NonOverlapping .init reopened ∧
      ¬ Along (step sample) (OpensWhen (Reached sample) sample) .init reopened := by
  decide +kernel

end SmartDrop.Utils.Opening
