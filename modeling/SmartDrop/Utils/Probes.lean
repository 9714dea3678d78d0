/-
# Which calls decide a half-open period

A breaker that is half open is to be closed by the successes of its probes and opened again by
the failure of one.  `recordSuccess` and `recordFailure` do not ask which call they record: a
call that was admitted before the period, and settles in it, is counted like a probe of it.

In every run in which that does not happen (`Timely`), the breaker closes only after enough
successes of probes of the same period, opens again only by the failure of such a probe, and
admits the first call of every period as a probe (`probes_decide`).  `straggler_closes` is a run
in which a call from before the failure closes the breaker with no probe having succeeded.
-/
import SmartDrop.Utils.CircuitBreaker

namespace SmartDrop.Utils

open Conc

/-! ## 1. What a settled call does to the state -/

section Record

variable {ε : Type} {c : CircuitBreaker ε} {now : ℕ} {b : Breaker}

/-- The breaker takes note of the outcome. -/
def Counts (c : CircuitBreaker ε) : Outcome ε → Prop
  | .resolved => True
  | .rejected err => c.isFailure err

instance (c : CircuitBreaker ε) (o : Outcome ε) : Decidable (Counts c o) :=
  match o with
  | .resolved => isTrue trivial
  | .rejected err => inferInstanceAs (Decidable (c.isFailure err = true))

theorem record_of_not_counts {o : Outcome ε} (h : ¬ Counts c o) : record c now o b = b := by
  cases o with
  | resolved => exact absurd trivial h
  | rejected err => exact if_neg h

/-- A success in a half-open period closes the breaker if it is the last one needed. -/
theorem record_resolved (h : b.state = .HALF_OPEN) :
    ((record c now .resolved b).state = .CLOSED ∧ c.successThreshold ≤ b.successCount + 1) ∨
    ((record c now .resolved b).state = .HALF_OPEN ∧
      (record c now .resolved b).successCount = b.successCount + 1) := by
  simp only [record, recordSuccess, h]
  split
  · rename_i hle
    exact .inl ⟨by simp [transitionTo], hle⟩
  · exact .inr ⟨rfl, rfl⟩

/-- A failure in a half-open period opens the breaker. -/
theorem record_rejected {err : ε} (hf : c.isFailure err = true) (h : b.state = .HALF_OPEN) :
    (record c now (.rejected err) b).state = .OPEN := by
  simp [record, hf, recordFailure, h, transitionTo]

/-- No outcome begins a half-open period. -/
theorem record_state_ne (o : Outcome ε) (h : b.state ≠ .HALF_OPEN) :
    (record c now o b).state ≠ .HALF_OPEN := by
  have hopen : (transitionTo now b .OPEN).state = .OPEN := by
    by_cases hs : b.state = .OPEN <;> simp [transitionTo, hs]
  by_cases hc : Counts c o
  · cases hs : b.state with
    | HALF_OPEN => exact absurd hs h
    | OPEN =>
      cases o with
      | resolved => simp [record, recordSuccess, hs]
      | rejected err =>
        have hf : c.isFailure err = true := hc
        simp [record, hf, recordFailure, hs]
    | CLOSED =>
      cases o with
      | resolved => simp [record, recordSuccess, hs]
      | rejected err =>
        have hf : c.isFailure err = true := hc
        simp only [record, hf, if_true, recordFailure, hs]
        split <;> simp [transitionTo, pruneFailures]
  · rwa [record_of_not_counts hc]

end Record

/-! ## 2. The law and its condition -/

namespace System

variable {ε : Type} {c : CircuitBreaker ε} {s : System}

/-- One step decides a half-open period as it should. -/
structure Decides (c : CircuitBreaker ε) (s : System) (l : Label ε) : Prop where
  closes : s.breaker.state = .HALF_OPEN → (s.step c l).breaker.state = .CLOSED →
    c.successThreshold ≤ (s.step c l).successes
  reopens : s.breaker.state = .HALF_OPEN → (s.step c l).breaker.state = .OPEN →
    ∃ n err call, l = .complete n (.rejected err) ∧ c.isFailure err = true ∧
      s.calls[n]? = some call ∧ s.Own call
  first : ∀ throwOnOpen, l = .call throwOnOpen → (s.step c l).breaker.state = .HALF_OPEN →
    (s.step c l).arrived = 1 → (enter c throwOnOpen s.now s.breaker).1 = .invoked true

/-- A call that settles in a half-open period, with an outcome that the breaker takes note of,
is a probe of that period. -/
def Timely (c : CircuitBreaker ε) (s : System) : Label ε → Prop
  | .complete n o => s.breaker.state = .HALF_OPEN → Counts c o →
    ∀ call ∈ s.calls[n]?, s.Own call
  | _ => True

instance (c : CircuitBreaker ε) (s : System) (l : Label ε) : Decidable (s.Timely c l) := by
  cases l with
  | complete n o => exact inferInstanceAs (Decidable (_ → _ → ∀ call ∈ s.calls[n]?, s.Own call))
  | _ => exact instDecidableTrue

/-- What timely runs keep: the breaker counts the successes of the probes of this period, and
there is room for a probe whenever a period may begin. -/
structure Accounted (c : CircuitBreaker ε) (s : System) : Prop extends s.Invariant c where
  tally : s.breaker.state = .HALF_OPEN → s.breaker.successCount = s.successes
  room : (s.breaker.state = .HALF_OPEN → s.arrived = 0) → s.probes < c.trialCount

theorem accounted_init : Accounted c .init where
  toInvariant := invariant_init
  tally h := by cases h
  room _ := c.one_le_trialCount

/-! ## 3. One step -/

/-- Only an open breaker can begin a half-open period by being asked for it. -/
theorem move_of_halfOpen {b : Breaker} {now : ℕ} (h : b.state = .HALF_OPEN) :
    moveToHalfOpenIfReady c now b = b := by
  rcases moveToHalfOpenIfReady_cases c now b with he | ⟨hopen, -⟩
  · exact he
  · rw [h] at hopen
    cases hopen

/-- A period begins with no success. -/
theorem move_begins {b : Breaker} {now : ℕ} (h : b.state ≠ .HALF_OPEN)
    (hbegins : (moveToHalfOpenIfReady c now b).state = .HALF_OPEN) :
    (moveToHalfOpenIfReady c now b).successCount = 0 := by
  rcases moveToHalfOpenIfReady_cases c now b with he | ⟨-, -, he⟩
  · rw [he] at hbegins
    exact absurd hbegins h
  · rw [he, transitionTo_of_ne h]

theorem note_of_halfOpen {b : Breaker} (h : s.breaker.state = .HALF_OPEN) :
    s.note b = { s with breaker := b } := if_neg fun hn => hn.1 h

theorem note_of_begins {b : Breaker} (h : s.breaker.state ≠ .HALF_OPEN)
    (hb : b.state = .HALF_OPEN) :
    s.note b = { s with breaker := b, period := s.period + 1, arrived := 0, successes := 0 } :=
  if_pos ⟨h, hb⟩

/-- Admitting a call changes neither the state nor the count of successes. -/
theorem enter_state (c : CircuitBreaker ε) (throwOnOpen : Option Bool) (now : ℕ) (b : Breaker) :
    (enter c throwOnOpen now b).2.state = (moveToHalfOpenIfReady c now b).state ∧
    (enter c throwOnOpen now b).2.successCount =
      (moveToHalfOpenIfReady c now b).successCount := by
  rcases enter_cases c throwOnOpen now b with ⟨-, he, -⟩ | ⟨-, -, he⟩ | ⟨-, he⟩ <;> simp [he]

/-- After the breaker was asked for its state, the successes agree with the record. -/
theorem Accounted.tally_note (h : s.Accounted c) {b : Breaker}
    (hstate : b.state = (moveToHalfOpenIfReady c s.now s.breaker).state)
    (hcount : b.successCount = (moveToHalfOpenIfReady c s.now s.breaker).successCount)
    (hb : b.state = .HALF_OPEN) : b.successCount = (s.note b).successes := by
  by_cases hs : s.breaker.state = .HALF_OPEN
  · rw [note_of_halfOpen hs, hcount, move_of_halfOpen hs]
    exact h.tally hs
  · rw [note_of_begins hs hb, hcount]
    exact move_begins hs (hstate ▸ hb)

/-- A breaker that is not half open after it was asked for its state was not before. -/
theorem ne_halfOpen_of_move {b : Breaker} {now : ℕ}
    (h : (moveToHalfOpenIfReady c now b).state ≠ .HALF_OPEN) : b.state ≠ .HALF_OPEN := by
  intro hs
  rw [move_of_halfOpen hs] at h
  exact h hs

/-- A call arrives. -/
theorem Accounted.arrive (h : s.Accounted c) (throwOnOpen : Option Bool) :
    (s.arrive c throwOnOpen).Accounted c := by
  obtain ⟨hstate, hcount⟩ := enter_state c throwOnOpen s.now s.breaker
  have hbreaker : (s.arrive c throwOnOpen).breaker = (enter c throwOnOpen s.now s.breaker).2 :=
    note_breaker _ _
  refine ⟨h.toInvariant.arrive throwOnOpen, fun hhalf => ?_, fun hroom => ?_⟩
  · rw [hbreaker] at hhalf ⊢
    exact h.tally_note hstate hcount hhalf
  · -- the period that a call has arrived in is past: the call is no probe
    have hmove : (moveToHalfOpenIfReady c s.now s.breaker).state ≠ .HALF_OPEN := by
      intro hs
      have hzero := hroom (by rw [hbreaker, hstate, hs])
      exact absurd hzero (Nat.succ_ne_zero _)
    have hbefore : s.probes < c.trialCount :=
      h.room fun hs => absurd hs (ne_halfOpen_of_move hmove)
    rcases enter_cases c throwOnOpen s.now s.breaker with ⟨hno, -⟩ | ⟨hs, -⟩ | ⟨-, he⟩
    · have hcalls : (s.arrive c throwOnOpen).calls = s.calls := by
        unfold System.arrive
        dsimp only
        split
        · rename_i probing hp
          exact absurd hp (hno probing)
        · exact note_calls _ _
      rw [probes, hcalls]
      exact hbefore
    · exact absurd hs hmove
    · have hprobes : (s.arrive c throwOnOpen).probes = s.probes := by
        simp [System.arrive, he, probes]
      rw [hprobes]
      exact hbefore

/-- The first call of a period finds room for a probe. -/
theorem Accounted.first (h : s.Accounted c) {throwOnOpen : Option Bool}
    (hhalf : (s.arrive c throwOnOpen).breaker.state = .HALF_OPEN)
    (hone : (s.arrive c throwOnOpen).arrived = 1) :
    (enter c throwOnOpen s.now s.breaker).1 = .invoked true := by
  obtain ⟨hstate, -⟩ := enter_state c throwOnOpen s.now s.breaker
  have hmove : (moveToHalfOpenIfReady c s.now s.breaker).state = .HALF_OPEN := by
    rw [← hstate, ← hhalf]
    exact congrArg Breaker.state (note_breaker _ _).symm
  have hroom : s.probes < c.trialCount := by
    refine h.room fun hs => ?_
    have harrived : (s.arrive c throwOnOpen).arrived = s.arrived + 1 := by
      simp only [System.arrive, note_of_halfOpen hs]
    omega
  rcases enter_cases c throwOnOpen s.now s.breaker with ⟨-, -, hfull⟩ | ⟨-, -, he⟩ | ⟨hs, -⟩
  · have hle := hfull hmove
    have hcounted := h.counted
    omega
  · rw [he]
  · rw [hmove] at hs
    cases hs

/-- A step that stays in a half-open period decides nothing. -/
theorem decides_of_keeps {l : Label ε}
    (hkeep : s.breaker.state = .HALF_OPEN → (s.step c l).breaker.state = .HALF_OPEN)
    (hfirst : ∀ throwOnOpen, l = .call throwOnOpen →
      (s.step c l).breaker.state = .HALF_OPEN → (s.step c l).arrived = 1 →
      (enter c throwOnOpen s.now s.breaker).1 = .invoked true) : s.Decides c l := by
  constructor
  · intro hs hc
    rw [hkeep hs] at hc
    cases hc
  · intro hs hc
    rw [hkeep hs] at hc
    cases hc
  · exact hfirst

/-- A call settles in time. -/
theorem Accounted.finish (h : s.Accounted c) {n : ℕ} {o : Outcome ε}
    (htimely : s.Timely c (.complete n o)) :
    (s.finish c n o).Accounted c ∧ s.Decides c (.complete n o) := by
  have hinv := h.toInvariant.finish n o
  have hstep : s.step c (.complete n o) = s.finish c n o := rfl
  cases hn : s.calls[n]? with
  | none =>
    have hsame : s.finish c n o = s := by simp [System.finish, hn]
    refine ⟨by rwa [hsame], decides_of_keeps (fun hs => ?_) fun _ hl => by cases hl⟩
    rw [hstep, hsame, hs]
  | some call =>
    have herase := countP_eraseIdx hn
    have hprobes : (s.finish c n o).probes = (s.calls.eraseIdx n).countP Call.probing := by
      simp [System.finish, hn, probes]
    have hstate : (s.finish c n o).breaker.state = (record c s.now o s.breaker).state := by
      simp [System.finish, hn, settle]
    have hcount : (s.finish c n o).breaker.successCount =
        (record c s.now o s.breaker).successCount := by
      simp only [System.finish, hn, settle]
      cases call.probing <;> rfl
    by_cases hs : s.breaker.state = .HALF_OPEN
    · by_cases hc : Counts c o
      · -- a probe of this period: there is room again
        have hown : s.Own call := htimely hs hc call hn
        have hroom : (s.finish c n o).probes < c.trialCount := by
          have hbound := h.bounded
          rw [hown.2.1, if_pos rfl] at herase
          omega
        cases o with
        | rejected err =>
          have hopen : (record c s.now (.rejected err) s.breaker).state = .OPEN :=
            record_rejected hc hs
          refine ⟨⟨hinv, fun hh => ?_, fun _ => hroom⟩, fun _ hh => ?_, fun _ _ => ?_,
            fun _ hl => by cases hl⟩
          · rw [hstate, hopen] at hh
            cases hh
          · rw [hstep, hstate, hopen] at hh
            cases hh
          · exact ⟨n, err, call, rfl, hc, hn, hown⟩
        | resolved =>
          have hsuccesses : (s.finish c n .resolved).successes = s.successes + 1 := by
            simp [System.finish, hn, hown]
          have htally := h.tally hs
          have hrecord : ((record c s.now .resolved s.breaker).state = .CLOSED ∧ _) ∨
              ((record c s.now .resolved s.breaker).state = .HALF_OPEN ∧ _) := record_resolved hs
          rcases hrecord with ⟨hcl, hle⟩ | ⟨hh, hsc⟩
          · refine ⟨⟨hinv, fun hh => ?_, fun _ => hroom⟩, fun _ _ => ?_, fun _ hh => ?_,
              fun _ hl => by cases hl⟩
            · rw [hstate, hcl] at hh
              cases hh
            · rw [hstep, hsuccesses, ← htally]
              exact hle
            · rw [hstep, hstate, hcl] at hh
              cases hh
          · refine ⟨⟨hinv, fun _ => ?_, fun _ => hroom⟩,
              decides_of_keeps (fun _ => hstate.trans hh) fun _ hl => by cases hl⟩
            rw [hcount, hsc, hsuccesses, htally]
      · -- an ignored error: only the calls in flight change
        have hrecord : record c s.now o s.breaker = s.breaker := record_of_not_counts hc
        rw [hrecord] at hstate hcount
        have hsuccesses : (s.finish c n o).successes = s.successes := by
          cases o with
          | resolved => exact absurd trivial hc
          | rejected err => simp [System.finish, hn]
        have harrived : (s.finish c n o).arrived = s.arrived := by simp [System.finish, hn]
        refine ⟨⟨hinv, fun _ => ?_, fun hroom => ?_⟩,
          decides_of_keeps (fun _ => hstate.trans hs) fun _ hl => by cases hl⟩
        · rw [hcount, hsuccesses]
          exact h.tally hs
        · have hlt := h.room fun hh => harrived ▸ hroom (hstate.trans hh)
          omega
    · -- outside of a half-open period nothing begins one
      have hne : (record c s.now o s.breaker).state ≠ .HALF_OPEN := record_state_ne o hs
      have hlt := h.room fun hh => absurd hh hs
      refine ⟨⟨hinv, fun hh => ?_, fun _ => by omega⟩, fun hh => absurd hh hs,
        fun hh => absurd hh hs, fun _ hl => by cases hl⟩
      rw [hstate] at hh
      exact absurd hh hne

/-- **One step** in which no call settles out of its time. -/
theorem Accounted.step (h : s.Accounted c) {l : Label ε} (htimely : s.Timely c l) :
    (s.step c l).Accounted c ∧ s.Decides c l := by
  cases l with
  | tick ms =>
    exact ⟨⟨h.toInvariant.step (.tick ms), h.tally, h.room⟩,
      decides_of_keeps id fun _ hl => by cases hl⟩
  | call throwOnOpen =>
    refine ⟨h.arrive throwOnOpen, decides_of_keeps (fun hs => ?_) ?_⟩
    · have hb : (s.arrive c throwOnOpen).breaker = (enter c throwOnOpen s.now s.breaker).2 :=
        note_breaker _ _
      rw [System.step, hb, (enter_state c throwOnOpen s.now s.breaker).1, move_of_halfOpen hs, hs]
    · rintro _ hl hhalf hone
      cases hl
      exact h.first hhalf hone
  | complete n o => exact h.finish htimely
  | getState =>
    have hb : (s.step c .getState).breaker = moveToHalfOpenIfReady c s.now s.breaker :=
      note_breaker _ _
    have hprobes : (s.step c .getState).probes = s.probes := by
      simp only [probes, System.step, note_calls]
    have hkeep : s.breaker.state = .HALF_OPEN →
        (s.step c .getState).breaker.state = .HALF_OPEN := by
      intro hs
      rw [hb, move_of_halfOpen hs, hs]
    refine ⟨⟨h.toInvariant.step .getState, fun hhalf => ?_, fun hroom => ?_⟩,
      decides_of_keeps hkeep fun _ hl => by cases hl⟩
    · rw [hb] at hhalf ⊢
      exact h.tally_note rfl rfl hhalf
    · rw [hprobes]
      refine h.room fun hs => ?_
      have hzero := hroom (hkeep hs)
      rwa [System.step, note_of_halfOpen hs] at hzero
  | getFailureCount =>
    exact ⟨⟨h.toInvariant.step .getFailureCount, h.tally, h.room⟩,
      decides_of_keeps id fun _ hl => by cases hl⟩

end System

/-! ## 4. Every run -/

/-- **Probes decide.**  In every run in which only probes of the current period settle while the
breaker is half open (errors that it ignores apart), each half-open period is closed by enough
successes of its own probes, reopened only by the failure of one, and its first call is a probe. -/
theorem probes_decide {ε : Type} (c : CircuitBreaker ε) (ls : List (Label ε))
    (htimely : Along (System.step c) (System.Timely c) .init ls) :
    Along (System.step c) (System.Decides c) .init ls :=
  Along.of_inv (fun _ _ h hl => h.step hl) System.accounted_init htimely

/-- A breaker that opens at the first failure. -/
def cautious : CircuitBreaker Unit := .new "horizon"
  { failureThreshold := some 1
    successThreshold := none
    timeoutMs := none
    windowMs := none
    trialCount := none
    throwOnOpen := false
    isFailure := fun _ => true }

/-- A breaker that recovers: a call fails, and after the cooldown a probe succeeds. -/
theorem probes_decide_sample :
    let ls : List (Label Unit) :=
      [.call none, .complete 0 (.rejected ()), .tick 30000, .call none, .complete 0 .resolved]
    Along (System.step cautious) (System.Timely cautious) .init ls ∧
      Along (System.step cautious) (System.Decides cautious) .init ls := by
  have htimely : Along (System.step cautious) (System.Timely cautious) .init
      [.call none, .complete 0 (.rejected ()), .tick 30000, .call none, .complete 0 .resolved] := by
    decide
  exact ⟨htimely, probes_decide cautious _ htimely⟩

/-- Two calls are in flight when one of them fails; the other one succeeds while a probe is in
flight after the cooldown, and closes the breaker. -/
def straggler : List (Label Unit) :=
  [.call none, .call none, .complete 1 (.rejected ()), .tick 30000, .call none, .complete 0 .resolved]

/-- **A straggler closes the breaker**: no probe of the half-open period has succeeded. -/
theorem straggler_closes :
    ¬ Along (System.step cautious) (System.Decides cautious) .init straggler := by
  intro h
  have hlast := (along_append _ (straggler.take 5) [.complete 0 .resolved]).mp h
  have hcloses := hlast.2.1.closes (by decide) (by decide)
  exact absurd hcloses (by decide)

end SmartDrop.Utils
