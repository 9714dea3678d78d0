/-
# When the job is started and stopped

What a `makeLeaderAwareJob` calls of the job that it wraps, under any order of `start` and `stop`,
changes of the leadership and firings of the timers.  The calls should alternate, and after a check
the job should run exactly when the instance is the leader.

Three things stand in the way.  `onLeadershipLost` sets `leadershipLostWhileRunning`, and the branch
that starts the job again does not clear it: the check of another start finds the job started and the
flag set, and starts the job a second time.  A check acts on what it remembers itself, and the check
of another start may have acted in the meantime.  And while `stop` awaits the promise of the job's
`stop`, `underlyingStarted` says that the job runs.  `discipline_iff` says at which states a check or
the end of a `stop` goes wrong because of them; a wrapper that is started only when nothing of an
earlier start is left goes wrong at none (`inOrder_of_orderly`).

The methods that `start` puts on the election have no caller and are left out.
-/
import SmartDrop.Leader.Jobs
import Mathlib.Data.List.Chain

namespace SmartDrop.Leader

open Conc

/-! ## 1. The calls of the job -/

/-- A call of the job that is wrapped. -/
inductive JobCall where
  | start
  | stop
deriving DecidableEq

/-- What happens to a wrapper.  A `stop` goes on when the renew loop has stopped, or rejects when that
fails; the job's `stop` may return a promise, which is kept or not. -/
inductive JobEvent where
  | start
  | stop
  | released (promise : Bool)
  | notReleased
  | settle (kept : Bool)
  | leadership (isLeader : Bool)
  | interval (k : ℕ)
  | timeout (k : ℕ)
deriving DecidableEq

namespace Wrapper

/-- The calls of `onLeadershipAcquired`. -/
def acquiredCalls (w : Wrapper) : List JobCall :=
  if w.manualStop then []
  else if !w.underlyingStarted then [.start]
  else if w.leadershipLostWhileRunning then [.start]
  else []

/-- The calls of `onLeadershipLost`, and of `stop`. -/
def stopCalls (w : Wrapper) : List JobCall := if w.underlyingStarted then [.stop] else []

/-- The calls of `checkLeader`. -/
def checkCalls (w : Wrapper) (check : Check) (isLeaderNow : Bool) : List JobCall :=
  if isLeaderNow && !check.wasLeader then w.acquiredCalls
  else if !isLeaderNow && check.wasLeader then w.stopCalls
  else []

/-- The check that an event makes, if its timer is set. -/
def checkedBy (w : Wrapper) : JobEvent → Option Check
  | .interval k => w.checks[k]?.filter Check.interval
  | .timeout k => w.checks[k]?.filter Check.timeout
  | _ => none

/-- The promise of the job's `stop` is broken, and `stop` rejects. -/
def reject (w : Wrapper) : Wrapper := { w with stopping := w.stopping - 1 }

end Wrapper

/-- A wrapper, the leadership of its instance, how many calls of `stop` await the renew loop, and the
calls of the job so far. -/
structure Supervised where
  wrapper : Wrapper
  leader : Bool
  releasing : ℕ
  calls : List JobCall

namespace Supervised

/-- A wrapper that was just made. -/
def init : Supervised := ⟨.init, false, 0, []⟩

/-- The calls that an event makes. -/
def callsOf (c : Supervised) : JobEvent → List JobCall
  | .released _ => if c.releasing = 0 then [] else c.wrapper.stopCalls
  | e =>
    match c.wrapper.checkedBy e with
    | none => []
    | some check => c.wrapper.checkCalls check c.leader

/-- One event, apart from the calls. -/
def advance (c : Supervised) : JobEvent → Supervised
  | .start => { c with wrapper := c.wrapper.start }
  | .stop => { c with wrapper := c.wrapper.beginStop, releasing := c.releasing + 1 }
  | .released promise =>
    if c.releasing = 0 then c
    else { c with wrapper := c.wrapper.finishStop promise, releasing := c.releasing - 1 }
  | .notReleased => { c with releasing := c.releasing - 1 }
  | .settle kept => { c with wrapper := if kept then c.wrapper.settle else c.wrapper.reject }
  | .leadership isLeader => { c with leader := isLeader }
  | .interval k => { c with wrapper := c.wrapper.onInterval k c.leader }
  | .timeout k => { c with wrapper := c.wrapper.onTimeout k c.leader }

/-- One event. -/
def step (c : Supervised) (e : JobEvent) : Supervised :=
  { c.advance e with calls := c.calls ++ c.callsOf e }

/-! ## 2. What is promised, and when it is kept -/

/-- The job was started and not stopped since. -/
def running (c : Supervised) : Bool := c.calls.getLast? = some .start

/-- The calls alternate, and the first one is a start. -/
def Alternates (calls : List JobCall) : Prop := List.IsChain (· ≠ ·) (.stop :: calls)

instance (calls : List JobCall) : Decidable (Alternates calls) :=
  inferInstanceAs (Decidable (List.IsChain _ _))

/-- **What an event should keep**: the calls alternate, and if it makes a check of a wrapper that is not
stopped, the job runs exactly when the instance is the leader. -/
def Keeps (c : Supervised) (e : JobEvent) : Prop :=
  Alternates (c.step e).calls ∧
    ((c.wrapper.checkedBy e).isSome = true → c.wrapper.manualStop = false →
      (c.step e).running = (c.step e).leader)

instance (c : Supervised) (e : JobEvent) : Decidable (c.Keeps e) := inferInstanceAs (Decidable (_ ∧ _))

/-- A check can go by what it finds: if it sees no change, the job runs exactly when it remembers a
leader; if the leadership is new to it, exactly when `underlyingStarted` is set and
`leadershipLostWhileRunning` is not; and if the leadership is lost, exactly when `underlyingStarted` is
set.  The check of a stopped wrapper must not stop a job twice. -/
def Informed (c : Supervised) (check : Check) : Prop :=
  if c.wrapper.manualStop then
    c.leader = false → check.wasLeader = true → c.wrapper.underlyingStarted = true → c.running = true
  else if c.leader = check.wasLeader then c.running = check.wasLeader
  else if c.leader then
    c.running = (c.wrapper.underlyingStarted && !c.wrapper.leadershipLostWhileRunning)
  else c.running = c.wrapper.underlyingStarted

/-- A check is informed, and a `stop` that goes on stops no job twice. -/
def InOrder (c : Supervised) : JobEvent → Prop
  | .released _ => c.releasing ≠ 0 → c.wrapper.underlyingStarted = true → c.running = true
  | e => ∀ check ∈ c.wrapper.checkedBy e, c.Informed check

end Supervised

/-! ## 3. One event -/

namespace Wrapper

variable {w : Wrapper} {check : Check} {isLeaderNow : Bool} {k : ℕ} {e : JobEvent}

/-- `checkLeader` without what it remembers. -/
def afterCheck (w : Wrapper) (check : Check) (isLeaderNow : Bool) : Wrapper :=
  if isLeaderNow && !check.wasLeader then w.onLeadershipAcquired
  else if !isLeaderNow && check.wasLeader then w.onLeadershipLost
  else w

theorem checkLeader_eq (h : w.checks[k]? = some check) :
    w.checkLeader k isLeaderNow = { w.afterCheck check isLeaderNow with
      checks := (w.afterCheck check isLeaderNow).checks.set k { check with wasLeader := isLeaderNow } } := by
  rw [checkLeader, h]
  rfl

/-- **The calls of a check** are what they make of the job: none, a start or a stop. -/
theorem checkCalls_cases (w : Wrapper) (check : Check) (isLeaderNow : Bool) :
    (w.checkCalls check isLeaderNow = [] ∧ (w.afterCheck check isLeaderNow).jobStarted = w.jobStarted) ∨
    (w.checkCalls check isLeaderNow = [.start] ∧ (w.afterCheck check isLeaderNow).jobStarted = true) ∨
    (w.checkCalls check isLeaderNow = [.stop] ∧ (w.afterCheck check isLeaderNow).jobStarted = false) := by
  rw [checkCalls, afterCheck, acquiredCalls, stopCalls, onLeadershipAcquired, onLeadershipLost]
  split
  · split
    · exact .inl ⟨rfl, rfl⟩
    · split
      · exact .inr (.inl ⟨rfl, rfl⟩)
      · split
        · exact .inr (.inl ⟨rfl, rfl⟩)
        · exact .inl ⟨rfl, rfl⟩
  · split
    · split
      · exact .inr (.inr ⟨rfl, rfl⟩)
      · exact .inl ⟨rfl, rfl⟩
    · exact .inl ⟨rfl, rfl⟩

/-- What a check makes of the job does not depend on what else the checks remember. -/
theorem jobStarted_afterCheck (checks : List Check) (timeout : Bool) :
    ({ w with checks }.afterCheck { check with timeout } isLeaderNow).jobStarted =
      (w.afterCheck check isLeaderNow).jobStarted := by
  simp only [afterCheck, onLeadershipAcquired, onLeadershipLost]
  split_ifs <;> rfl

theorem getD_map (check : Option Check) (set : Check → Bool) :
    (check.map set).getD false = (check.filter set).isSome := by
  cases check with
  | none => rfl
  | some check => cases h : set check <;> simp [h]

/-- **The timers**: one that is not set does nothing, one that is set makes its check. -/
theorem jobStarted_onInterval (w : Wrapper) (k : ℕ) (isLeaderNow : Bool) :
    (w.onInterval k isLeaderNow).jobStarted = match w.checkedBy (.interval k) with
      | none => w.jobStarted
      | some check => (w.afterCheck check isLeaderNow).jobStarted := by
  rw [onInterval, getD_map, checkedBy]
  cases h : w.checks[k]?.filter Check.interval with
  | none => rfl
  | some check =>
    rw [Option.isSome_some, if_pos rfl, checkLeader_eq (Option.filter_eq_some_iff.mp h).1]

theorem jobStarted_onTimeout (w : Wrapper) (k : ℕ) (isLeaderNow : Bool) :
    (w.onTimeout k isLeaderNow).jobStarted = match w.checkedBy (.timeout k) with
      | none => w.jobStarted
      | some check => (w.afterCheck check isLeaderNow).jobStarted := by
  rw [onTimeout, getD_map, checkedBy]
  cases h : w.checks[k]?.filter Check.timeout with
  | none => rfl
  | some check =>
    have hcheck : (w.checks.modify k fun check => { check with timeout := false })[k]? =
        some { check with timeout := false } := by
      rw [List.getElem?_modify_eq, (Option.filter_eq_some_iff.mp h).1]
      rfl
    rw [Option.isSome_some, if_pos rfl, checkLeader_eq hcheck]
    exact jobStarted_afterCheck _ false

end Wrapper

namespace Supervised

variable {c : Supervised} {e : JobEvent}

/-- **The calls of an event** are what it makes of the job. -/
theorem callsOf_cases (c : Supervised) (e : JobEvent) :
    (c.callsOf e = [] ∧ (c.advance e).wrapper.jobStarted = c.wrapper.jobStarted) ∨
    (c.callsOf e = [.start] ∧ (c.advance e).wrapper.jobStarted = true) ∨
    (c.callsOf e = [.stop] ∧ (c.advance e).wrapper.jobStarted = false) := by
  cases e with
  | start => exact .inl ⟨rfl, rfl⟩
  | stop => exact .inl ⟨rfl, rfl⟩
  | notReleased => exact .inl ⟨rfl, rfl⟩
  | leadership isLeader => exact .inl ⟨rfl, rfl⟩
  | settle kept =>
    refine .inl ⟨rfl, ?_⟩
    cases kept with
    | false => rfl
    | true =>
      simp only [advance, if_true, Wrapper.settle]
      split <;> rfl
  | released promise =>
    simp only [callsOf, advance, Wrapper.stopCalls, Wrapper.finishStop]
    split
    · exact .inl ⟨rfl, rfl⟩
    · split
      · refine .inr (.inr ⟨rfl, ?_⟩)
        split <;> rfl
      · exact .inl ⟨rfl, rfl⟩
  | interval k =>
    simp only [callsOf, advance, Wrapper.jobStarted_onInterval]
    split
    · exact .inl ⟨rfl, rfl⟩
    · exact Wrapper.checkCalls_cases _ _ _
  | timeout k =>
    simp only [callsOf, advance, Wrapper.jobStarted_onTimeout]
    split
    · exact .inl ⟨rfl, rfl⟩
    · exact Wrapper.checkCalls_cases _ _ _

/-- The wrapper's view of the job is that of the calls. -/
def Linked (c : Supervised) : Prop := c.wrapper.jobStarted = c.running

theorem linked_init : init.Linked := rfl

theorem Linked.step (h : c.Linked) (e : JobEvent) : (c.step e).Linked := by
  have hwrapper : (c.step e).wrapper = (c.advance e).wrapper := rfl
  rw [Linked, hwrapper, running, Supervised.step]
  rcases callsOf_cases c e with ⟨hcalls, hjob⟩ | ⟨hcalls, hjob⟩ | ⟨hcalls, hjob⟩
  · rw [hcalls, hjob, List.append_nil]
    exact h
  · rw [hcalls, hjob]
    simp
  · rw [hcalls, hjob]
    simp

/-- The last call, or a stop before the first one. -/
theorem getLast?_stop_cons (calls : List JobCall) : (JobCall.stop :: calls).getLast? =
    some (if calls.getLast? = some .start then .start else .stop) := by
  rw [List.getLast?_cons]
  cases h : calls.getLast? with
  | none => rfl
  | some call => cases call <;> rfl

/-- One more call alternates when it is the other one. -/
theorem alternates_append (h : Alternates c.calls) (call : JobCall) :
    Alternates (c.calls ++ [call]) ↔ (call = .start ↔ c.running = false) := by
  rw [Alternates, ← List.cons_append, List.isChain_append, getLast?_stop_cons, running]
  by_cases hlast : c.calls.getLast? = some .start <;> cases call <;> simp_all [Alternates]

/-- An event keeps the calls alternating when the call that it makes is the other one. -/
theorem alternates_step (h : Alternates c.calls) (e : JobEvent) : Alternates (c.step e).calls ↔
    ∀ call ∈ c.callsOf e, call = .start ↔ c.running = false := by
  have hcalls : (c.step e).calls = c.calls ++ c.callsOf e := rfl
  rw [hcalls]
  rcases callsOf_cases c e with ⟨hcalls, -⟩ | ⟨hcalls, -⟩ | ⟨hcalls, -⟩
  · rw [hcalls, List.append_nil]
    exact iff_of_true h (by simp)
  · rw [hcalls, alternates_append h, List.forall_mem_singleton]
  · rw [hcalls, alternates_append h, List.forall_mem_singleton]

/-- After an event the job runs as its calls say. -/
theorem running_step (c : Supervised) (e : JobEvent) : (c.step e).running =
    if c.callsOf e = [] then c.running else decide (c.callsOf e = [.start]) := by
  rw [running, step]
  rcases callsOf_cases c e with ⟨hcalls, -⟩ | ⟨hcalls, -⟩ | ⟨hcalls, -⟩
  · simp [hcalls, running]
  · simp [hcalls]
  · simp [hcalls]

/-- The leadership after a check is the one that it saw. -/
theorem leader_step (h : (c.wrapper.checkedBy e).isSome = true) : (c.step e).leader = c.leader := by
  cases e <;> first | rfl | cases h

/-- **A check keeps the promise exactly when it is informed.** -/
theorem keeps_check_iff (h : Alternates c.calls) {check : Check}
    (hcheck : c.wrapper.checkedBy e = some check)
    (hcalls : c.callsOf e = c.wrapper.checkCalls check c.leader) : c.Keeps e ↔ c.Informed check := by
  have hsome : (c.wrapper.checkedBy e).isSome = true := by rw [hcheck]; rfl
  rw [Keeps, alternates_step h, running_step, leader_step hsome, hcalls, Informed]
  cases hleader : c.leader <;> cases hwas : check.wasLeader
  · -- no change is seen, and nothing is called
    simp [hsome, Wrapper.checkCalls, hwas]
  · cases hstarted : c.wrapper.underlyingStarted <;> cases hstopped : c.wrapper.manualStop <;>
      simp [hsome, Wrapper.checkCalls, Wrapper.stopCalls, hwas, hstarted]
  · cases hstarted : c.wrapper.underlyingStarted <;> cases hstopped : c.wrapper.manualStop <;>
      cases hlost : c.wrapper.leadershipLostWhileRunning <;>
      simp [hsome, Wrapper.checkCalls, Wrapper.acquiredCalls, hwas, hstarted, hstopped, hlost]
  · simp [hsome, Wrapper.checkCalls, hwas]

/-- An event without a check and a call keeps the promise. -/
theorem keeps_of_quiet (h : Alternates c.calls) (hcheck : c.wrapper.checkedBy e = none)
    (hcalls : c.callsOf e = []) : c.Keeps e := by
  refine ⟨(alternates_step h e).mpr (by simp [hcalls]), fun hsome => ?_⟩
  rw [hcheck] at hsome
  cases hsome

/-- A timer. -/
theorem keeps_timer_iff (h : Alternates c.calls)
    (hcalls : c.callsOf e = match c.wrapper.checkedBy e with
      | none => []
      | some check => c.wrapper.checkCalls check c.leader) :
    c.Keeps e ↔ ∀ check ∈ c.wrapper.checkedBy e, c.Informed check := by
  cases hcheck : c.wrapper.checkedBy e with
  | none =>
    rw [hcheck] at hcalls
    exact iff_of_true (keeps_of_quiet h hcheck hcalls) (by simp)
  | some check =>
    rw [hcheck] at hcalls
    rw [keeps_check_iff h hcheck hcalls]
    simp

/-- **One event.** -/
theorem keeps_iff (h : Alternates c.calls) (e : JobEvent) : c.Keeps e ↔ c.InOrder e := by
  cases e with
  | released promise =>
    have hcheck : c.wrapper.checkedBy (.released promise) = none := rfl
    rw [Keeps, alternates_step h, callsOf, InOrder, Wrapper.stopCalls, hcheck]
    split
    · simp_all
    · split <;> simp_all
  | interval k => exact keeps_timer_iff h rfl
  | timeout k => exact keeps_timer_iff h rfl
  | start => exact iff_of_true (keeps_of_quiet h rfl rfl) (by simp [InOrder, Wrapper.checkedBy])
  | stop => exact iff_of_true (keeps_of_quiet h rfl rfl) (by simp [InOrder, Wrapper.checkedBy])
  | notReleased => exact iff_of_true (keeps_of_quiet h rfl rfl) (by simp [InOrder, Wrapper.checkedBy])
  | settle kept => exact iff_of_true (keeps_of_quiet h rfl rfl) (by simp [InOrder, Wrapper.checkedBy])
  | leadership isLeader =>
    exact iff_of_true (keeps_of_quiet h rfl rfl) (by simp [InOrder, Wrapper.checkedBy])

/-! ## 4. Runs -/

theorem alternates_init : Alternates init.calls := by decide

theorem inOrder_of_keeps {es : List JobEvent} (h : Along step Keeps init es) :
    Along step InOrder init es :=
  Along.of_inv (I := fun c => Alternates c.calls)
    (fun _ e halternates hkeeps => ⟨hkeeps.1, (keeps_iff halternates e).mp hkeeps⟩) alternates_init h

theorem keeps_of_inOrder {es : List JobEvent} (h : Along step InOrder init es) :
    Along step Keeps init es := by
  refine Along.of_inv (I := fun c => Alternates c.calls) (fun c e halternates horder => ?_) alternates_init h
  have hkeeps : c.Keeps e := (keeps_iff halternates e).mpr horder
  exact ⟨hkeeps.1, hkeeps⟩

/-- **Start and stop discipline**: in every state of a run the calls alternate, and after every check of
a wrapper that is not stopped the job runs exactly when the instance is the leader, if and only if every
check of the run is informed and no `stop` that goes on stops the job twice. -/
theorem discipline_iff (es : List JobEvent) :
    Along step Keeps init es ↔ Along step InOrder init es := ⟨inOrder_of_keeps, keeps_of_inOrder⟩

/-- The wrapper itself knows of the job what its calls say. -/
theorem jobStarted_run (es : List JobEvent) :
    (run step init es).wrapper.jobStarted = (run step init es).running :=
  run_inv_of_step (I := Linked) (fun _ e h => h.step e) linked_init

/-- Two starts, and the leadership is gained, lost and gained again, each time before both checks. -/
def startedTwice : List JobEvent :=
  [.start, .start, .leadership true, .interval 0, .interval 1, .leadership false, .interval 0, .interval 1,
    .leadership true, .interval 0, .interval 1]

/-- A start before the promise of the job's `stop` is kept. -/
def restartedEarly : List JobEvent :=
  [.start, .leadership true, .interval 0, .stop, .leadership false, .released true, .start,
    .leadership true, .interval 1, .settle true, .interval 1]

/-- The second check starts a job that the first one has just started again; and the job of a leader is
left stopped. -/
theorem discipline_broken :
    (¬ ∀ es : List JobEvent, Alternates (run step init es).calls) ∧
      ¬ ∀ es : List JobEvent, Along step Keeps init es := by
  constructor
  · intro h
    exact absurd (h startedTwice) (by decide)
  · intro h
    exact absurd (h restartedEarly) (by decide)

/-! ## 5. Orderly use -/

/-- No timer calls the check. -/
def IsOver (check : Check) : Prop := check.interval = false ∧ check.timeout = false

/-- Where a wrapper is that is used in order: nothing is left of a start and a stop, a start is in
charge, a stop awaits the renew loop, or it awaits the promise of the job. -/
inductive Phase (c : Supervised) : Prop where
  | idle (checks : ∀ check ∈ c.wrapper.checks, IsOver check) (releasing : c.releasing = 0)
      (stopping : c.wrapper.stopping = 0) (started : c.wrapper.underlyingStarted = false)
      (job : c.wrapper.jobStarted = false)
  | active (before : List Check) (check : Check) (checks : c.wrapper.checks = before ++ [check])
      (ended : ∀ check ∈ before, IsOver check) (interval : check.interval = true)
      (checkInterval : c.wrapper.checkInterval = some before.length)
      (releasing : c.releasing = 0) (stopping : c.wrapper.stopping = 0)
      (unstopped : c.wrapper.manualStop = false) (started : c.wrapper.underlyingStarted = check.wasLeader)
      (job : c.wrapper.jobStarted = check.wasLeader)
  | releasing (checks : ∀ check ∈ c.wrapper.checks, IsOver check) (releasing : c.releasing = 1)
      (stopping : c.wrapper.stopping = 0) (job : c.wrapper.jobStarted = c.wrapper.underlyingStarted)
  | awaiting (checks : ∀ check ∈ c.wrapper.checks, IsOver check) (releasing : c.releasing = 0)
      (stopping : c.wrapper.stopping = 1) (started : c.wrapper.underlyingStarted = true)
      (job : c.wrapper.jobStarted = false)

/-- No stop is under way, and the first check of every start has been made. -/
def Quiet (c : Supervised) : Prop :=
  c.releasing = 0 ∧ c.wrapper.stopping = 0 ∧ ∀ check ∈ c.wrapper.checks, check.timeout = false

/-- **Orderly use**: `start` finds nothing of an earlier start, `stop` finds no other stop under way and
the first check made, and what a stop awaits does not fail. -/
def Orderly (c : Supervised) : JobEvent → Prop
  | .start => c.Quiet ∧ ∀ check ∈ c.wrapper.checks, check.interval = false
  | .stop => c.Quiet
  | .notReleased => c.releasing = 0
  | .settle kept => kept = false → c.wrapper.stopping = 0
  | _ => True

instance (c : Supervised) : Decidable c.Quiet := inferInstanceAs (Decidable (_ ∧ _ ∧ _))

instance (c : Supervised) (e : JobEvent) : Decidable (c.Orderly e) := by
  cases e <;> unfold Orderly <;> infer_instance

/-- A check that no timer calls is not made. -/
theorem checkedBy_of_over {w : Wrapper} (h : ∀ check ∈ w.checks, IsOver check) (e : JobEvent) :
    w.checkedBy e = none := by
  cases e with
  | interval k =>
    refine Option.filter_eq_none_iff.mpr fun check hcheck => ?_
    simp [(h check (List.mem_of_getElem? hcheck)).1]
  | timeout k =>
    refine Option.filter_eq_none_iff.mpr fun check hcheck => ?_
    simp [(h check (List.mem_of_getElem? hcheck)).2]
  | _ => rfl

theorem onInterval_of_none {w : Wrapper} {k : ℕ} {isLeaderNow : Bool}
    (h : w.checkedBy (.interval k) = none) : w.onInterval k isLeaderNow = w := by
  rw [Wrapper.onInterval, Wrapper.getD_map]
  rw [Wrapper.checkedBy] at h
  simp [h]

theorem onTimeout_of_none {w : Wrapper} {k : ℕ} {isLeaderNow : Bool}
    (h : w.checkedBy (.timeout k) = none) : w.onTimeout k isLeaderNow = w := by
  rw [Wrapper.onTimeout, Wrapper.getD_map]
  rw [Wrapper.checkedBy] at h
  simp [h]

/-- An event without a check and without a call of the wrapper leaves it as it is. -/
theorem onTimers_of_over {w : Wrapper} (h : ∀ check ∈ w.checks, IsOver check) (k : ℕ) (isLeaderNow : Bool) :
    w.onInterval k isLeaderNow = w ∧ w.onTimeout k isLeaderNow = w :=
  ⟨onInterval_of_none (checkedBy_of_over h _), onTimeout_of_none (checkedBy_of_over h _)⟩

section Active

variable {w : Wrapper} {before : List Check} {check : Check} {isLeaderNow : Bool} {k : ℕ}

/-- Only the newest check is made. -/
theorem eq_length_of_checkedBy (hchecks : w.checks = before ++ [check])
    (hover : ∀ check ∈ before, IsOver check) {made : Check} (hmade : w.checks[k]? = some made)
    (hset : ¬ IsOver made) : k = before.length ∧ made = check := by
  rw [hchecks, List.getElem?_append] at hmade
  split at hmade
  · exact absurd (hover made (List.mem_of_getElem? hmade)) hset
  · rename_i hk
    rw [List.getElem?_singleton] at hmade
    split at hmade
    · exact ⟨by omega, (Option.some.inj hmade).symm⟩
    · cases hmade

/-- **The check in charge** makes the job follow the leadership. -/
theorem checkLeader_active (isLeaderNow : Bool) (hchecks : w.checks = before ++ [check]) (hunstopped : w.manualStop = false)
    (hstarted : w.underlyingStarted = check.wasLeader) (hjob : w.jobStarted = check.wasLeader) :
    (w.checkLeader before.length isLeaderNow).checks = before ++ [{ check with wasLeader := isLeaderNow }] ∧
      (w.checkLeader before.length isLeaderNow).underlyingStarted = isLeaderNow ∧
      (w.checkLeader before.length isLeaderNow).jobStarted = isLeaderNow ∧
      (w.checkLeader before.length isLeaderNow).manualStop = false ∧
      (w.checkLeader before.length isLeaderNow).checkInterval = w.checkInterval ∧
      (w.checkLeader before.length isLeaderNow).stopping = w.stopping := by
  have hcheck : w.checks[before.length]? = some check := by simp [hchecks]
  rw [Wrapper.checkLeader_eq hcheck, Wrapper.afterCheck, Wrapper.onLeadershipAcquired,
    Wrapper.onLeadershipLost]
  cases isLeaderNow <;> cases hwas : check.wasLeader <;>
    simp [hchecks, hunstopped, hstarted, hjob, hwas]

end Active

theorem phase_init : init.Phase := .idle (by simp [init, Wrapper.init]) rfl rfl rfl rfl

/-- A check of a start that is in charge. -/
theorem Phase.checked {before : List Check} {check : Check} {w : Wrapper} {isLeader : Bool}
    (hchecks : w.checks = before ++ [check]) (hover : ∀ check ∈ before, IsOver check)
    (hinterval : check.interval = true) (hcheckInterval : w.checkInterval = some before.length)
    (hstopping : w.stopping = 0) (hunstopped : w.manualStop = false)
    (hstarted : w.underlyingStarted = check.wasLeader) (hjob : w.jobStarted = check.wasLeader)
    (calls : List JobCall) :
    Phase ⟨w.checkLeader before.length isLeader, isLeader, 0, calls⟩ := by
  obtain ⟨hchecks', hstarted', hjob', hunstopped', hcheckInterval', hstopping'⟩ :=
    checkLeader_active isLeader hchecks hunstopped hstarted hjob
  exact .active before { check with wasLeader := isLeader } hchecks' hover hinterval
    (hcheckInterval'.trans hcheckInterval) rfl (hstopping'.trans hstopping) hunstopped' hstarted' hjob'

theorem Phase.congr {d : Supervised} (h : c.Phase) (hwrapper : d.wrapper = c.wrapper)
    (hreleasing : d.releasing = c.releasing) : d.Phase := by
  cases h with
  | idle checks releasing stopping started job =>
    rw [← hwrapper] at checks stopping started job
    exact .idle checks (hreleasing.trans releasing) stopping started job
  | active before check checks ended interval checkInterval releasing stopping unstopped started job =>
    rw [← hwrapper] at checks checkInterval stopping unstopped started job
    exact .active before check checks ended interval checkInterval (hreleasing.trans releasing) stopping
      unstopped started job
  | releasing checks releasing stopping job =>
    rw [← hwrapper] at checks stopping job
    exact .releasing checks (hreleasing.trans releasing) stopping job
  | awaiting checks releasing stopping started job =>
    rw [← hwrapper] at checks stopping started job
    exact .awaiting checks (hreleasing.trans releasing) stopping started job

theorem over_beginStop {w : Wrapper} (h : ∀ check ∈ w.checks, IsOver check) :
    ∀ check ∈ w.beginStop.checks, IsOver check := by
  intro check hcheck
  rw [Wrapper.beginStop] at hcheck
  dsimp only at hcheck
  split at hcheck
  · exact h check hcheck
  · obtain ⟨k, hk⟩ := List.mem_iff_getElem?.mp hcheck
    rw [List.getElem?_modify] at hk
    obtain ⟨old, hold, hnew⟩ := Option.map_eq_some_iff.mp hk
    have hover := h old (List.mem_of_getElem? hold)
    split at hnew
    · rw [← hnew]
      exact ⟨rfl, hover.2⟩
    · rw [← hnew]
      exact hover

/-- Where nothing is left of a start, timers do nothing. -/
theorem Phase.timers (h : c.Phase) (hover : ∀ check ∈ c.wrapper.checks, IsOver check) (k : ℕ) :
    (c.step (.interval k)).Phase ∧ (c.step (.timeout k)).Phase :=
  ⟨h.congr (onTimers_of_over hover k c.leader).1 rfl, h.congr (onTimers_of_over hover k c.leader).2 rfl⟩

theorem settle_of_none {w : Wrapper} (h : w.stopping = 0) (kept : Bool) :
    (if kept then w.settle else w.reject) = w := by
  cases kept with
  | true => simp [Wrapper.settle, h]
  | false =>
    cases w
    simp_all [Wrapper.reject]

theorem Phase.released (h : c.Phase) (hnone : c.releasing = 0) (promise : Bool) :
    (c.step (.released promise)).Phase := by
  have hadvance : c.advance (.released promise) = c := if_pos hnone
  refine h.congr ?_ ?_
  · rw [Supervised.step, hadvance]
  · rw [Supervised.step, hadvance]

theorem modify_last (before : List Check) (check : Check) (f : Check → Check) :
    (before ++ [check]).modify before.length f = before ++ [f check] := by
  induction before with
  | nil => rfl
  | cons first before ih => rw [List.cons_append, List.length_cons, List.modify_succ_cons, ih, List.cons_append]

/-- A start is in charge: its stop clears the interval. -/
theorem over_beginStop_active {w : Wrapper} {before : List Check} {check : Check}
    (hchecks : w.checks = before ++ [check]) (hover : ∀ check ∈ before, IsOver check)
    (hcheckInterval : w.checkInterval = some before.length) (htimeout : check.timeout = false) :
    ∀ check ∈ w.beginStop.checks, IsOver check := by
  have hstopped : w.beginStop.checks = before ++ [{ check with interval := false }] := by
    simp [Wrapper.beginStop, hcheckInterval, hchecks, modify_last]
  rw [hstopped]
  intro made hmade
  rcases List.mem_append.mp hmade with hold | hnew
  · exact hover made hold
  · rw [List.mem_singleton.mp hnew]
    exact ⟨rfl, htimeout⟩

/-- **The timers of a start in charge.** -/
theorem Phase.timers_active {before : List Check} {check : Check} (h : c.Phase)
    (hchecks : c.wrapper.checks = before ++ [check]) (hover : ∀ check ∈ before, IsOver check)
    (hinterval : check.interval = true) (hcheckInterval : c.wrapper.checkInterval = some before.length)
    (hreleasing : c.releasing = 0) (hstopping : c.wrapper.stopping = 0)
    (hunstopped : c.wrapper.manualStop = false) (hstarted : c.wrapper.underlyingStarted = check.wasLeader)
    (hjob : c.wrapper.jobStarted = check.wasLeader) (k : ℕ) :
    (c.step (.interval k)).Phase ∧ (c.step (.timeout k)).Phase := by
  constructor
  · cases hmade : c.wrapper.checkedBy (.interval k) with
    | none => exact h.congr (onInterval_of_none hmade) rfl
    | some made =>
      obtain ⟨hcheck, hset⟩ := Option.filter_eq_some_iff.mp hmade
      obtain ⟨rfl, rfl⟩ := eq_length_of_checkedBy hchecks hover hcheck (fun h => by simp [h.1] at hset)
      have hfires : c.wrapper.onInterval before.length c.leader =
          c.wrapper.checkLeader before.length c.leader := by
        rw [Wrapper.onInterval, hcheck, Option.map_some, hinterval]
        rfl
      exact (Phase.checked hchecks hover hinterval hcheckInterval hstopping hunstopped hstarted hjob []).congr
        hfires hreleasing
  · cases hmade : c.wrapper.checkedBy (.timeout k) with
    | none => exact h.congr (onTimeout_of_none hmade) rfl
    | some made =>
      obtain ⟨hcheck, hset⟩ := Option.filter_eq_some_iff.mp hmade
      obtain ⟨rfl, rfl⟩ := eq_length_of_checkedBy hchecks hover hcheck (fun h => by simp [h.2] at hset)
      have hfires : c.wrapper.onTimeout before.length c.leader =
          { c.wrapper with checks := c.wrapper.checks.modify before.length fun check =>
            { check with timeout := false } }.checkLeader before.length c.leader := by
        rw [Wrapper.onTimeout, hcheck, Option.map_some, hset]
        rfl
      have hmodified : (c.wrapper.checks.modify before.length fun check => { check with timeout := false }) =
          before ++ [{ made with timeout := false }] := by
        rw [hchecks, modify_last]
      rw [hmodified] at hfires
      exact (Phase.checked (w := { c.wrapper with checks := before ++ [{ made with timeout := false }] }) rfl
        hover hinterval hcheckInterval hstopping hunstopped hstarted hjob []).congr hfires hreleasing

/-- **One event of an orderly use.** -/
theorem Phase.step (h : c.Phase) (e : JobEvent) (horderly : c.Orderly e) : (c.step e).Phase := by
  have hphase := h
  cases h with
  | idle checks releasing stopping started job =>
    cases e with
    | start =>
      exact .active c.wrapper.checks ⟨false, true, true⟩ rfl checks rfl rfl releasing stopping rfl started job
    | stop =>
      exact .releasing (over_beginStop checks) (congrArg (· + 1) releasing) stopping (job.trans started.symm)
    | released promise => exact hphase.released releasing promise
    | notReleased => exact hphase.congr rfl (by simp [Supervised.step, advance, releasing])
    | settle kept => exact hphase.congr (settle_of_none stopping kept) rfl
    | leadership isLeader => exact hphase.congr rfl rfl
    | interval k => exact (hphase.timers checks k).1
    | timeout k => exact (hphase.timers checks k).2
  | active before check checks ended interval checkInterval releasing stopping unstopped started job =>
    have hmem : check ∈ c.wrapper.checks := by simp [checks]
    have htimers := hphase.timers_active checks ended interval checkInterval releasing stopping unstopped
      started job
    cases e with
    | start => exact absurd (horderly.2 check hmem) (by simp [interval])
    | stop =>
      exact .releasing (over_beginStop_active checks ended checkInterval (horderly.2.2 check hmem))
        (congrArg (· + 1) releasing) stopping (job.trans started.symm)
    | released promise => exact hphase.released releasing promise
    | notReleased => exact hphase.congr rfl (by simp [Supervised.step, advance, releasing])
    | settle kept => exact hphase.congr (settle_of_none stopping kept) rfl
    | leadership isLeader => exact hphase.congr rfl rfl
    | interval k => exact (htimers k).1
    | timeout k => exact (htimers k).2
  | releasing checks releasing stopping job =>
    have hbusy : c.releasing ≠ 0 := by omega
    cases e with
    | start => exact absurd horderly.1.1 hbusy
    | stop => exact absurd horderly.1 hbusy
    | released promise =>
      have hadvance : c.advance (.released promise) =
          { c with wrapper := c.wrapper.finishStop promise, releasing := c.releasing - 1 } := if_neg hbusy
      have hnone : (c.step (.released promise)).releasing = 0 := by
        simp [Supervised.step, hadvance, releasing]
      have hwrapper : (c.step (.released promise)).wrapper = c.wrapper.finishStop promise :=
        congrArg wrapper hadvance
      rw [Wrapper.finishStop] at hwrapper
      cases hstarted : c.wrapper.underlyingStarted with
      | false =>
        rw [hstarted, if_neg Bool.false_ne_true] at hwrapper
        rw [hstarted] at job
        exact .idle (by rwa [hwrapper]) hnone (by rwa [hwrapper]) (by rwa [hwrapper]) (by rwa [hwrapper])
      | true =>
        rw [hstarted, if_pos rfl] at hwrapper
        cases promise with
        | false => exact .idle (by rwa [hwrapper]) hnone (by rwa [hwrapper]) (by rw [hwrapper]; rfl) (by rw [hwrapper]; rfl)
        | true =>
          exact .awaiting (by rwa [hwrapper]) hnone (by rw [hwrapper]; simp [stopping])
            (by rw [hwrapper]; rfl) (by rw [hwrapper]; rfl)
    | notReleased => exact absurd horderly hbusy
    | settle kept => exact hphase.congr (settle_of_none stopping kept) rfl
    | leadership isLeader => exact hphase.congr rfl rfl
    | interval k => exact (hphase.timers checks k).1
    | timeout k => exact (hphase.timers checks k).2
  | awaiting checks releasing stopping started job =>
    have hbusy : c.wrapper.stopping ≠ 0 := by omega
    cases e with
    | start => exact absurd horderly.1.2.1 hbusy
    | stop => exact absurd horderly.2.1 hbusy
    | released promise => exact hphase.released releasing promise
    | notReleased => exact hphase.congr rfl (by simp [Supervised.step, advance, releasing])
    | settle kept =>
      cases kept with
      | false => exact absurd (horderly rfl) hbusy
      | true =>
        have hwrapper : (c.step (.settle true)).wrapper =
            { c.wrapper with underlyingStarted := false, stopping := 0 } := by
          simp [Supervised.step, advance, Wrapper.settle, stopping]
        exact .idle (by rwa [hwrapper]) releasing (by rw [hwrapper]) (by rw [hwrapper]) (by rwa [hwrapper])
    | leadership isLeader => exact hphase.congr rfl rfl
    | interval k => exact (hphase.timers checks k).1
    | timeout k => exact (hphase.timers checks k).2

/-- **In an orderly use every check is informed.** -/
theorem Phase.inOrder (h : c.Phase) (hlinked : c.Linked) (e : JobEvent) : c.InOrder e := by
  rw [Linked] at hlinked
  have hover : (∀ check ∈ c.wrapper.checks, IsOver check) → (c.releasing ≠ 0 →
      c.wrapper.underlyingStarted = true → c.running = true) → c.InOrder e := by
    intro hchecks hreleased
    have hnone := checkedBy_of_over hchecks e
    cases e <;> first | exact hreleased | (intro check hcheck; rw [hnone] at hcheck; cases hcheck)
  cases h with
  | idle checks releasing _ _ _ => exact hover checks fun hbusy => absurd releasing hbusy
  | releasing checks _ _ job => exact hover checks fun _ hstarted => hlinked.symm.trans (job.trans hstarted)
  | awaiting checks releasing _ _ _ => exact hover checks fun hbusy => absurd releasing hbusy
  | active before newest checks ended _ _ releasing _ unstopped started job =>
    have hinformed : c.Informed newest := by
      rw [Informed, unstopped, if_neg Bool.false_ne_true, ← hlinked, job, started]
      cases newest.wasLeader <;> cases c.leader <;> simp
    cases e with
    | released promise => exact fun hbusy => absurd releasing hbusy
    | interval k =>
      intro check hmade
      obtain ⟨hcheck, hset⟩ := Option.filter_eq_some_iff.mp hmade
      obtain ⟨-, rfl⟩ := eq_length_of_checkedBy checks ended hcheck (fun h => by simp [h.1] at hset)
      exact hinformed
    | timeout k =>
      intro check hmade
      obtain ⟨hcheck, hset⟩ := Option.filter_eq_some_iff.mp hmade
      obtain ⟨-, rfl⟩ := eq_length_of_checkedBy checks ended hcheck (fun h => by simp [h.2] at hset)
      exact hinformed
    | _ =>
      intro check hmade
      cases hmade

theorem inOrder_of_orderly {es : List JobEvent} (horderly : Along step Orderly init es) :
    Along step InOrder init es :=
  Along.of_inv (I := fun c => c.Phase ∧ c.Linked)
    (fun _ e h hstep => ⟨⟨h.1.step e hstep, h.2.step e⟩, h.1.inOrder h.2 e⟩) ⟨phase_init, linked_init⟩ horderly

/-- **The wrapper in orderly use**: the calls alternate, and after every check the job runs exactly
when the instance is the leader. -/
theorem orderly_keeps {es : List JobEvent} (horderly : Along step Orderly init es) :
    Along step Keeps init es := keeps_of_inOrder (inOrder_of_orderly horderly)

/-- The service is started, leads for a while, and is shut down. -/
example : Along step Orderly init [.start, .timeout 0, .leadership true, .interval 0, .stop,
    .leadership false, .released true, .settle true] := by
  decide

end Supervised

end SmartDrop.Leader
