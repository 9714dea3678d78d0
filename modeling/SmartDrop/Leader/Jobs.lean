/-
# Jobs that follow the leader

`jobs/leaderAwareJob.js`.  Every `start` makes a closure with a memory of its own (`wasLeader`)
that an interval calls, and a timeout once: `checkLeader` starts the job when it sees that the
instance has become the leader, and stops it when it sees that the instance no longer is.  `stop`
waits for the renew loop to stop, which releases the lease, and stops the job after that.

So a job runs on while the lease is already free, and one that another instance starts in the
meantime runs beside it (`jobs_overlap`).  It is the only one as long as no instance is granted
the lease before the job of the last holder is stopped, and no check starts the job on an
instance whose lease has run out (`one_job_running`).
-/
import SmartDrop.Leader.Election
import Mathlib.Data.Fintype.Basic

namespace SmartDrop.Leader

open Conc

/-! ## 1. The wrapper -/

/-- What a `start` leaves behind: the memory of its `checkLeader`, and what calls it. -/
structure Check where
  wasLeader : Bool
  interval : Bool
  timeout : Bool

/-- The variables of the wrapper, the checks in the order of the starts, whether the job itself
is started, and how many calls of `stop` await the promise of the job's `stop`. -/
structure Wrapper where
  underlyingStarted : Bool
  manualStop : Bool
  leadershipLostWhileRunning : Bool
  checkInterval : Option ℕ
  checks : List Check
  jobStarted : Bool
  stopping : ℕ

namespace Wrapper

/-- A wrapper that was just made. -/
def init : Wrapper := ⟨false, false, false, none, [], false, 0⟩

/-- `onLeadershipAcquired`. -/
def onLeadershipAcquired (w : Wrapper) : Wrapper :=
  if w.manualStop then w
  else if !w.underlyingStarted then { w with jobStarted := true, underlyingStarted := true }
  else if w.leadershipLostWhileRunning then
    { w with jobStarted := true, leadershipLostWhileRunning := false }
  else w

/-- `onLeadershipLost`. -/
def onLeadershipLost (w : Wrapper) : Wrapper :=
  if w.underlyingStarted then
    { w with jobStarted := false, underlyingStarted := false, leadershipLostWhileRunning := true }
  else w

/-- `checkLeader`, of the `k`-th start. -/
def checkLeader (w : Wrapper) (k : ℕ) (isLeaderNow : Bool) : Wrapper :=
  match w.checks[k]? with
  | none => w
  | some check =>
    let w :=
      if isLeaderNow && !check.wasLeader then w.onLeadershipAcquired
      else if !isLeaderNow && check.wasLeader then w.onLeadershipLost
      else w
    { w with checks := w.checks.set k { check with wasLeader := isLeaderNow } }

/-- The interval of the `k`-th start fires, if it is set. -/
def onInterval (w : Wrapper) (k : ℕ) (isLeaderNow : Bool) : Wrapper :=
  if (w.checks[k]?.map Check.interval).getD false then w.checkLeader k isLeaderNow else w

/-- The timeout of the `k`-th start fires, once. -/
def onTimeout (w : Wrapper) (k : ℕ) (isLeaderNow : Bool) : Wrapper :=
  if (w.checks[k]?.map Check.timeout).getD false then
    { w with checks := w.checks.modify k fun check => { check with timeout := false } }.checkLeader k
      isLeaderNow
  else w

/-- `start`, up to the start of the renew loop. -/
def start (w : Wrapper) : Wrapper :=
  { w with
    manualStop := false
    leadershipLostWhileRunning := false
    checkInterval := some w.checks.length
    checks := w.checks ++ [⟨false, true, true⟩] }

/-- `stop`, up to the stop of the renew loop. -/
def beginStop (w : Wrapper) : Wrapper :=
  { w with
    manualStop := true
    checkInterval := none
    checks := match w.checkInterval with
      | none => w.checks
      | some k => w.checks.modify k fun check => { check with interval := false } }

/-- `stop`, once the renew loop has stopped; `promise` says whether the job's `stop` returns one. -/
def finishStop (promise : Bool) (w : Wrapper) : Wrapper :=
  if w.underlyingStarted then
    if promise then { w with jobStarted := false, stopping := w.stopping + 1 }
    else { w with jobStarted := false, underlyingStarted := false }
  else w

/-- The promise of the job's `stop` is kept. -/
def settle (w : Wrapper) : Wrapper :=
  match w.stopping with
  | 0 => w
  | n + 1 => { w with underlyingStarted := false, stopping := n }

end Wrapper

/-! ## 2. Replicas -/

/-- The election, and the wrapper on every instance. -/
structure Replicas (ι : Type) where
  election : Election ι
  wrappers : ι → Wrapper

/-- The calls of the wrapper, what fires, and what goes on in the election. -/
inductive Event (ι : Type) where
  | start (i : ι)
  | stop (i : ι)
  | interval (i : ι) (k : ℕ)
  | timeout (i : ι) (k : ℕ)
  | settle (i : ι)
  | tick (i : ι)
  | execute (i : ι) (fault : Fault)
  | reply (i : ι)
  | elapse (ms : ℕ)
deriving DecidableEq

namespace Replicas

variable {ι : Type}

/-- No lease, and nothing started. -/
def init (ι : Type) : Replicas ι := ⟨.init ι, fun _ => .init⟩

/-- The job is started on the instance `i`. -/
def jobStarted (c : Replicas ι) (i : ι) : Prop := (c.wrappers i).jobStarted = true

instance (c : Replicas ι) (i : ι) : Decidable (c.jobStarted i) := inferInstanceAs (Decidable (_ = _))

variable [DecidableEq ι]

/-- Change one wrapper. -/
def onWrapper (c : Replicas ι) (i : ι) (f : Wrapper → Wrapper) : Replicas ι :=
  { c with wrappers := Function.update c.wrappers i (f (c.wrappers i)) }

/-- A step of the election alone. -/
def elect (leaseTtlMs : ℕ) (c : Replicas ι) (l : Label ι) : Replicas ι :=
  { c with election := c.election.step leaseTtlMs l }

/-- The next reply to the instance `i` is the one that a `stop` awaits. -/
def awaitedByStop (c : Replicas ι) (i : ι) : Bool :=
  match (c.election.instances i).replies.head? with
  | some (⟨_, .stop _⟩, _) => true
  | _ => false

/-- One step. -/
def step (leaseTtlMs : ℕ) (promise : Bool) (c : Replicas ι) : Event ι → Replicas ι
  | .start i => (c.onWrapper i Wrapper.start).elect leaseTtlMs (.call i .startRenewLoop)
  | .stop i =>
    let stopped := (c.onWrapper i Wrapper.beginStop).elect leaseTtlMs (.call i .stopRenewLoop)
    -- without the leadership there is nothing to wait for
    if (c.election.instances i).leader then stopped
    else stopped.onWrapper i (Wrapper.finishStop promise)
  | .interval i k => c.onWrapper i fun w => w.onInterval k (c.election.instances i).leader
  | .timeout i k => c.onWrapper i fun w => w.onTimeout k (c.election.instances i).leader
  | .settle i => c.onWrapper i Wrapper.settle
  | .tick i => c.elect leaseTtlMs (.call i .tick)
  | .execute i fault => c.elect leaseTtlMs (.execute i fault)
  | .reply i =>
    let answered := c.elect leaseTtlMs (.reply i)
    if c.awaitedByStop i then answered.onWrapper i (Wrapper.finishStop promise) else answered
  | .elapse ms => c.elect leaseTtlMs (.elapse ms)

/-! ## 3. One job -/

/-- The wrapper after a check. -/
def checked (c : Replicas ι) : Event ι → Option (ι × Wrapper)
  | .interval i k => some (i, (c.wrappers i).onInterval k (c.election.instances i).leader)
  | .timeout i k => some (i, (c.wrappers i).onTimeout k (c.election.instances i).leader)
  | _ => none

/-- No acquire is granted while the job is started on another instance, and a check that starts
the job finds the lease with its instance. -/
def HandedOver (c : Replicas ι) : Event ι → Prop
  | .execute i _ => ∀ r ∈ (c.election.instances i).sent.head?, r.command = .acquire →
      c.election.lease = none → ∀ j, j ≠ i → ¬ c.jobStarted j
  | e => ∀ r ∈ c.checked e, ¬ c.jobStarted r.1 → r.2.jobStarted = true →
      c.election.holder = some r.1

/-- The job is started on one instance at most, and no other one holds the lease. -/
structure Settled (c : Replicas ι) : Prop where
  one : ∀ i j, c.jobStarted i → c.jobStarted j → i = j
  holder : ∀ i j, c.jobStarted i → c.election.holder = some j → i = j

omit [DecidableEq ι] in
theorem settled_init : (Replicas.init ι).Settled :=
  ⟨fun _ _ h => by simp [jobStarted, Replicas.init, Wrapper.init] at h,
    fun _ _ h => by simp [jobStarted, Replicas.init, Wrapper.init] at h⟩

variable {leaseTtlMs : ℕ} {promise : Bool} {c c' : Replicas ι} {e : Event ι}

omit [DecidableEq ι] in
/-- A step that starts no job and gives nobody the lease. -/
theorem Settled.mono (h : c.Settled) (hjob : ∀ i, c'.jobStarted i → c.jobStarted i)
    (hholder : ∀ i, c'.election.holder = some i → c.election.holder = some i) : c'.Settled :=
  ⟨fun i j hi hj => h.one i j (hjob i hi) (hjob j hj),
    fun i j hi hj => h.holder i j (hjob i hi) (hholder j hj)⟩

/-- A change of one wrapper that starts no job. -/
theorem jobStarted_onWrapper {i : ι} {f : Wrapper → Wrapper}
    (hf : (f (c.wrappers i)).jobStarted = true → (c.wrappers i).jobStarted = true) (j : ι)
    (hj : (c.onWrapper i f).jobStarted j) : c.jobStarted j := by
  by_cases hji : j = i
  · subst hji
    exact hf (by simpa [jobStarted, onWrapper] using hj)
  · simpa [jobStarted, onWrapper, hji] using hj

theorem jobStarted_finishStop (w : Wrapper) (h : (w.finishStop promise).jobStarted = true) :
    w.jobStarted = true := by
  simp only [Wrapper.finishStop] at h
  split at h
  · split at h <;> cases h
  · exact h

theorem jobStarted_settle (w : Wrapper) (h : w.settle.jobStarted = true) : w.jobStarted = true := by
  simp only [Wrapper.settle] at h
  split at h <;> exact h

/-- Only a granted acquire gives an instance the lease. -/
theorem holder_step {l : Label ι} {i : ι} (h : (c.election.step leaseTtlMs l).holder = some i) :
    c.election.holder = some i ∨
      (c.election.lease = none ∧ c.election.Executes l i .acquire) := by
  have hlaw : Election.LeaseLaw leaseTtlMs c.election l _ := Election.leaseLaw_step c.election l
  cases hlease : c.election.lease with
  | none =>
    obtain ⟨⟨j, e⟩, hnew, hj⟩ := Option.map_eq_some_iff.mp h
    obtain rfl : j = i := hj
    exact .inr ⟨rfl, (hlaw.taken hlease j e hnew).1⟩
  | some lease =>
    left
    have hold : c.election.holder = some lease.holder := by simp [Election.holder, hlease]
    rw [hold]
    by_contra hne
    have hlost := (hlaw.lost lease.holder hold (by rw [h]; exact fun he => hne he.symm)).1
    rw [Election.holder, hlost] at h
    cases h

/-- A step of the election in which no acquire is granted. -/
theorem Settled.elect (h : c.Settled) {l : Label ι} (hl : ∀ i, ¬ c.election.Executes l i .acquire) :
    (c.elect leaseTtlMs l).Settled :=
  h.mono (fun _ hj => hj) fun i hi => (holder_step hi).resolve_right fun hex => hl i hex.2

/-- A change of one wrapper that starts no job. -/
theorem Settled.onWrapper (h : c.Settled) {i : ι} {f : Wrapper → Wrapper}
    (hf : (f (c.wrappers i)).jobStarted = true → (c.wrappers i).jobStarted = true) :
    (c.onWrapper i f).Settled :=
  h.mono (jobStarted_onWrapper hf) fun _ hj => hj

/-- A check on the instance that has the lease, if it starts the job. -/
theorem Settled.check (h : c.Settled) {i : ι} {f : Wrapper → Wrapper}
    (hf : ¬ c.jobStarted i → (f (c.wrappers i)).jobStarted = true → c.election.holder = some i) :
    (c.onWrapper i f).Settled := by
  by_cases hold : c.jobStarted i
  · exact h.onWrapper fun _ => hold
  by_cases hnew : (f (c.wrappers i)).jobStarted = true
  · have hi := hf hold hnew
    -- another instance that has the job started would hold the lease, too
    have hall : ∀ j, (c.onWrapper i f).jobStarted j → j = i := by
      intro j hj
      by_contra hji
      have hj : c.jobStarted j := by simpa [jobStarted, Replicas.onWrapper, hji] using hj
      exact hji (h.holder j i hj hi)
    refine ⟨fun j k hj hk => (hall j hj).trans (hall k hk).symm, fun j k hj hk => ?_⟩
    rw [hall j hj]
    exact Option.some.inj (hi.symm.trans hk)
  · exact h.onWrapper fun hn => absurd hn hnew

/-- **One step** of a handover in order. -/
theorem Settled.step (h : c.Settled) (horder : c.HandedOver e) :
    (c.step leaseTtlMs promise e).Settled := by
  have hcall : ∀ {d : Replicas ι}, d.Settled → ∀ i call,
      (d.elect leaseTtlMs (.call i call)).Settled := fun hd i call =>
    hd.elect fun j hex => by
      obtain ⟨_, _, _, hl, _⟩ := hex
      cases hl
  have hfinish : ∀ {d : Replicas ι}, d.Settled → ∀ i,
      (d.onWrapper i (Wrapper.finishStop promise)).Settled := fun hd i =>
    hd.onWrapper (jobStarted_finishStop _)
  cases e with
  | start i => exact hcall (h.onWrapper fun hj => hj) i .startRenewLoop
  | stop i =>
    have hbegun : (c.onWrapper i Wrapper.beginStop).Settled := h.onWrapper fun hj => hj
    have hstopped := hcall hbegun i .stopRenewLoop
    simp only [Replicas.step]
    split
    · exact hstopped
    · exact hfinish hstopped i
  | interval i k => exact h.check fun hold hnew => horder _ rfl hold hnew
  | timeout i k => exact h.check fun hold hnew => horder _ rfl hold hnew
  | settle i => exact h.onWrapper (jobStarted_settle _)
  | tick i => exact hcall h i .tick
  | execute i fault =>
    refine ⟨h.one, fun j k hj hk => ?_⟩
    rcases holder_step hk with hkept | ⟨hfree, fault', caller, rest, hl, hsent⟩
    · exact h.holder j k hj hkept
    · -- the lease is granted, and the job of anybody else is stopped
      obtain ⟨rfl, rfl⟩ := Label.execute.inj hl
      by_contra hne
      exact horder ⟨.acquire, caller⟩ (by simp [hsent]) rfl hfree j hne hj
  | reply i =>
    have hanswered : (c.elect leaseTtlMs (.reply i)).Settled := h.elect fun j hex => by
      obtain ⟨_, _, _, hl, _⟩ := hex
      cases hl
    simp only [Replicas.step]
    split
    · exact hfinish hanswered i
    · exact hanswered
  | elapse ms =>
    exact h.elect fun j hex => by
      obtain ⟨_, _, _, hl, _⟩ := hex
      cases hl

/-- **One job.**  In every run in which no acquire is granted while the job is still started on
another instance, and a check starts the job only where the lease is, the job is started on one
instance at most. -/
theorem one_job_running (leaseTtlMs : ℕ) (promise : Bool) (es : List (Event ι))
    (horder : Along (Replicas.step leaseTtlMs promise) HandedOver (.init ι) es) (i j : ι) :
    let c := run (Replicas.step leaseTtlMs promise) (.init ι) es
    c.jobStarted i → c.jobStarted j → i = j :=
  (run_inv (fun _ _ h horder => h.step horder) settled_init horder).one i j

instance [Fintype ι] (c : Replicas ι) (e : Event ι) : Decidable (c.HandedOver e) := by
  cases e <;> unfold HandedOver <;> infer_instance

/-- One instance runs the job, and hands it over to the other one. -/
def handover : List (Event Bool) :=
  [.start false, .execute false .none, .reply false, .interval false 0, .start true,
    .execute true .none, .reply true, .stop false, .execute false .none, .reply false, .tick true,
    .execute true .none, .reply true, .timeout true 0]

theorem one_job_handover :
    let c := run (Replicas.step 15000 true) (.init Bool) handover
    ¬ (c.jobStarted true ∧ c.jobStarted false) := fun h =>
  absurd (one_job_running 15000 true handover (by decide) true false h.1 h.2) (by decide)

/-- The first instance has released the lease and waits for the reply before it stops its job;
the second one is granted the lease, and its check starts the job. -/
theorem jobs_overlap : ¬ ∀ (es : List (Event Bool)) (i j : Bool),
    let c := run (Replicas.step 15000 true) (.init Bool) es
    c.jobStarted i → c.jobStarted j → i = j := by
  intro h
  exact absurd (h [.start false, .execute false .none, .reply false, .interval false 0, .start true,
    .execute true .none, .reply true, .stop false, .execute false .none, .tick true,
    .execute true .none, .reply true, .interval true 0] true false (by decide) (by decide)) (by decide)

end Replicas

end SmartDrop.Leader
