/-
# Leader election

`services/leaderElection.js`.  The lease is one key that holds an instance id and expires;
`tryAcquire` is a `SET NX PX`, and `renew` and `release` are scripts that do nothing unless the
key holds the caller's id.

Every function runs up to the command it awaits, and goes on when the reply comes.  An instance
has one connection, on which Redis executes its commands in the order in which they were sent and
answers them in that order: `sent` are the commands on their way, `replies` the answers.  An
instance is known by its id.
-/
import Mathlib.Data.Nat.Notation
import Mathlib.Logic.Function.Basic
import SmartDrop.Lib.Run

namespace SmartDrop.Leader

open Conc

/-! ## 1. The lease -/

/-- The lease key: whose id it holds, and when it expires. -/
structure Lease (ι : Type) where
  holder : ι
  expiresAt : ℕ
deriving DecidableEq

/-- `SET NX PX`, `RENEW_LUA` and `RELEASE_LUA`. -/
inductive Command where
  | acquire
  | renew
  | release
deriving DecidableEq

/-- What a command of the instance `i` answers, and the lease after it. -/
def Command.exec {ι : Type} [DecidableEq ι] (leaseTtlMs now : ℕ) (i : ι) (lease : Option (Lease ι)) :
    Command → Bool × Option (Lease ι)
  | .acquire =>
    match lease with
    | none => (true, some ⟨i, now + leaseTtlMs⟩)
    | some l => (false, some l)
  | .renew =>
    match lease with
    | none => (false, none)
    | some l => if l.holder = i then (true, some ⟨i, now + leaseTtlMs⟩) else (false, some l)
  | .release =>
    match lease with
    | none => (false, none)
    | some l => if l.holder = i then (true, none) else (false, some l)

/-! ## 2. An instance -/

/-- Who awaits a reply: an election cycle, a caller of the function, a `stopRenewLoop` that was
called after `starts` starts of the loop, or nobody, a start of the loop having stopped it first. -/
inductive Caller where
  | cycle
  | direct
  | stop (starts : ℕ)
  | restart
deriving DecidableEq

/-- A command, and who awaits its reply. -/
structure Request where
  command : Command
  caller : Caller
deriving DecidableEq

/-- What comes back: the command's answer, or an error. -/
inductive Reply where
  | ok (answer : Bool)
  | error
deriving DecidableEq

/-- The memory of an instance and its connection.  `starts` counts the starts of the renew loop,
and `stopped` says that a `stopRenewLoop` has resolved that no start has followed. -/
structure Instance where
  leader : Bool
  renewTimer : Bool
  cycleInFlight : Bool
  starts : ℕ
  stopped : Bool
  sent : List Request
  replies : List (Request × Reply)

namespace Instance

/-- An instance that was just created. -/
def init : Instance := ⟨false, false, false, 0, false, [], []⟩

/-- Send a command and await its reply. -/
def send (s : Instance) (command : Command) (caller : Caller) : Instance :=
  { s with sent := s.sent ++ [⟨command, caller⟩] }

/-- The `finally` of an election cycle, or the end of a `stopRenewLoop`. -/
def resolve (s : Instance) : Caller → Instance
  | .cycle => { s with cycleInFlight := false }
  | .direct | .restart => s
  | .stop starts => if starts = s.starts then { s with stopped := true } else s

/-- `tryAcquire`, up to its command. -/
def tryAcquire (s : Instance) (caller : Caller) : Instance := s.send .acquire caller

/-- `renew`, up to its command; without the leadership it returns at once. -/
def renew (s : Instance) (caller : Caller) : Instance :=
  if s.leader then s.send .renew caller else s.resolve caller

/-- `release`, up to its command; without the leadership it returns at once. -/
def release (s : Instance) (caller : Caller) : Instance :=
  if s.leader then s.send .release caller else s.resolve caller

/-- `runElectionCycle`. -/
def runElectionCycle (s : Instance) : Instance :=
  if s.cycleInFlight then s
  else
    let s := { s with cycleInFlight := true }
    if s.leader then s.renew .cycle else s.tryAcquire .cycle

/-- `stopRenewLoop`. -/
def stopRenewLoop (s : Instance) (caller : Caller) : Instance :=
  { s with renewTimer := false }.release caller

/-- `startRenewLoop`. -/
def startRenewLoop (s : Instance) : Instance :=
  if s.renewTimer then s
  else
    let s := s.stopRenewLoop .restart
    let s := { s with starts := s.starts + 1, stopped := false }
    { s.runElectionCycle with renewTimer := true }

/-- The interval of the renew loop fires, if it is set. -/
def tick (s : Instance) : Instance := if s.renewTimer then s.runElectionCycle else s

/-- `tryAcquire`, from its reply on; an error is thrown. -/
def acquired (s : Instance) : Reply → Instance
  | .ok answer => { s with leader := answer }
  | .error => s

/-- `renew`, from its reply on. -/
def renewed (s : Instance) : Reply → Instance
  | .ok true => s
  | .ok false | .error => { s with leader := false }

/-- `release`, from its reply on; an error is logged. -/
def released (s : Instance) : Reply → Instance
  | .ok _ | .error => { s with leader := false }

/-- The function that sent a command goes on. -/
def resume (s : Instance) (request : Request) (reply : Reply) : Instance :=
  (match request.command with
    | .acquire => s.acquired reply
    | .renew => s.renewed reply
    | .release => s.released reply).resolve request.caller

end Instance

/-! ## 3. Elections -/

/-- Redis, the clock, and the instances. -/
structure Election (ι : Type) where
  now : ℕ
  lease : Option (Lease ι)
  instances : ι → Instance

/-- What is called on an instance; `tick` is the interval. -/
inductive Call where
  | startRenewLoop
  | tick
  | stopRenewLoop
  | tryAcquire
  | renew
  | release
deriving DecidableEq

/-- How a command can fail: before Redis executed it, or after, its reply being lost. -/
inductive Fault where
  | none
  | before
  | after
deriving DecidableEq

/-- A call, the execution of the oldest command of an instance that is on its way, the arrival of
its oldest reply, or time that goes by. -/
inductive Label (ι : Type) where
  | call (i : ι) (call : Call)
  | execute (i : ι) (fault : Fault)
  | reply (i : ι)
  | elapse (ms : ℕ)
deriving DecidableEq

/-- A call, up to the command it awaits. -/
def Instance.call (s : Instance) : Call → Instance
  | .startRenewLoop => s.startRenewLoop
  | .tick => s.tick
  | .stopRenewLoop => s.stopRenewLoop (.stop s.starts)
  | .tryAcquire => s.tryAcquire .direct
  | .renew => s.renew .direct
  | .release => s.release .direct

namespace Election

variable {ι : Type}

/-- No lease, and no loop started. -/
def init (ι : Type) : Election ι := ⟨0, none, fun _ => .init⟩

/-- Whose id the lease key holds. -/
def holder (c : Election ι) : Option ι := c.lease.map Lease.holder

/-- `isLeader`. -/
def isLeader (c : Election ι) (i : ι) : Prop := (c.instances i).leader = true

instance (c : Election ι) (i : ι) : Decidable (c.isLeader i) := inferInstanceAs (Decidable (_ = _))

/-- A lease that has expired is gone. -/
def elapse (c : Election ι) (ms : ℕ) : Election ι :=
  { c with
    now := c.now + ms
    lease := c.lease.filter fun l => c.now + ms < l.expiresAt }

variable [DecidableEq ι]

/-- Change one instance. -/
def onInstance (c : Election ι) (i : ι) (f : Instance → Instance) : Election ι :=
  { c with instances := Function.update c.instances i (f (c.instances i)) }

/-- Redis executes a command of the instance `i`. -/
def execute (leaseTtlMs : ℕ) (c : Election ι) (i : ι) (fault : Fault) : Election ι :=
  match (c.instances i).sent with
  | [] => c
  | request :: rest =>
    let result := request.command.exec leaseTtlMs c.now i c.lease
    let answer (reply : Reply) (s : Instance) : Instance :=
      { s with sent := rest, replies := s.replies ++ [(request, reply)] }
    match fault with
    | .none => { c.onInstance i (answer (.ok result.1)) with lease := result.2 }
    | .before => c.onInstance i (answer .error)
    | .after => { c.onInstance i (answer .error) with lease := result.2 }

/-- The oldest reply reaches the instance `i`. -/
def reply (c : Election ι) (i : ι) : Election ι :=
  match (c.instances i).replies with
  | [] => c
  | (request, reply) :: rest =>
    c.onInstance i fun s => { s with replies := rest }.resume request reply

/-- One step. -/
def step (leaseTtlMs : ℕ) (c : Election ι) : Label ι → Election ι
  | .call i call => c.onInstance i fun s => s.call call
  | .execute i fault => c.execute leaseTtlMs i fault
  | .reply i => c.reply i
  | .elapse ms => c.elapse ms

/-! ## 4. The lease is its holder's -/

/-- A step in which Redis executes a command of the instance `i`, or fails to. -/
def Executes (c : Election ι) (l : Label ι) (i : ι) (command : Command) : Prop :=
  ∃ fault caller rest, l = .execute i fault ∧ (c.instances i).sent = ⟨command, caller⟩ :: rest

/-- A step in which the lease expires. -/
def Expires (c : Election ι) (l : Label ι) : Prop :=
  ∃ ms lease, l = .elapse ms ∧ c.lease = some lease ∧ lease.expiresAt ≤ c.now + ms

/-- What a step from `c` to `c'` does to the lease. -/
structure LeaseLaw (leaseTtlMs : ℕ) (c : Election ι) (l : Label ι) (c' : Election ι) : Prop where
  lost : ∀ h, c.holder = some h → c'.holder ≠ some h →
    c'.lease = none ∧ (c.Executes l h .release ∨ c.Expires l)
  extended : ∀ h e e', c.lease = some ⟨h, e⟩ → c'.lease = some ⟨h, e'⟩ → e' ≠ e →
    c.Executes l h .renew ∧ e' = c.now + leaseTtlMs
  untouched : ∀ i command, c.Executes l i command → command ≠ .acquire → c.holder ≠ some i →
    c'.lease = c.lease
  taken : c.lease = none → ∀ h e, c'.lease = some ⟨h, e⟩ →
    c.Executes l h .acquire ∧ e = c.now + leaseTtlMs

variable {leaseTtlMs : ℕ} {c : Election ι} {l : Label ι}

omit [DecidableEq ι] in
/-- A step that leaves the lease alone obeys the law. -/
theorem LeaseLaw.of_eq {c' : Election ι} (h : c'.lease = c.lease) : LeaseLaw leaseTtlMs c l c' where
  lost i hi hlost := absurd (by rw [holder, h]; exact hi) hlost
  extended i e e' he he' hne := by
    rw [h, he] at he'
    cases he'
    exact absurd rfl hne
  untouched _ _ _ _ _ := h
  taken hnone i e he := by
    rw [h, hnone] at he
    cases he

/-- A command that is executed obeys it. -/
theorem LeaseLaw.exec {i : ι} {fault : Fault} {request : Request} {rest : List Request}
    (hsent : (c.instances i).sent = request :: rest) {c' : Election ι}
    (h : c'.lease = (request.command.exec leaseTtlMs c.now i c.lease).2) :
    LeaseLaw leaseTtlMs c (.execute i fault) c' := by
  obtain ⟨command, caller⟩ := request
  have hexec : c.Executes (.execute i fault) i command := ⟨fault, caller, rest, rfl, hsent⟩
  have hself : ∀ j command', c.Executes (.execute i fault) j command' → j = i ∧ command' = command := by
    rintro j command' ⟨_, _, _, hl, hs⟩
    obtain ⟨rfl, rfl⟩ := Label.execute.inj hl
    rw [hsent] at hs
    cases hs
    exact ⟨rfl, rfl⟩
  cases hlease : c.lease with
  | none =>
    cases command with
    | acquire =>
      simp only [Command.exec, hlease] at h
      refine ⟨fun j hj => ?_, fun j e e' he => ?_, fun j command' hj hne => ?_, fun _ j e he => ?_⟩
      · simp [holder, hlease] at hj
      · simp [hlease] at he
      · exact absurd (hself j command' hj).2 hne
      · rw [h] at he
        cases he
        exact ⟨hexec, rfl⟩
    | renew | release => exact .of_eq (by rw [h, hlease]; rfl)
  | some lease =>
    obtain ⟨j, e⟩ := lease
    cases command with
    | acquire => exact .of_eq (by rw [h, hlease]; rfl)
    | renew =>
      by_cases hj : j = i
      · subst hj
        simp only [Command.exec, hlease, if_true] at h
        refine ⟨fun k hk hlost => ?_, fun k e₁ e₂ h₁ h₂ _ => ?_, fun k command' hk _ hne => ?_,
          fun hnone => ?_⟩
        · exact absurd (by rw [holder, h]; simpa [holder, hlease] using hk) hlost
        · rw [hlease] at h₁
          rw [h] at h₂
          cases h₁
          cases h₂
          exact ⟨hexec, rfl⟩
        · exact absurd (by rw [(hself k command' hk).1]; simp [holder, hlease]) hne
        · rw [hlease] at hnone
          cases hnone
      · exact .of_eq (by rw [h, hlease]; simp [Command.exec, hj])
    | release =>
      by_cases hj : j = i
      · subst hj
        simp only [Command.exec, hlease, if_true] at h
        refine ⟨fun k hk _ => ?_, fun k e₁ e₂ _ h₂ => ?_, fun k command' hk _ hne => ?_,
          fun hnone => ?_⟩
        · obtain rfl : j = k := by simpa [holder, hlease] using hk
          exact ⟨h, .inl hexec⟩
        · rw [h] at h₂
          cases h₂
        · exact absurd (by rw [(hself k command' hk).1]; simp [holder, hlease]) hne
        · rw [hlease] at hnone
          cases hnone
      · exact .of_eq (by rw [h, hlease]; simp [Command.exec, hj])

omit [DecidableEq ι] in
/-- So does the passing of time. -/
theorem LeaseLaw.elapse (ms : ℕ) : LeaseLaw leaseTtlMs c (.elapse ms) (c.elapse ms) := by
  cases hlease : c.lease with
  | none => exact .of_eq (by simp [Election.elapse, hlease])
  | some lease =>
    by_cases hdue : c.now + ms < lease.expiresAt
    · exact .of_eq (by simp [Election.elapse, hlease, hdue])
    · have hnone : (c.elapse ms).lease = none := by
        simp only [Election.elapse, hlease, Option.filter_eq_none_iff, Option.some.injEq,
          decide_eq_true_eq]
        rintro _ rfl
        exact hdue
      refine ⟨fun h _ _ => ⟨hnone, .inr ⟨ms, lease, rfl, hlease, Nat.not_lt.mp hdue⟩⟩,
        fun h e e' _ he => ?_, fun i command hexec => ?_, fun hfree => ?_⟩
      · rw [hnone] at he
        cases he
      · obtain ⟨_, _, _, hl, _⟩ := hexec
        cases hl
      · rw [hlease] at hfree
        cases hfree

/-- Every step obeys the law, whatever the instances believe. -/
theorem leaseLaw_step (c : Election ι) (l : Label ι) : LeaseLaw leaseTtlMs c l (c.step leaseTtlMs l) := by
  cases l with
  | call i call => exact .of_eq rfl
  | execute i fault =>
    simp only [step, execute]
    split
    · exact .of_eq rfl
    · rename_i request rest hsent
      cases fault with
      | none | after => exact .exec hsent rfl
      | before => exact .of_eq rfl
  | reply i =>
    simp only [step, reply]
    split <;> exact .of_eq rfl
  | elapse ms => exact .elapse ms

/-- **The lease is its holder's.**  In every run, from any state: the holder loses the lease only
by its own release or by its expiry, only the holder's renewal extends it, and a renewal or a
release of anybody else leaves it as it is. -/
theorem lease_owned (leaseTtlMs : ℕ) (c : Election ι) (ls : List (Label ι)) :
    Along (Election.step leaseTtlMs)
      (fun c l => LeaseLaw leaseTtlMs c l (c.step leaseTtlMs l)) c ls ∧
    ∀ h, c.holder = some h → (run (Election.step leaseTtlMs) c ls).holder ≠ some h →
      ∃ l₁ l l₂, ls = l₁ ++ l :: l₂ ∧
        let d := run (Election.step leaseTtlMs) c l₁
        d.holder = some h ∧ (d.Executes l h .release ∨ d.Expires l) := by
  refine ⟨.of_forall leaseLaw_step c ls, fun h hh hlost => ?_⟩
  induction ls generalizing c with
  | nil => exact absurd hh hlost
  | cons l ls ih =>
    by_cases hstep : (c.step leaseTtlMs l).holder = some h
    · obtain ⟨l₁, l', l₂, rfl, hd⟩ := ih _ hstep hlost
      exact ⟨l :: l₁, l', l₂, rfl, hd⟩
    · exact ⟨[], l, ls, rfl, hh, ((leaseLaw_step c l).lost h hh hstep).2⟩

end Election

end SmartDrop.Leader
