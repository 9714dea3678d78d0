/-
# What an instance knows of its lease

`tryAcquire` returns "true if acquired, false if someone else holds it".  Its `SET NX` also fails when the
key holds the instance's own id, and then the instance that holds the lease is told that another one does,
and waits until it expires.  That happens once an instance holds the lease without knowing it: when the
reply to an acquire that took effect is lost, when the renewal of a lease that is held fails, or when a
release does not reach Redis.

`Knows` says that an instance that holds the lease is, or will be by the replies on their way, the leader.
In a run in which none of these three happens every step keeps it, and no election cycle is told of another
holder when there is none (`acquire_truthful`).
-/
import Mathlib
import SmartDrop.Leader.Exclusion

namespace SmartDrop.Leader

open Conc

variable {ι : Type}

/-! ## 1. The law -/

namespace Election

/-- An acquire that Redis answers with `false` finds the id of another instance. -/
def Truthful (c : Election ι) : Label ι → Prop
  | .execute i .none => ∀ request ∈ (c.instances i).sent.head?, request.command = .acquire →
      c.lease ≠ none → ∃ j, j ≠ i ∧ c.holder = some j
  | _ => True

/-- The acquires are those of election cycles, no acquire that takes the lease loses its reply, no renewal
of a lease that is held fails, and no release of one gets lost. -/
def Reliable (c : Election ι) : Label ι → Prop
  | .call _ .tryAcquire => False
  | .execute i .before => ∀ request ∈ (c.instances i).sent.head?, request.command ≠ .acquire →
      c.holder ≠ some i
  | .execute i .after => ∀ request ∈ (c.instances i).sent.head?,
      (request.command = .acquire → c.lease ≠ none) ∧ (request.command = .renew → c.holder ≠ some i)
  | _ => True

instance [Fintype ι] [DecidableEq ι] (c : Election ι) : (l : Label ι) → Decidable (c.Truthful l)
  | .execute i .none => inferInstanceAs (Decidable (∀ request ∈ (c.instances i).sent.head?,
      request.command = .acquire → c.lease ≠ none → ∃ j, j ≠ i ∧ c.holder = some j))
  | .execute _ .before | .execute _ .after | .call .. | .reply _ | .elapse _ => .isTrue trivial

instance [DecidableEq ι] (c : Election ι) : (l : Label ι) → Decidable (c.Reliable l)
  | .call _ .tryAcquire => .isFalse id
  | .execute i .before => inferInstanceAs (Decidable (∀ request ∈ (c.instances i).sent.head?,
      request.command ≠ .acquire → c.holder ≠ some i))
  | .execute i .after => inferInstanceAs (Decidable (∀ request ∈ (c.instances i).sent.head?,
      (request.command = .acquire → c.lease ≠ none) ∧ (request.command = .renew → c.holder ≠ some i)))
  | .call _ .startRenewLoop | .call _ .tick | .call _ .stopRenewLoop | .call _ .renew
  | .call _ .release | .execute _ .none | .reply _ | .elapse _ => .isTrue trivial

end Election

/-! ## 2. What the replies on their way will tell -/

/-- The leadership of an instance once it has heard a reply. -/
def heard (leader : Bool) (r : Request × Reply) : Bool :=
  match r.1.command, r.2 with
  | .acquire, .ok answer => answer
  | .acquire, .error => leader
  | .renew, .ok true => leader
  | .renew, _ => false
  | .release, _ => false

/-- Its leadership once it has heard every reply that is on its way. -/
def Instance.belief (s : Instance) : Bool := s.replies.foldl heard s.leader

/-- What an instance knows, `holds` saying that the lease has its id. -/
structure Knows (s : Instance) (holds : Prop) : Prop where
  callers : ∀ r ∈ s.flight, r.command = .acquire → r.caller = .cycle
  cycles : s.elections = if s.cycleInFlight then 1 else 0
  believes : holds → s.belief = true
  noAcquire : holds → ∀ r ∈ s.sent, r.command ≠ .acquire

namespace Knows

variable {s s' : Instance} {holds holds' : Prop}

theorem init : Knows .init False where
  callers r hr := by cases hr
  cycles := rfl
  believes := False.elim
  noAcquire := False.elim

/-- The lease is lost, or stays. -/
theorem lose (h : Knows s holds) (hle : holds' → holds) : Knows s holds' :=
  ⟨h.callers, h.cycles, h.believes ∘ hle, h.noAcquire ∘ hle⟩

/-- Only the timer, or the count of starts, is another. -/
theorem congr (h : Knows s holds) (hleader : s'.leader = s.leader)
    (hbusy : s'.cycleInFlight = s.cycleInFlight) (hsent : s'.sent = s.sent)
    (hreplies : s'.replies = s.replies) : Knows s' holds := by
  have hflight : s'.flight = s.flight := by rw [Instance.flight, Instance.flight, hsent, hreplies]
  refine ⟨?_, ?_, ?_, ?_⟩
  · rw [hflight]
    exact h.callers
  · rw [Instance.elections, hflight, hbusy]
    exact h.cycles
  · rw [Instance.belief, hleader, hreplies]
    exact h.believes
  · rw [hsent]
    exact h.noAcquire

/-- A renewal or a release that no election cycle sends. -/
theorem send (h : Knows s holds) {command : Command} {caller : Caller} (hcommand : command ≠ .acquire)
    (hcaller : caller ≠ .cycle) : Knows (s.send command caller) holds where
  callers r hr hacq := by
    rw [Instance.flight_send] at hr
    rcases List.mem_append.mp hr with hr | hr
    · exact h.callers r hr hacq
    · rw [List.mem_singleton.mp hr] at hacq
      exact absurd hacq hcommand
  cycles := by
    rw [Instance.elections_send, if_neg hcaller]
    exact h.cycles
  believes := h.believes
  noAcquire hh r hr := by
    rcases List.mem_append.mp hr with hr | hr
    · exact h.noAcquire hh r hr
    · rw [List.mem_singleton.mp hr]
      exact hcommand

theorem resolve (h : Knows s holds) {caller : Caller} (hcaller : caller ≠ .cycle) :
    Knows (s.resolve caller) holds := by
  cases caller with
  | cycle => exact absurd rfl hcaller
  | direct => exact h
  | restart => exact h
  | stop starts =>
    rw [Instance.resolve]
    split
    · exact h.congr rfl rfl rfl rfl
    · exact h

theorem renew (h : Knows s holds) {caller : Caller} (hcaller : caller ≠ .cycle) :
    Knows (s.renew caller) holds := by
  rw [Instance.renew]
  split
  · exact h.send (by decide) hcaller
  · exact h.resolve hcaller

theorem release (h : Knows s holds) {caller : Caller} (hcaller : caller ≠ .cycle) :
    Knows (s.release caller) holds := by
  rw [Instance.release]
  split
  · exact h.send (by decide) hcaller
  · exact h.resolve hcaller

/-- An instance that holds the lease without being the leader waits for the news of it. -/
theorem busy_of_holds (h : Knows s holds) (hh : holds) (hleader : s.leader = false) :
    s.cycleInFlight = true := by
  have hbelief := h.believes hh
  rw [Instance.belief, hleader] at hbelief
  -- the news is a reply to an acquire, which an election cycle sent
  have hnews : ∀ replies : List (Request × Reply), replies.foldl heard false = true →
      ∃ r ∈ replies, r.1.command = .acquire := by
    intro replies
    induction replies with
    | nil => exact fun hfalse => by cases hfalse
    | cons r replies ih =>
      intro hfold
      by_cases hacq : r.1.command = .acquire
      · exact ⟨r, List.mem_cons_self, hacq⟩
      · have hstill : heard false r = false := by
          obtain ⟨⟨command, caller⟩, reply⟩ := r
          cases command with
          | acquire => exact absurd rfl hacq
          | renew => rcases reply with (_ | _) | _ <;> rfl
          | release => rfl
        rw [List.foldl_cons, hstill] at hfold
        obtain ⟨r', hr', hacq'⟩ := ih hfold
        exact ⟨r', List.mem_cons_of_mem r hr', hacq'⟩
  obtain ⟨r, hr, hacq⟩ := hnews s.replies hbelief
  have hmem : r.1 ∈ s.flight := List.mem_append_left _ (List.mem_map_of_mem hr)
  have hcount : 0 < s.elections :=
    List.countP_pos_iff.mpr ⟨r.1, hmem, by simpa using h.callers r.1 hmem hacq⟩
  rw [h.cycles] at hcount
  by_contra hbusy
  rw [if_neg hbusy] at hcount
  exact absurd hcount (Nat.lt_irrefl 0)

/-- A command of an election cycle; an acquire only if the lease is not the instance's. -/
theorem sendCycle (h : Knows s holds) (hidle : s.cycleInFlight = false) {command : Command}
    (hcommand : command = .acquire → ¬ holds) :
    Knows ({ s with cycleInFlight := true }.send command .cycle) holds where
  callers r hr hacq := by
    rw [Instance.flight_send] at hr
    rcases List.mem_append.mp hr with hr | hr
    · exact h.callers r hr hacq
    · rw [List.mem_singleton.mp hr]
  cycles := by
    have hnone : Instance.elections { s with cycleInFlight := true } = 0 := by
      have hcycles := h.cycles
      rw [hidle, if_neg Bool.false_ne_true] at hcycles
      exact hcycles
    rw [Instance.elections_send, hnone]
    rfl
  believes := h.believes
  noAcquire hh r hr := by
    rcases List.mem_append.mp hr with hr | hr
    · exact h.noAcquire hh r hr
    · rw [List.mem_singleton.mp hr]
      exact fun hacq => hcommand hacq hh

theorem runElectionCycle_eq (s : Instance) :
    s.runElectionCycle = if s.cycleInFlight then s
      else { s with cycleInFlight := true }.send (if s.leader then .renew else .acquire) .cycle := by
  obtain ⟨leader, timer, busy, starts, stopped, sent, replies⟩ := s
  cases leader <;> cases busy <;> rfl

theorem runElectionCycle (h : Knows s holds) : Knows s.runElectionCycle holds := by
  rw [runElectionCycle_eq]
  cases hidle : s.cycleInFlight with
  | true => exact h
  | false =>
    refine h.sendCycle hidle fun hacq hh => ?_
    cases hleader : s.leader with
    | true =>
      rw [hleader, if_pos rfl] at hacq
      cases hacq
    | false =>
      rw [h.busy_of_holds hh hleader] at hidle
      cases hidle

/-! ## 3. Calls, commands and replies -/

theorem stopRenewLoop (h : Knows s holds) {caller : Caller} (hcaller : caller ≠ .cycle) :
    Knows (s.stopRenewLoop caller) holds :=
  Knows.release (s := { s with renewTimer := false }) (h.congr rfl rfl rfl rfl) hcaller

theorem startRenewLoop (h : Knows s holds) : Knows s.startRenewLoop holds := by
  rw [Instance.startRenewLoop]
  split
  · exact h
  · have hrestart : Knows (s.stopRenewLoop .restart) holds := h.stopRenewLoop (by decide)
    have hcycle : Knows (Instance.runElectionCycle { s.stopRenewLoop .restart with
        starts := (s.stopRenewLoop .restart).starts + 1, stopped := false }) holds :=
      Knows.runElectionCycle (hrestart.congr rfl rfl rfl rfl)
    exact hcycle.congr rfl rfl rfl rfl

theorem call (h : Knows s holds) {call : Call} (hcall : call ≠ .tryAcquire) :
    Knows (s.call call) holds := by
  cases call with
  | startRenewLoop => exact h.startRenewLoop
  | tick =>
    rw [Instance.call, Instance.tick]
    split
    · exact h.runElectionCycle
    · exact h
  | stopRenewLoop => exact h.stopRenewLoop Caller.noConfusion
  | tryAcquire => exact absurd rfl hcall
  | renew => exact h.renew (by decide)
  | release => exact h.release (by decide)

/-- A reply is sent back. -/
theorem answer (h : Knows s holds) {request : Request} {rest : List Request}
    (hsent : s.sent = request :: rest) {reply : Reply}
    (hnews : holds' → heard s.belief (request, reply) = true)
    (hfree : holds' → ∀ r ∈ rest, r.command ≠ .acquire) :
    Knows { s with sent := rest, replies := s.replies ++ [(request, reply)] } holds' where
  callers := by
    rw [Sound.flight_answer hsent]
    exact h.callers
  cycles := by
    rw [Instance.elections, Sound.flight_answer hsent]
    exact h.cycles
  believes hh := by
    rw [Instance.belief, List.foldl_append]
    exact hnews hh
  noAcquire := hfree

/-- The other commands on their way when an acquire is executed are no acquires. -/
theorem rest_of_acquire (h : Knows s holds) {request : Request} {rest : List Request}
    (hsent : s.sent = request :: rest) (hacq : request.command = .acquire) :
    ∀ r ∈ rest, r.command ≠ .acquire := by
  intro r hr hracq
  have hflight : s.flight = s.replies.map Prod.fst ++ request :: rest := by
    rw [Instance.flight, hsent]
  have hfirst : request.caller = .cycle :=
    h.callers request (by rw [hflight]; exact List.mem_append_right _ List.mem_cons_self) hacq
  have hsecond : r.caller = .cycle :=
    h.callers r (by rw [hflight]; exact List.mem_append_right _ (List.mem_cons_of_mem _ hr)) hracq
  have htwo : 2 ≤ s.elections := by
    have hrest : 0 < rest.countP fun r => decide (r.caller = .cycle) :=
      List.countP_pos_iff.mpr ⟨r, hr, by simpa using hsecond⟩
    rw [Instance.elections, hflight, List.countP_append, List.countP_cons, hfirst]
    simp only [decide_true, if_true]
    omega
  rw [h.cycles] at htwo
  split at htwo <;> omega

theorem resume_eq (s : Instance) (request : Request) (reply : Reply) :
    s.resume request reply =
      { s with leader := heard s.leader (request, reply) }.resolve request.caller := by
  obtain ⟨command, caller⟩ := request
  cases command with
  | acquire => cases reply <;> rfl
  | renew => rcases reply with (_ | _) | _ <;> rfl
  | release => cases reply <;> rfl

/-- A reply is heard. -/
theorem reply (h : Knows s holds) {request : Request} {reply : Reply} {rest : List (Request × Reply)}
    (hreplies : s.replies = (request, reply) :: rest) :
    Knows ({ s with replies := rest }.resume request reply) holds := by
  have hflight : s.flight = request :: (rest.map Prod.fst ++ s.sent) := by
    rw [Instance.flight, hreplies]
    rfl
  have hcount : s.elections = (rest.map Prod.fst ++ s.sent).countP (fun r => decide (r.caller = .cycle)) +
      if request.caller = .cycle then 1 else 0 := by
    rw [Instance.elections, hflight, List.countP_cons]
    simp only [decide_eq_true_eq]
  -- all but the election that may end with this reply
  have hheard : ∀ busy : Bool, (rest.map Prod.fst ++ s.sent).countP
        (fun r => decide (r.caller = .cycle)) = (if busy then 1 else 0) →
      Knows { s with replies := rest, leader := heard s.leader (request, reply), cycleInFlight := busy }
        holds := by
    intro busy hbusy
    refine ⟨fun r hr => h.callers r ?_, hbusy, fun hh => ?_, h.noAcquire⟩
    · rw [hflight]
      exact List.mem_cons_of_mem request hr
    · have hbelief := h.believes hh
      rw [Instance.belief, hreplies] at hbelief
      exact hbelief
  rw [resume_eq]
  by_cases hcaller : request.caller = .cycle
  · rw [hcaller]
    refine hheard false ?_
    rw [hcaller, if_pos rfl, h.cycles] at hcount
    rw [if_neg Bool.false_ne_true]
    split at hcount <;> omega
  · refine resolve ?_ hcaller
    refine hheard s.cycleInFlight ?_
    rw [if_neg hcaller, h.cycles] at hcount
    exact hcount.symm

end Knows

/-! ## 4. Elections -/

namespace Election

variable {c : Election ι}

/-- Every instance knows of its lease. -/
def Informed (c : Election ι) : Prop := ∀ i, Knows (c.instances i) (c.holder = some i)

theorem informed_init : (Election.init ι).Informed := fun i =>
  Knows.init.lose fun h => by cases h

/-- An instance that is to acquire the lease does not hold it. -/
theorem Informed.truthful (h : c.Informed) (l : Label ι) : c.Truthful l := by
  cases l with
  | execute i fault =>
    cases fault with
    | none =>
      intro request hrequest hacq hlease
      obtain ⟨lease, hlease⟩ := Option.ne_none_iff_exists'.mp hlease
      refine ⟨lease.holder, fun hself => ?_, by rw [holder, hlease]; rfl⟩
      have hholds : c.holder = some i := by rw [holder, hlease, ← hself]; rfl
      exact (h i).noAcquire hholds request (List.mem_of_mem_head? hrequest) hacq
    | before | after => trivial
  | call | reply | elapse => trivial

variable [DecidableEq ι] {leaseTtlMs : ℕ}

theorem Informed.move (h : c.Informed) {c' : Election ι} (i : ι)
    (hothers : ∀ j, j ≠ i → c'.instances j = c.instances j)
    (hholder : ∀ j, j ≠ i → c'.holder = some j → c.holder = some j)
    (hself : Knows (c'.instances i) (c'.holder = some i)) : c'.Informed := by
  intro j
  by_cases hji : j = i
  · subst hji
    exact hself
  · rw [hothers j hji]
    exact (h j).lose (hholder j hji)

/-- An instance has the lease after its command by an acquire, or it had the lease and keeps it. -/
theorem exec_holder {command : Command} {now : ℕ} {i : ι} {lease : Option (Lease ι)}
    (h : (command.exec leaseTtlMs now i lease).2.map Lease.holder = some i) :
    command = .acquire ∧ lease = none ∨ lease.map Lease.holder = some i ∧ command ≠ .release := by
  cases lease with
  | none =>
    cases command with
    | acquire => exact Or.inl ⟨rfl, rfl⟩
    | renew | release => cases h
  | some lease =>
    cases command with
    | acquire => exact Or.inr ⟨h, by decide⟩
    | renew =>
      by_cases hself : lease.holder = i
      · exact Or.inr ⟨congrArg some hself, by decide⟩
      · rw [Command.exec, if_neg hself] at h
        exact absurd (Option.some.inj h) hself
    | release =>
      by_cases hself : lease.holder = i
      · rw [Command.exec, if_pos hself] at h
        cases h
      · rw [Command.exec, if_neg hself] at h
        exact absurd (Option.some.inj h) hself

variable {i : ι} {request : Request} {rest : List Request}

/-- The answer to a command that does not fail is news of what it did. -/
theorem Informed.answered (h : c.Informed) (hsent : (c.instances i).sent = request :: rest) :
    Knows { c.instances i with
        sent := rest
        replies := (c.instances i).replies ++
          [(request, .ok (request.command.exec leaseTtlMs c.now i c.lease).1)] }
      ((request.command.exec leaseTtlMs c.now i c.lease).2.map Lease.holder = some i) := by
  have hfirst : request ∈ (c.instances i).sent := by
    rw [hsent]
    exact List.mem_cons_self
  refine (h i).answer hsent (fun hholds => ?_) fun hholds => ?_
  · rcases exec_holder hholds with ⟨hacq, hnone⟩ | ⟨hheld, hkeeps⟩
    · rw [heard, hacq, hnone]
      rfl
    · cases hcommand : request.command with
      | acquire => exact absurd hcommand ((h i).noAcquire hheld request hfirst)
      | release => exact absurd hcommand hkeeps
      | renew =>
        obtain ⟨lease, hlease, hself⟩ := Option.map_eq_some_iff.mp hheld
        rw [heard, hcommand, hlease, Command.exec, if_pos hself]
        exact (h i).believes hheld
  · rcases exec_holder hholds with ⟨hacq, -⟩ | ⟨hheld, -⟩
    · exact (h i).rest_of_acquire hsent hacq
    · intro r hr
      refine (h i).noAcquire hheld r ?_
      rw [hsent]
      exact List.mem_cons_of_mem request hr

omit [DecidableEq ι] in
/-- An error is news to an instance that does not have the lease. -/
theorem Informed.failed (h : c.Informed) (hsent : (c.instances i).sent = request :: rest)
    {lease : Option (Lease ι)} (hfree : lease.map Lease.holder ≠ some i) :
    Knows { c.instances i with
        sent := rest
        replies := (c.instances i).replies ++ [(request, .error)] }
      (lease.map Lease.holder = some i) :=
  (h i).answer hsent (fun hholds => absurd hholds hfree) fun hholds => absurd hholds hfree

theorem Informed.execute (h : c.Informed) {fault : Fault} (hrel : c.Reliable (.execute i fault)) :
    (c.execute leaseTtlMs i fault).Informed := by
  rw [Election.execute]
  split
  · exact h
  · rename_i request rest hsent
    have hhead : request ∈ (c.instances i).sent.head? := by
      rw [hsent]
      rfl
    have hfirst : request ∈ (c.instances i).sent := List.mem_of_mem_head? hhead
    cases fault with
    | none =>
      refine h.move i (fun j hj => by simp [onInstance, hj]) (fun j hj => (holder_exec hj).mp) ?_
      simp only [onInstance, Function.update_self]
      exact h.answered hsent
    | before =>
      have hfree : c.lease.map Lease.holder ≠ some i := by
        intro hheld
        exact hrel request hhead ((h i).noAcquire hheld request hfirst) hheld
      refine h.move i (fun j hj => by simp [onInstance, hj]) (fun _ _ => id) ?_
      simp only [onInstance, Function.update_self]
      exact h.failed hsent hfree
    | after =>
      obtain ⟨hgranted, hrenewed⟩ := hrel request hhead
      have hfree : (request.command.exec leaseTtlMs c.now i c.lease).2.map Lease.holder ≠ some i := by
        intro hholds
        rcases exec_holder hholds with ⟨hacq, hnone⟩ | ⟨hheld, hkeeps⟩
        · exact hgranted hacq hnone
        · cases hcommand : request.command with
          | acquire => exact (h i).noAcquire hheld request hfirst hcommand
          | renew => exact hrenewed hcommand hheld
          | release => exact hkeeps hcommand
      refine h.move i (fun j hj => by simp [onInstance, hj]) (fun j hj => (holder_exec hj).mp) ?_
      simp only [onInstance, Function.update_self]
      exact h.failed hsent hfree

theorem Informed.step (h : c.Informed) {l : Label ι} (hrel : c.Reliable l) :
    (c.step leaseTtlMs l).Informed := by
  cases l with
  | call i call =>
    refine h.move i (fun j hj => by simp [Election.step, onInstance, hj]) (fun _ _ => id) ?_
    simp only [Election.step, onInstance, Function.update_self]
    refine (h i).call ?_
    rintro rfl
    exact hrel
  | execute i fault => exact h.execute hrel
  | reply i =>
    rw [Election.step, Election.reply]
    split
    · exact h
    · rename_i request reply rest hreplies
      refine h.move i (fun j hj => by simp [onInstance, hj]) (fun _ _ => id) ?_
      simp only [onInstance, Function.update_self]
      exact (h i).reply hreplies
  | elapse ms =>
    intro i
    refine (h i).lose fun hheld => ?_
    obtain ⟨lease, hlease, hself⟩ := Option.map_eq_some_iff.mp hheld
    rw [holder, (Option.filter_eq_some_iff.mp hlease).1]
    exact congrArg some hself

/-- **An instance is never told that another one holds its own lease**, in any run in which no acquire that
takes the lease loses its reply, no renewal of a held lease fails and no release of one gets lost. -/
theorem acquire_truthful (leaseTtlMs : ℕ) (ls : List (Label ι))
    (hrel : Along (Election.step leaseTtlMs) Reliable (.init ι) ls) :
    Along (Election.step leaseTtlMs) Truthful (.init ι) ls := by
  refine Along.of_inv (I := Informed) ?_ informed_init hrel
  exact fun c l h hl => ⟨h.step hl, h.truthful l⟩

/-- The first instance takes the lease, and a renewal that comes after its expiry fails; the second one has
it by then. -/
def lateRenewal : List (Label Bool) :=
  [.call false .startRenewLoop, .execute false .none, .reply false, .call true .startRenewLoop,
    .elapse 15000, .execute true .none, .reply true, .call false .tick, .execute false .before, .reply false,
    .call false .tick, .execute false .none, .reply false]

theorem acquire_truthful_lateRenewal :
    Along (Election.step 15000) Truthful (.init Bool) lateRenewal :=
  acquire_truthful 15000 lateRenewal (by decide +kernel)

/-- The acquire takes the lease, its reply is lost, and the next one finds the instance's own id. -/
theorem locks_itself_out :
    ¬ ∀ ls : List (Label Bool), (∀ l ∈ ls, ∀ i, l ≠ .call i .tryAcquire) →
      Along (Election.step 15000) Truthful (.init Bool) ls := by
  intro h
  exact absurd (h [.call false .startRenewLoop, .execute false .after, .reply false, .call false .tick,
    .execute false .none] (by decide)) (by decide +kernel)

end Election

end SmartDrop.Leader
