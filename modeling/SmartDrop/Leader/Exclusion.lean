/-
# One leader

`Sound` is what holds of one instance between any two steps of election cycles and
`stopRenewLoop` calls: its leadership, or the news of it, goes with the lease, and at most one
election command is on its way, an acquire being the last of its commands.  It survives every
step but three.  The first two are a stop that overtakes a successful acquire: it finds the
instance no leader, releases nothing and resolves, and then the news arrives.  In the third one an
instance learns that it has the lease while the former leader, whose release Redis has executed,
still awaits the reply to it and says that it is the leader.

These are exactly the steps that break mutual exclusion (`exclusive_iff_orderly`).
-/
import SmartDrop.Leader.Election
import Mathlib.Data.Fintype.Basic
import Mathlib.Tactic.CasesM

namespace SmartDrop.Leader

open Conc

variable {ι : Type}

/-! ## 1. What is on its way -/

namespace Instance

/-- The commands that the instance awaits replies to, in order. -/
def flight (s : Instance) : List Request := s.replies.map Prod.fst ++ s.sent

/-- Redis has granted an acquire, and the reply is on its way. -/
def winning (s : Instance) : Bool :=
  s.replies.any fun r => r.1.command = .acquire && r.2 = .ok true

/-- The reply to a release is awaited. -/
def releasing (s : Instance) : Bool := s.flight.any fun r => r.command = .release

/-- An acquire is on its way. -/
def acquiring (s : Instance) : Bool := s.flight.any fun r => r.command = .acquire

/-- How many election commands are on their way. -/
def elections (s : Instance) : ℕ := s.flight.countP fun r => r.caller = .cycle

@[simp] theorem flight_send (s : Instance) (command : Command) (caller : Caller) :
    (s.send command caller).flight = s.flight ++ [⟨command, caller⟩] := by
  simp [flight, send]

theorem elections_send (s : Instance) (command : Command) (caller : Caller) :
    (s.send command caller).elections = s.elections + if caller = .cycle then 1 else 0 := by
  simp [elections, List.countP_append, List.countP_cons]

theorem acquiring_send (s : Instance) (command : Command) (caller : Caller) :
    (s.send command caller).acquiring = (s.acquiring || decide (command = .acquire)) := by
  simp [acquiring]

theorem releasing_send (s : Instance) (command : Command) (caller : Caller) :
    (s.send command caller).releasing = (s.releasing || decide (command = .release)) := by
  simp [releasing]

theorem acquiring_of_winning {s : Instance} (h : s.winning = true) : s.acquiring = true := by
  simp only [winning, List.any_eq_true, Bool.and_eq_true, decide_eq_true_eq] at h
  obtain ⟨r, hr, hcommand, -⟩ := h
  simp only [acquiring, List.any_eq_true, decide_eq_true_eq]
  exact ⟨r.1, List.mem_append_left _ (List.mem_map_of_mem hr), hcommand⟩

end Instance

/-! ## 2. The law -/

/-- Election cycles and stops, whose commands do not fail. -/
def Label.OfCycles : Label ι → Prop
  | .call _ .tryAcquire | .call _ .renew | .call _ .release => False
  | .execute _ fault => fault = .none
  | _ => True

namespace Election

/-- The lease does not expire while the renew loop of its holder is running. -/
def OnTime (c : Election ι) : Label ι → Prop
  | .elapse ms => ∀ lease ∈ c.lease, lease.expiresAt ≤ c.now + ms →
      (c.instances lease.holder).renewTimer = false
  | _ => True

/-- At most one instance says that it is the leader, and one whose `stopRenewLoop` has resolved,
with no start since, does not, and does not hold the lease. -/
structure Exclusive (c : Election ι) : Prop where
  one : ∀ i j, c.isLeader i → c.isLeader j → i = j
  stopped : ∀ i, (c.instances i).stopped = true → ¬ c.isLeader i ∧ c.holder ≠ some i

/-- No stop overtakes a successful acquire: none is called while the news of one is on its way,
and none is granted to an instance whose loop is not running.  And an instance learns that it is
the leader only when no other leader awaits the reply to its release. -/
def Orderly (c : Election ι) : Label ι → Prop
  | .call i .stopRenewLoop => (c.instances i).winning = false
  | .execute i _ => ∀ r ∈ (c.instances i).sent.head?, r.command = .acquire → c.lease = none →
      (c.instances i).renewTimer = true
  | .reply i => ∀ r ∈ (c.instances i).replies.head?, r.1.command = .acquire → r.2 = .ok true →
      ∀ j, j ≠ i → ¬ (c.isLeader j ∧ (c.instances j).releasing = true)
  | _ => True

end Election

instance (l : Label ι) : Decidable l.OfCycles := by
  cases l with
  | call i call => cases call <;> unfold Label.OfCycles <;> infer_instance
  | _ => unfold Label.OfCycles; infer_instance

namespace Election

instance (c : Election ι) (l : Label ι) : Decidable (c.OnTime l) := by
  cases l <;> unfold OnTime <;> infer_instance

instance [Fintype ι] [DecidableEq ι] (c : Election ι) (l : Label ι) : Decidable (c.Orderly l) := by
  cases l with
  | call i call => cases call <;> unfold Orderly <;> infer_instance
  | _ => unfold Orderly; infer_instance

end Election

/-! ## 3. What holds of an instance -/

/-- The state of an instance between two steps, `holds` saying that the lease has its id. -/
structure Sound (s : Instance) (holds : Prop) : Prop where
  kinds : ∀ r ∈ s.flight, r = ⟨.acquire, .cycle⟩ ∨ r = ⟨.renew, .cycle⟩ ∨
    ∃ caller, caller ≠ .cycle ∧ r = ⟨.release, caller⟩
  cycles : s.elections = if s.cycleInFlight then 1 else 0
  last : ∀ a r b, s.flight = a ++ r :: b → r.command = .acquire → b = []
  follower : s.acquiring = true → s.leader = false
  answered : ∀ r ∈ s.replies, r.2 ≠ .error
  held : s.leader = true → s.releasing = true ∨ (s.renewTimer = true ∧ holds)
  winner : s.winning = true → s.renewTimer = true ∧ holds ∧ s.sent = []
  known : holds → s.leader = true ∨ s.winning = true
  refused : ∀ r ∈ s.replies, r.1.command = .renew → r.2 = .ok false → ¬ holds
  released : ∀ r ∈ s.replies, r.1.command = .release → holds → s.winning = true
  epochs : ∀ starts, ⟨.release, .stop starts⟩ ∈ s.flight → starts ≤ s.starts ∧
    (starts = s.starts → s.renewTimer = false)
  overtaken : s.acquiring = true → s.renewTimer = false → s.stopped = true
  idle : s.stopped = true → s.renewTimer = false ∧ s.leader = false ∧ ¬ holds

namespace Sound

theorem init : Sound .init False := by
  constructor <;> simp [Instance.init, Instance.flight, Instance.acquiring, Instance.winning,
    Instance.elections]

variable {s : Instance} {holds : Prop}

/-- The lease can be lost by time alone where the loop does not run. -/
theorem lose {holds' : Prop} (h : Sound s holds) (hle : holds' → holds)
    (htimer : holds → ¬ holds' → s.renewTimer = false) : Sound s holds' where
  kinds := h.kinds
  cycles := h.cycles
  last := h.last
  follower := h.follower
  answered := h.answered
  held hleader := by
    rcases h.held hleader with hrel | ⟨ht, hh⟩
    · exact .inl hrel
    · refine .inr ⟨ht, by_contra fun hlost => ?_⟩
      simp [htimer hh hlost] at ht
  winner hwin := by
    obtain ⟨ht, hh, hsent⟩ := h.winner hwin
    refine ⟨ht, by_contra fun hlost => ?_, hsent⟩
    simp [htimer hh hlost] at ht
  known hh := h.known (hle hh)
  refused r hr hc ha hh := h.refused r hr hc ha (hle hh)
  released r hr hc hh := h.released r hr hc (hle hh)
  epochs := h.epochs
  overtaken := h.overtaken
  idle hstop := by
    obtain ⟨ht, hl, hh⟩ := h.idle hstop
    exact ⟨ht, hl, fun hh' => hh (hle hh')⟩

theorem congr {holds' : Prop} (h : Sound s holds) (he : holds' ↔ holds) : Sound s holds' :=
  h.lose he.mp fun hh hlost => absurd (he.mpr hh) hlost

/-! ## 4. Calls -/

/-- A leader has no acquire on its way. -/
theorem not_acquiring (h : Sound s holds) (hleader : s.leader = true) : s.acquiring = false := by
  cases hacq : s.acquiring with
  | false => rfl
  | true =>
    rw [h.follower hacq] at hleader
    cases hleader

theorem not_winning (_h : Sound s holds) (hacq : s.acquiring = false) : s.winning = false := by
  cases hwin : s.winning with
  | false => rfl
  | true =>
    rw [Instance.acquiring_of_winning hwin] at hacq
    cases hacq

/-- What is sent goes behind what is on its way, where there is no acquire. -/
theorem last_send (hacq : s.acquiring = false) (request : Request) :
    ∀ a r b, s.flight ++ [request] = a ++ r :: b → r.command = .acquire → b = [] := by
  intro a r b hsplit hr
  rcases List.eq_nil_or_concat b with rfl | ⟨b', last, rfl⟩
  · rfl
  -- an acquire that is not the last one was on its way before
  have hinit : s.flight ++ [request] = (a ++ r :: b') ++ [last] := by simpa using hsplit
  have hinit : s.flight = a ++ r :: b' := (List.append_inj' hinit rfl).1
  simp only [Instance.acquiring, List.any_eq_false, decide_eq_true_eq] at hacq
  exact absurd hr (hacq r (by simp [hinit]))

/-- A leader sends a command that is not an acquire. -/
theorem sendByLeader (h : Sound s holds) (hleader : s.leader = true) {command : Command}
    {caller : Caller} (timer busy : Bool) (hcommand : command ≠ .acquire)
    (hkind : (⟨command, caller⟩ : Request) = ⟨.renew, .cycle⟩ ∨
      ∃ caller', caller' ≠ .cycle ∧ (⟨command, caller⟩ : Request) = ⟨.release, caller'⟩)
    (hcycles : s.elections + (if caller = .cycle then 1 else 0) = if busy then 1 else 0)
    (hheld : command = .release ∨ s.releasing = true ∨ (timer = true ∧ holds))
    (hepoch : ∀ starts, ⟨.release, .stop starts⟩ ∈ s.flight ++ [⟨command, caller⟩] →
      starts ≤ s.starts ∧ (starts = s.starts → timer = false)) :
    Sound ({ s with renewTimer := timer, cycleInFlight := busy }.send command caller) holds := by
  have hacq := h.not_acquiring hleader
  have hwin := h.not_winning hacq
  have hnone : ({ s with renewTimer := timer, cycleInFlight := busy }.send command
      caller).acquiring = false := by
    rw [Instance.acquiring_send, Bool.or_eq_false_iff]
    exact ⟨hacq, by simp [hcommand]⟩
  constructor
  case kinds =>
    rw [Instance.flight_send]
    intro r hr
    rcases List.mem_append.mp hr with hr | hr
    · exact h.kinds r hr
    · rw [List.mem_singleton.mp hr]
      exact .inr hkind
  case cycles =>
    rw [Instance.elections_send]
    exact hcycles
  case last =>
    rw [Instance.flight_send]
    exact last_send (s := s) hacq _
  case follower => exact fun ha => by simp [hnone] at ha
  case answered => exact h.answered
  case held =>
    intro _
    rw [Instance.releasing_send]
    rcases hheld with hc | hr | hh
    · exact .inl (by simp [hc])
    · exact .inl (Bool.or_eq_true _ _ ▸ .inl hr)
    · exact .inr hh
  case winner => exact fun hw => absurd (show s.winning = true from hw) (by simp [hwin])
  case known => exact fun _ => .inl hleader
  case refused => exact h.refused
  case released => exact h.released
  case epochs =>
    rw [Instance.flight_send]
    exact hepoch
  case overtaken => exact fun ha => by simp [hnone] at ha
  case idle => exact fun hstop => absurd hleader (by simp [(h.idle hstop).2.1])

/-- `stopRenewLoop`, when no acquire has just succeeded; a start calls it only where the loop is
not running. -/
theorem stop (h : Sound s holds) (hwin : s.winning = false) {caller : Caller}
    (hcaller : caller = .stop s.starts ∨ caller = .restart ∧ s.renewTimer = false) :
    Sound (s.stopRenewLoop caller) holds := by
  rw [Instance.stopRenewLoop, Instance.release]
  have hne : caller ≠ .cycle := by
    rcases hcaller with rfl | ⟨rfl, -⟩ <;> exact Caller.noConfusion
  split
  · -- a leader sends its release
    rename_i hleader
    refine h.sendByLeader hleader false s.cycleInFlight (by decide) (.inr ⟨caller, hne, rfl⟩) ?_
      (.inl rfl) fun starts hmem => ?_
    · simpa [hne] using h.cycles
    · rcases List.mem_append.mp hmem with hmem | hmem
      · exact ⟨(h.epochs starts hmem).1, fun _ => rfl⟩
      · rcases hcaller with rfl | ⟨rfl, -⟩
        · cases List.mem_singleton.mp hmem
          exact ⟨Nat.le_refl _, fun _ => rfl⟩
        · cases List.mem_singleton.mp hmem
  · -- anybody else has nothing to release, and does not hold the lease
    rename_i hleader
    have hleader : s.leader = false := by simpa using hleader
    have hholds : ¬ holds := fun hh => by simpa [hleader, hwin] using h.known hh
    have hquiet : ∀ stopped, (s.stopped = true → stopped = true) →
        (s.renewTimer = false ∨ stopped = true) →
        Sound { s with renewTimer := false, stopped } holds := fun stopped hmono htimer =>
      ⟨h.kinds, h.cycles, h.last, h.follower, h.answered,
        fun hl => absurd hl (by simp [hleader]),
        fun hw => absurd (show s.winning = true from hw) (by simp [hwin]), h.known, h.refused,
        h.released, fun starts hmem => ⟨(h.epochs starts hmem).1, fun _ => rfl⟩,
        fun ha _ => htimer.elim (fun ht => hmono (h.overtaken ha ht)) fun hs => hs,
        fun _ => ⟨rfl, hleader, hholds⟩⟩
    rcases hcaller with rfl | ⟨rfl, htimer⟩
    · simpa [Instance.resolve] using hquiet true (fun _ => rfl) (.inr rfl)
    · exact hquiet s.stopped (fun hs => hs) (.inl htimer)

/-- An election command is on its way exactly while a cycle is. -/
theorem not_cycle (h : Sound s holds) (hbusy : s.cycleInFlight = false) :
    s.elections = 0 := by simpa [hbusy] using h.cycles

/-- An acquire is an election command. -/
theorem busy_of_acquiring (h : Sound s holds) (hacq : s.acquiring = true) :
    s.cycleInFlight = true := by
  by_contra hbusy
  have hzero := h.not_cycle (by simpa using hbusy)
  simp only [Instance.acquiring, List.any_eq_true, decide_eq_true_eq] at hacq
  obtain ⟨r, hr, hcommand⟩ := hacq
  rcases h.kinds r hr with rfl | rfl | ⟨caller, -, rfl⟩
  · simpa using List.countP_eq_zero.mp hzero _ hr
  · cases hcommand
  · cases hcommand

/-- `runElectionCycle`, while the loop runs. -/
theorem cycle (h : Sound s holds) (htimer : s.renewTimer = true) :
    Sound s.runElectionCycle holds := by
  rw [Instance.runElectionCycle]
  split
  · exact h
  rename_i hbusy
  have hbusy : s.cycleInFlight = false := by simpa using hbusy
  have hzero := h.not_cycle hbusy
  dsimp only
  split
  · -- a leader renews
    rename_i hleader
    have hleader : s.leader = true := hleader
    rw [Instance.renew, if_pos hleader]
    refine h.sendByLeader hleader s.renewTimer true (by decide) (.inl rfl) ?_ (.inr ?_)
      fun starts hmem => ?_
    · rw [hzero]
      rfl
    · exact h.held hleader
    · rcases List.mem_append.mp hmem with hmem | hmem
      · exact h.epochs starts hmem
      · cases List.mem_singleton.mp hmem
  · -- anybody else tries to acquire
    rename_i hleader
    have hleader : s.leader = false := by simpa using hleader
    have hacq : s.acquiring = false := by
      by_contra hacq
      simp [h.busy_of_acquiring (by simpa using hacq)] at hbusy
    have hwin := h.not_winning hacq
    rw [Instance.tryAcquire]
    constructor
    case kinds =>
      rw [Instance.flight_send]
      intro r hr
      rcases List.mem_append.mp hr with hr | hr
      · exact h.kinds r hr
      · exact .inl (List.mem_singleton.mp hr)
    case cycles =>
      rw [Instance.elections_send]
      change s.elections + 1 = 1
      rw [hzero]
    case last =>
      rw [Instance.flight_send]
      exact last_send (s := s) hacq _
    case follower => exact fun _ => hleader
    case answered => exact h.answered
    case held => exact fun hl => absurd hl (by simpa [Instance.send] using hleader)
    case winner => exact fun hw => absurd (show s.winning = true from hw) (by simp [hwin])
    case known => exact h.known
    case refused => exact h.refused
    case released => exact h.released
    case epochs =>
      rw [Instance.flight_send]
      intro starts hmem
      rcases List.mem_append.mp hmem with hmem | hmem
      · exact h.epochs starts hmem
      · cases List.mem_singleton.mp hmem
    case overtaken => exact fun _ ht => absurd htimer (by simpa [Instance.send] using ht)
    case idle => exact fun hstop => absurd htimer (by simp [(h.idle hstop).1])

/-- A start counts, and sets the interval. -/
theorem restart (h : Sound s holds) (htimer : s.renewTimer = false) :
    Sound { s with starts := s.starts + 1, stopped := false, renewTimer := true } holds where
  kinds := h.kinds
  cycles := h.cycles
  last := h.last
  follower := h.follower
  answered := h.answered
  held hleader := .inl ((h.held hleader).resolve_right fun ht => by simp [htimer] at ht)
  winner hwin := by
    have := (h.winner hwin).1
    simp [htimer] at this
  known := h.known
  refused := h.refused
  released := h.released
  epochs starts hmem := by
    have := (h.epochs starts hmem).1
    dsimp only
    exact ⟨by omega, fun he => by omega⟩
  overtaken _ ht := by cases ht
  idle hstop := by cases hstop

/-- `startRenewLoop`, which stops the loop that is not there first. -/
theorem start (h : Sound s holds) : Sound s.startRenewLoop holds := by
  rw [Instance.startRenewLoop]
  split
  · exact h
  rename_i htimer
  have htimer : s.renewTimer = false := by simpa using htimer
  have hwin : s.winning = false := by
    by_contra hwin
    simp [(h.winner (by simpa using hwin)).1] at htimer
  have hstopped : (s.stopRenewLoop .restart).renewTimer = false := by
    rw [Instance.stopRenewLoop, Instance.release]
    split <;> rfl
  have hcycle := ((h.stop hwin (.inr ⟨rfl, htimer⟩)).restart hstopped).cycle rfl
  -- a cycle does not touch the interval, so it does not matter when this is set
  have hcomm : ∀ t : Instance, { t with renewTimer := true }.runElectionCycle =
      { t.runElectionCycle with renewTimer := true } := by
    intro t
    obtain ⟨leader, timer, busy, starts, stopped, sent, replies⟩ := t
    cases leader <;> cases busy <;> rfl
  have := hcomm { s.stopRenewLoop .restart with
    starts := (s.stopRenewLoop .restart).starts + 1
    stopped := false }
  dsimp only at this ⊢
  rw [← this]
  exact hcycle

/-- The interval fires. -/
theorem tick (h : Sound s holds) : Sound s.tick holds := by
  rw [Instance.tick]
  split
  · rename_i htimer
    exact h.cycle htimer
  · exact h

/-! ## 5. Commands -/

/-- The command that Redis executes next is on its way, and so is its reply afterwards. -/
theorem flight_answer {request : Request} {rest : List Request} (hsent : s.sent = request :: rest)
    (reply : Reply) :
    { s with sent := rest, replies := s.replies ++ [(request, reply)] }.flight = s.flight := by
  simp [Instance.flight, hsent]

/-- While a command is to be executed, no acquire has just succeeded. -/
theorem not_winning_of_sent (h : Sound s holds) {request : Request} {rest : List Request}
    (hsent : s.sent = request :: rest) : s.winning = false := by
  by_contra hwin
  have := (h.winner (by simpa using hwin)).2.2
  rw [hsent] at this
  cases this

variable {ι : Type} [DecidableEq ι] {leaseTtlMs now : ℕ} {i : ι} {lease : Option (Lease ι)}

/-- A reply that is sent back, other than the grant of an acquire. -/
theorem answer {holds' : Prop} (h : Sound s holds) {request : Request} {rest : List Request}
    (hsent : s.sent = request :: rest) {a : Bool} (hgrant : request.command = .acquire → a = false)
    (hle : holds' → holds) (hkept : request.command ≠ .release → holds → holds')
    (hrefused : request.command = .renew → a = false → ¬ holds')
    (hgone : request.command = .release → ¬ holds') :
    Sound { s with sent := rest, replies := s.replies ++ [(request, Reply.ok a)] } holds' := by
  have hflight := flight_answer hsent (.ok a)
  have hwin := h.not_winning_of_sent hsent
  have hwin' : { s with sent := rest, replies := s.replies ++ [(request, Reply.ok a)] }.winning =
      false := by
    simp only [Instance.winning, List.any_append, Bool.or_eq_false_iff]
    refine ⟨hwin, ?_⟩
    by_cases hc : request.command = .acquire <;> simp [hc, hgrant]
  have hmem : request ∈ s.flight := by simp [Instance.flight, hsent]
  constructor
  case kinds => rw [hflight]; exact h.kinds
  case cycles => rw [Instance.elections, hflight]; exact h.cycles
  case last => rw [hflight]; exact h.last
  case follower => rw [Instance.acquiring, hflight]; exact h.follower
  case answered =>
    intro r hr
    rcases List.mem_append.mp hr with hr | hr
    · exact h.answered r hr
    · rw [List.mem_singleton.mp hr]
      exact Reply.noConfusion
  case held =>
    intro hleader
    rw [Instance.releasing, hflight]
    by_cases hc : request.command = .release
    · exact .inl (List.any_eq_true.mpr ⟨request, hmem, by simp [hc]⟩)
    · rcases h.held hleader with hrel | ⟨ht, hh⟩
      · exact .inl hrel
      · exact .inr ⟨ht, hkept hc hh⟩
  case winner => exact fun hw => by simp [hwin'] at hw
  case known =>
    intro hh
    rcases h.known (hle hh) with hl | hw
    · exact .inl hl
    · simp [hwin] at hw
  case refused =>
    intro r hr hc ha
    rcases List.mem_append.mp hr with hr | hr
    · exact fun hh => h.refused r hr hc ha (hle hh)
    · cases List.mem_singleton.mp hr
      exact hrefused hc (by simpa using ha)
  case released =>
    intro r hr hc hh
    rcases List.mem_append.mp hr with hr | hr
    · have := h.released r hr hc (hle hh)
      simp [hwin] at this
    · cases List.mem_singleton.mp hr
      exact absurd hh (hgone hc)
  case epochs => rw [hflight]; exact h.epochs
  case overtaken => rw [Instance.acquiring, hflight]; exact h.overtaken
  case idle =>
    intro hstop
    obtain ⟨ht, hl, hh⟩ := h.idle hstop
    exact ⟨ht, hl, fun hh' => hh (hle hh')⟩

/-- Redis grants an acquire, while the loop runs. -/
theorem grant (h : Sound s holds) {request : Request} {rest : List Request}
    (hsent : s.sent = request :: rest) (hcommand : request.command = .acquire)
    (htimer : s.renewTimer = true) :
    Sound { s with sent := rest, replies := s.replies ++ [(request, Reply.ok true)] } True := by
  have hflight := flight_answer hsent (.ok true)
  have hmem : request ∈ s.flight := by simp [Instance.flight, hsent]
  have hacq : s.acquiring = true := List.any_eq_true.mpr ⟨request, hmem, by simp [hcommand]⟩
  have hrest : rest = [] := h.last (s.replies.map Prod.fst) request rest
    (by simp [Instance.flight, hsent]) hcommand
  have hwin : { s with sent := rest, replies := s.replies ++ [(request, Reply.ok true)] }.winning =
      true := by simp [Instance.winning, hcommand]
  have hleader := h.follower hacq
  constructor
  case kinds => rw [hflight]; exact h.kinds
  case cycles => rw [Instance.elections, hflight]; exact h.cycles
  case last => rw [hflight]; exact h.last
  case follower => exact fun _ => hleader
  case answered =>
    intro r hr
    rcases List.mem_append.mp hr with hr | hr
    · exact h.answered r hr
    · rw [List.mem_singleton.mp hr]
      exact Reply.noConfusion
  case held => exact fun hl => absurd hleader (by simpa using hl)
  case winner => exact fun _ => ⟨htimer, trivial, hrest⟩
  case known => exact fun _ => .inr hwin
  case refused =>
    -- a renewal that was answered before would be a second election command
    intro r hr hc _ _
    rcases List.mem_append.mp hr with hr | hr
    · have hone := h.cycles
      rw [h.busy_of_acquiring hacq, if_pos rfl] at hone
      have hsplit : s.flight = s.replies.map Prod.fst ++ request :: rest := by
        simp [Instance.flight, hsent]
      have hrenew : r.1 = ⟨.renew, .cycle⟩ := by
        rcases h.kinds r.1 (by rw [hsplit]; exact List.mem_append_left _ (List.mem_map_of_mem hr))
          with hk | hk | ⟨_, -, hk⟩
        · simp [hk] at hc
        · exact hk
        · simp [hk] at hc
      have hacquire : request = ⟨.acquire, .cycle⟩ := by
        rcases h.kinds request hmem with hk | hk | ⟨_, -, hk⟩
        · exact hk
        · simp [hk] at hcommand
        · simp [hk] at hcommand
      rw [Instance.elections, hsplit, List.countP_append, hacquire, List.countP_cons] at hone
      have hpos : 0 < (s.replies.map Prod.fst).countP fun r => r.caller = .cycle :=
        List.countP_pos_iff.mpr ⟨r.1, List.mem_map_of_mem hr, by simp [hrenew]⟩
      rw [if_pos (by simp)] at hone
      omega
    · cases List.mem_singleton.mp hr
      rw [hcommand] at hc
      cases hc
  case released => exact fun _ _ _ _ => hwin
  case epochs => rw [hflight]; exact h.epochs
  case overtaken => exact fun _ ht => absurd htimer (by simpa using ht)
  case idle => exact fun hstop => absurd htimer (by simp [(h.idle hstop).1])

/-- **Redis executes the next command**; an acquire that it grants finds the loop running. -/
theorem execute (h : Sound s (lease.map Lease.holder = some i)) {request : Request}
    {rest : List Request} (hsent : s.sent = request :: rest)
    (htimer : request.command = .acquire → lease = none → s.renewTimer = true) :
    Sound { s with
        sent := rest
        replies := s.replies ++ [(request, Reply.ok (request.command.exec leaseTtlMs now i lease).1)] }
      ((request.command.exec leaseTtlMs now i lease).2.map Lease.holder = some i) := by
  cases hcommand : request.command with
  | acquire =>
    cases lease with
    | none => simpa [Command.exec] using h.grant hsent hcommand (htimer hcommand rfl)
    | some l =>
      exact h.answer hsent (fun _ => rfl) (fun hh => hh) (fun _ hh => hh)
        (fun hc => by simp [hcommand] at hc) fun hc => by simp [hcommand] at hc
  | renew =>
    have hkept : ((Command.renew.exec leaseTtlMs now i lease).2.map Lease.holder = some i ↔
        lease.map Lease.holder = some i) ∧
        ((Command.renew.exec leaseTtlMs now i lease).1 = false → lease.map Lease.holder ≠ some i) := by
      cases lease with
      | none => simp [Command.exec]
      | some l => by_cases hl : l.holder = i <;> simp [Command.exec, hl]
    exact h.answer hsent (fun hc => by simp [hcommand] at hc) hkept.1.mp (fun _ => hkept.1.mpr)
      (fun _ ha hh => hkept.2 ha (hkept.1.mp hh)) fun hc => by simp [hcommand] at hc
  | release =>
    have hgone : (Command.release.exec leaseTtlMs now i lease).2.map Lease.holder ≠ some i := by
      cases lease with
      | none => simp [Command.exec]
      | some l => by_cases hl : l.holder = i <;> simp [Command.exec, hl]
    exact h.answer hsent (fun hc => by simp [hcommand] at hc) (fun hh => absurd hh hgone)
      (fun hc => absurd hcommand hc) (fun hc => by simp [hcommand] at hc) fun _ => hgone

/-! ## 6. Replies -/

omit [DecidableEq ι] in
/-- An instance with nothing on its way. -/
theorem of_quiet (hflight : s.flight = []) (hbusy : s.cycleInFlight = false)
    (hleader : s.leader = true ↔ holds) (htimer : holds → s.renewTimer = true)
    (hidle : s.stopped = true → s.renewTimer = false) : Sound s holds := by
  have hreplies : s.replies = [] := by simpa using (List.append_eq_nil_iff.mp hflight).1
  have hsent : s.sent = [] := (List.append_eq_nil_iff.mp hflight).2
  have hacq : s.acquiring = false := by simp [Instance.acquiring, hflight]
  have hwin : s.winning = false := by simp [Instance.winning, hreplies]
  have hfree : s.stopped = true → ¬ holds := fun hstop hh => by
    simpa [hidle hstop] using htimer hh
  refine ⟨by simp [hflight], by simp [Instance.elections, hflight, hbusy], by simp [hflight],
    fun ha => by simp [hacq] at ha, by simp [hreplies],
    fun hl => .inr ⟨htimer (hleader.mp hl), hleader.mp hl⟩, fun hw => by simp [hwin] at hw,
    fun hh => .inl (hleader.mpr hh), by simp [hreplies], by simp [hreplies], by simp [hflight],
    fun ha => by simp [hacq] at ha, fun hstop => ⟨hidle hstop, ?_, hfree hstop⟩⟩
  by_contra hl
  exact hfree hstop (hleader.mp (by simpa using hl))

/-- The reply to a command that is not an acquire is taken off the line. -/
theorem take (h : Sound s holds) {request : Request} {reply : Reply}
    {rest : List (Request × Reply)} (hreplies : s.replies = (request, reply) :: rest)
    (hcommand : request.command ≠ .acquire) (leader busy stopped : Bool)
    (hleader : leader = true → s.leader = true ∧ request.command ≠ .release)
    (hcycles : s.elections = (if request.caller = .cycle then 1 else 0) + if busy then 1 else 0)
    (hknown : holds → leader = true ∨ s.winning = true) (hmono : s.stopped = true → stopped = true)
    (hidle : stopped = true → s.renewTimer = false ∧ leader = false ∧ ¬ holds) :
    Sound { s with leader, cycleInFlight := busy, stopped, replies := rest } holds := by
  have hflight : s.flight = request ::
      { s with leader, cycleInFlight := busy, stopped, replies := rest }.flight := by
    simp [Instance.flight, hreplies]
  have hacq : { s with leader, cycleInFlight := busy, stopped, replies := rest }.acquiring =
      s.acquiring := by simp [Instance.acquiring, hflight, hcommand]
  have hwin : { s with leader, cycleInFlight := busy, stopped, replies := rest }.winning =
      s.winning := by simp [Instance.winning, hreplies, hcommand]
  have hmem : ∀ r ∈ rest, r ∈ s.replies := fun r hr => by
    rw [hreplies]
    exact List.mem_cons_of_mem _ hr
  have hfollower : leader = true → s.acquiring = false := fun hl => by
    exact h.not_acquiring (hleader hl).1
  constructor
  case kinds => exact fun r hr => h.kinds r (by rw [hflight]; exact List.mem_cons_of_mem _ hr)
  case cycles =>
    rw [Instance.elections, hflight, List.countP_cons] at hcycles
    simp only [decide_eq_true_eq] at hcycles
    rw [Instance.elections]
    dsimp only at hcycles ⊢
    omega
  case last =>
    intro a r b hsplit hr
    exact h.last (request :: a) r b (by rw [hflight, hsplit, List.cons_append]) hr
  case follower =>
    intro ha
    rw [hacq] at ha
    by_contra hl
    simp [hfollower (by simpa using hl)] at ha
  case answered => exact fun r hr => h.answered r (hmem r hr)
  case held =>
    intro hl
    obtain ⟨hsl, hc⟩ := hleader hl
    rcases h.held hsl with hrel | hh
    · left
      simpa [Instance.releasing, hflight, hc] using hrel
    · exact .inr hh
  case winner => rw [hwin]; exact h.winner
  case known => rw [hwin]; exact hknown
  case refused => exact fun r hr => h.refused r (hmem r hr)
  case released =>
    rw [hwin]
    exact fun r hr => h.released r (hmem r hr)
  case epochs =>
    exact fun starts hr => h.epochs starts (by rw [hflight]; exact List.mem_cons_of_mem _ hr)
  case overtaken =>
    rw [hacq]
    exact fun ha ht => hmono (h.overtaken ha ht)
  case idle => exact hidle

/-- **A reply arrives**, and the function that awaits it goes on. -/
theorem reply (h : Sound s holds) {request : Request} {reply : Reply}
    {rest : List (Request × Reply)} (hreplies : s.replies = (request, reply) :: rest) :
    Sound ({ s with replies := rest }.resume request reply) holds := by
  have hflight : s.flight = request :: { s with replies := rest }.flight := by
    simp [Instance.flight, hreplies]
  have hmem : request ∈ s.flight := by simp [hflight]
  have hfirst : (request, reply) ∈ s.replies := by simp [hreplies]
  cases reply with
  | error => exact absurd rfl (h.answered _ hfirst)
  | ok answer =>
  rcases h.kinds request hmem with rfl | rfl | ⟨caller, hcaller, rfl⟩
  · -- an acquire is the last of the commands on their way
    have hrest : { s with replies := rest }.flight = [] := h.last [] _ _ hflight rfl
    have hleader := h.follower (List.any_eq_true.mpr ⟨_, hmem, rfl⟩)
    have hnone : rest = [] := by simpa using (List.append_eq_nil_iff.mp hrest).1
    refine of_quiet hrest rfl ?_ ?_ fun hstop => (h.idle hstop).1
    · cases answer with
      | true =>
        have hh := (h.winner (by simp [Instance.winning, hreplies])).2.1
        exact iff_of_true rfl hh
      | false =>
        refine iff_of_false Bool.false_ne_true fun hh => ?_
        have := h.known hh
        simp [hleader, Instance.winning, hreplies, hnone] at this
    · intro hh
      rcases h.known hh with hl | hw
      · simp [hleader] at hl
      · exact (h.winner hw).1
  · have hbusy : s.elections = 1 := by
      have hpos : 0 < s.elections := List.countP_pos_iff.mpr ⟨_, hmem, rfl⟩
      have hle := h.cycles
      split at hle <;> omega
    cases answer with
    | true =>
      exact h.take hreplies (by decide) s.leader false s.stopped
        (fun hl => ⟨hl, by decide⟩) (by simp [hbusy]) h.known (fun hs => hs) h.idle
    | false =>
      have hlost : ¬ holds := h.refused _ hfirst rfl rfl
      exact h.take hreplies (by decide) false false s.stopped
        (fun hl => by cases hl) (by simp [hbusy]) (fun hh => absurd hh hlost) (fun hs => hs)
        fun hs => ⟨(h.idle hs).1, rfl, hlost⟩
  · have hknown : holds → s.winning = true := h.released _ hfirst rfl
    have hcycles : s.elections = (if caller = .cycle then 1 else 0) +
        if s.cycleInFlight then 1 else 0 := by
      rw [h.cycles]
      simp [hcaller]
    have htake := fun stopped => h.take hreplies (by simp) false s.cycleInFlight stopped
      (fun hl => by cases hl) hcycles (fun hh => .inr (hknown hh))
    have hsame := htake s.stopped (fun hs => hs) fun hs => ⟨(h.idle hs).1, rfl, (h.idle hs).2.2⟩
    cases caller with
    | cycle => exact absurd rfl hcaller
    | direct | restart => exact hsame
    | stop starts =>
      obtain ⟨hle, htimer⟩ := h.epochs starts hmem
      by_cases hnow : starts = s.starts
      · -- nothing has started the loop since
        have hresume : { s with replies := rest }.resume ⟨.release, .stop starts⟩ (.ok answer) =
            { s with leader := false, stopped := true, replies := rest } := by
          simp [Instance.resume, Instance.released, Instance.resolve, hnow]
        rw [hresume]
        refine htake true (fun _ => rfl) fun _ => ⟨htimer hnow, rfl, fun hh => ?_⟩
        simp [(h.winner (hknown hh)).1] at htimer
        exact htimer hnow
      · have hresume : { s with replies := rest }.resume ⟨.release, .stop starts⟩ (.ok answer) =
            { s with leader := false, replies := rest } := by
          simp [Instance.resume, Instance.released, Instance.resolve, hnow]
        rw [hresume]
        exact hsame

end Sound

/-! ## 7. Every run -/

namespace Election

variable {ι : Type} {c : Election ι}

/-- Every instance is sound, and there is one leader at most. -/
structure Ruled (c : Election ι) : Prop where
  sound : ∀ i, Sound (c.instances i) (c.holder = some i)
  one : ∀ i j, c.isLeader i → c.isLeader j → i = j

theorem ruled_init : (Election.init ι).Ruled where
  sound _ := Sound.init.congr (by simp [Election.init, holder])
  one i _ h := by simp [Election.init, isLeader, Instance.init] at h

theorem Ruled.exclusive (h : c.Ruled) : c.Exclusive where
  one := h.one
  stopped i hstop := by
    obtain ⟨-, hleader, hholder⟩ := (h.sound i).idle hstop
    exact ⟨by simp [isLeader, hleader], hholder⟩

variable [DecidableEq ι] {leaseTtlMs : ℕ} {i : ι}

/-- A step of the instance `i`, which does not take the lease from anybody else. -/
theorem Ruled.move (h : c.Ruled) {c' : Election ι} (i : ι)
    (hothers : ∀ j, j ≠ i → c'.instances j = c.instances j)
    (hholder : ∀ j, j ≠ i → (c'.holder = some j ↔ c.holder = some j))
    (hsound : Sound (c'.instances i) (c'.holder = some i))
    (hleader : c'.isLeader i → c.isLeader i ∨ ∀ j, j ≠ i → ¬ c.isLeader j) : c'.Ruled := by
  have hback : ∀ j, j ≠ i → c'.isLeader j → c.isLeader j := fun j hj hl => by
    rwa [isLeader, hothers j hj] at hl
  -- a leader other than `i` was one before, and is alone if `i` becomes one
  have hsame : ∀ j, c'.isLeader i → c'.isLeader j → j = i := by
    intro j hi hj
    by_contra hji
    rcases hleader hi with hl | hnone
    · exact hji (h.one j i (hback j hji hj) hl)
    · exact hnone j hji (hback j hji hj)
  refine ⟨fun j => ?_, fun j k hj hk => ?_⟩
  · by_cases hji : j = i
    · subst hji
      exact hsound
    · rw [hothers j hji]
      exact (h.sound j).congr (hholder j hji)
  · by_cases hji : j = i
    · subst hji
      exact (hsame k hj hk).symm
    · by_cases hki : k = i
      · subst hki
        exact hsame j hk hj
      · exact h.one j k (hback j hji hj) (hback k hki hk)

variable {leaseTtlMs : ℕ} {l : Label ι}

theorem leader_runElectionCycle (s : Instance) : s.runElectionCycle.leader = s.leader := by
  obtain ⟨leader, timer, busy, starts, stopped, sent, replies⟩ := s
  cases leader <;> cases busy <;> rfl

theorem leader_resolve (s : Instance) (caller : Caller) : (s.resolve caller).leader = s.leader := by
  cases caller with
  | cycle | direct | restart => rfl
  | stop starts =>
    simp only [Instance.resolve]
    split <;> rfl

theorem leader_stopRenewLoop (s : Instance) (caller : Caller) :
    (s.stopRenewLoop caller).leader = s.leader := by
  rw [Instance.stopRenewLoop, Instance.release]
  split
  · rfl
  · exact leader_resolve _ caller

/-- A call changes nothing before its command is answered. -/
theorem leader_call (s : Instance) {call : Call}
    (hcall : call = .startRenewLoop ∨ call = .tick ∨ call = .stopRenewLoop) :
    (s.call call).leader = s.leader := by
  rcases hcall with rfl | rfl | rfl
  · rw [Instance.call, Instance.startRenewLoop]
    split
    · rfl
    · simp only [leader_runElectionCycle, leader_stopRenewLoop]
  · rw [Instance.call, Instance.tick]
    split
    · exact leader_runElectionCycle s
    · rfl
  · exact leader_stopRenewLoop s _

omit [DecidableEq ι] in
/-- The calls of election cycles and stops. -/
theorem call_ofCycles {i : ι} {call : Call} (h : (Label.call i call).OfCycles) :
    call = .startRenewLoop ∨ call = .tick ∨ call = .stopRenewLoop := by
  cases call with
  | startRenewLoop => exact .inl rfl
  | tick => exact .inr (.inl rfl)
  | stopRenewLoop => exact .inr (.inr rfl)
  | tryAcquire | renew | release => exact h.elim

/-- A command does not take the lease from anybody else. -/
theorem holder_exec {command : Command} {now : ℕ} {i j : ι} {lease : Option (Lease ι)}
    (hj : j ≠ i) : (command.exec leaseTtlMs now i lease).2.map Lease.holder = some j ↔
      lease.map Lease.holder = some j := by
  cases lease with
  | none =>
    cases command with
    | acquire => simp [Command.exec, hj.symm]
    | renew | release => rfl
  | some lease =>
    cases command with
    | acquire => rfl
    | renew | release =>
      by_cases hl : lease.holder = i
      · simp [Command.exec, hl, hj.symm]
      · simp [Command.exec, hl]

/-- A reply makes an instance the leader only if it grants an acquire. -/
theorem leader_resume {s : Instance} {request : Request} {reply : Reply}
    (h : (s.resume request reply).leader = true) :
    s.leader = true ∨ (request.command = .acquire ∧ reply = .ok true) := by
  rw [Instance.resume, leader_resolve] at h
  cases hcommand : request.command with
  | acquire =>
    rw [hcommand] at h
    cases reply with
    | ok answer => exact .inr ⟨rfl, congrArg Reply.ok h⟩
    | error => exact .inl h
  | renew =>
    rw [hcommand] at h
    cases reply with
    | ok answer =>
      cases answer with
      | true => exact .inl h
      | false => cases h
    | error => cases h
  | release =>
    rw [hcommand] at h
    cases reply <;> cases h

/-- **One step** that no stop and no late leader spoils. -/
theorem Ruled.step (h : c.Ruled) (hcycles : l.OfCycles) (htime : c.OnTime l) (horder : c.Orderly l) :
    (c.step leaseTtlMs l).Ruled := by
  cases l with
  | call i call =>
    refine h.move i (fun j hj => by simp [Election.step, onInstance, hj]) (fun _ _ => Iff.rfl) ?_ ?_
    · have hsound : Sound ((c.instances i).call call) (c.holder = some i) := by
        rcases call_ofCycles hcycles with rfl | rfl | rfl
        · exact (h.sound i).start
        · exact (h.sound i).tick
        · exact (h.sound i).stop horder (.inl rfl)
      have hself : (c.step leaseTtlMs (.call i call)).instances i = (c.instances i).call call := by
        simp [Election.step, onInstance]
      rw [hself]
      exact hsound
    · intro hl
      left
      rw [isLeader, ← leader_call (c.instances i) (call_ofCycles hcycles)]
      simpa [isLeader, Election.step, onInstance] using hl
  | execute i fault =>
    obtain rfl : fault = .none := hcycles
    cases hsent : (c.instances i).sent with
    | nil => simpa [Election.step, execute, hsent] using h
    | cons request rest =>
      have hstep : c.step leaseTtlMs (.execute i .none) =
          { c.onInstance i (fun s => { s with
              sent := rest
              replies := s.replies ++
                [(request, Reply.ok (request.command.exec leaseTtlMs c.now i c.lease).1)] }) with
            lease := (request.command.exec leaseTtlMs c.now i c.lease).2 } := by
        simp [Election.step, execute, hsent]
      rw [hstep]
      refine h.move i (fun j hj => by simp [onInstance, hj]) (fun j hj => holder_exec hj) ?_
        fun hl => .inl ?_
      · simp only [onInstance, Function.update_self]
        exact (h.sound i).execute hsent fun hc hfree => horder request (by simp [hsent]) hc hfree
      · simpa [isLeader, onInstance] using hl
  | reply i =>
    cases hreplies : (c.instances i).replies with
    | nil => simpa [Election.step, reply, hreplies] using h
    | cons first rest =>
      obtain ⟨request, reply⟩ := first
      have hstep : c.step leaseTtlMs (.reply i) =
          c.onInstance i (fun s => { s with replies := rest }.resume request reply) := by
        simp [Election.step, Election.reply, hreplies]
      rw [hstep]
      refine h.move i (fun j hj => by simp [onInstance, hj]) (fun _ _ => Iff.rfl) ?_ fun hl => ?_
      · simp only [onInstance, Function.update_self]
        exact (h.sound i).reply hreplies
      · simp only [isLeader, onInstance, Function.update_self] at hl
        rcases leader_resume hl with hl | ⟨hc, ha⟩
        · exact .inl hl
        · -- the lease is `i`'s, so another leader has released it
          refine .inr fun j hj hlj => ?_
          have hnews : (c.instances i).winning = true := by
            simp [Instance.winning, hreplies, hc, ha]
          obtain ⟨-, hi, -⟩ := (h.sound i).winner hnews
          rcases (h.sound j).held hlj with hrel | ⟨-, hheld⟩
          · exact horder (request, reply) (by simp [hreplies]) hc ha j hj ⟨hlj, hrel⟩
          · rw [hi] at hheld
            exact hj (Option.some.inj hheld).symm
  | elapse ms =>
    refine ⟨fun i => (h.sound i).lose (fun hh => ?_) fun hh hlost => ?_, h.one⟩
    · cases hlease : c.lease with
      | none => simp [Election.step, elapse, holder, hlease] at hh
      | some lease =>
        by_cases hdue : c.now + ms < lease.expiresAt
        · simpa [Election.step, elapse, holder, hlease, hdue, Option.filter_some] using hh
        · simp [Election.step, elapse, holder, hlease, hdue, Option.filter_some] at hh
    · cases hlease : c.lease with
      | none => simp [holder, hlease] at hh
      | some lease =>
        have hi : lease.holder = i := by simpa [holder, hlease] using hh
        have hdue : lease.expiresAt ≤ c.now + ms := by
          by_contra hdue
          have hkept : c.now + ms < lease.expiresAt := by omega
          exact hlost (by simpa [Election.step, elapse, holder, hlease, hkept, Option.filter_some] using hi)
        rw [← hi]
        exact htime lease hlease hdue

/-- **A step that one of them spoils** breaks mutual exclusion. -/
theorem Ruled.spoiled (h : c.Ruled) (hcycles : l.OfCycles) (horder : ¬ c.Orderly l) :
    ¬ (c.step leaseTtlMs l).Exclusive := by
  intro hexcl
  cases l with
  | call i call =>
    cases call with
    | stopRenewLoop =>
      -- the lease is granted, and the stop releases nothing
      have hnews : (c.instances i).winning = true := by simpa [Orderly] using horder
      have hleader := (h.sound i).follower (Instance.acquiring_of_winning hnews)
      obtain ⟨-, hholder, -⟩ := (h.sound i).winner hnews
      refine (hexcl.stopped i ?_).2 hholder
      simp [Election.step, onInstance, Instance.call, Instance.stopRenewLoop, Instance.release,
        Instance.resolve, hleader]
    | startRenewLoop | tick => exact horder trivial
    | tryAcquire | renew | release => exact hcycles.elim
  | execute i fault =>
    obtain rfl : fault = .none := hcycles
    simp only [Orderly, not_forall] at horder
    obtain ⟨request, hhead, hc, hfree, htimer⟩ := horder
    obtain ⟨rest, hsent⟩ := List.head?_eq_some_iff.mp hhead
    have hstopped : (c.instances i).stopped = true :=
      (h.sound i).overtaken (List.any_eq_true.mpr ⟨request, by simp [Instance.flight, hsent], by simp [hc]⟩)
        (by simpa using htimer)
    refine (hexcl.stopped i ?_).2 ?_
    · simpa [Election.step, execute, hsent, onInstance] using hstopped
    · simp [Election.step, execute, hsent, hc, hfree, Command.exec, holder]
  | reply i =>
    simp only [Orderly, not_forall, not_not] at horder
    obtain ⟨⟨request, reply⟩, hhead, hc, ha, j, hj, hlj, -⟩ := horder
    obtain ⟨rest, hreplies⟩ := List.head?_eq_some_iff.mp hhead
    dsimp only at hc ha
    subst ha
    refine hj (hexcl.one j i ?_ ?_)
    · simpa [isLeader, Election.step, Election.reply, hreplies, onInstance, hj] using hlj
    · have hmem : request ∈ (c.instances i).flight := by simp [Instance.flight, hreplies]
      have hcycle : request.caller = .cycle := by
        rcases (h.sound i).kinds request hmem with rfl | rfl | ⟨_, -, rfl⟩
        · rfl
        · rfl
        · cases hc
      simp [isLeader, Election.step, Election.reply, hreplies, onInstance, Instance.resume, hc,
        Instance.acquired, hcycle, Instance.resolve]
  | elapse ms => exact horder trivial

/-- **One leader.**  In a run of election cycles and stops of any number of instances, in which no
command fails and no lease expires while its holder's loop runs, mutual exclusion holds in every
state if and only if no stop overtakes a successful acquire and no instance learns that it is the
leader while another leader awaits the reply to its release. -/
theorem exclusive_iff_orderly (leaseTtlMs : ℕ) (ls : List (Label ι))
    (hcycles : ∀ l ∈ ls, l.OfCycles) (htime : Along (Election.step leaseTtlMs) OnTime (.init ι) ls) :
    (∀ l₁ l₂, ls = l₁ ++ l₂ → (run (Election.step leaseTtlMs) (.init ι) l₁).Exclusive) ↔
      Along (Election.step leaseTtlMs) Orderly (.init ι) ls :=
  forall_prefix_iff_of_inv (ψ := fun c l => c.OnTime l ∧ l.OfCycles)
    (fun _ _ h hl horder => h.step hl.2 hl.1 horder) (fun _ h => h.exclusive)
    (fun _ _ h hl horder => h.spoiled hl.2 horder) ruled_init (htime.and_forall hcycles)

/-- One instance becomes the leader and hands over to the other one. -/
def handover : List (Label Bool) :=
  [.call false .startRenewLoop, .execute false .none, .reply false, .call true .startRenewLoop,
    .execute true .none, .reply true, .elapse 5000, .call false .tick, .execute false .none,
    .reply false, .call false .stopRenewLoop, .execute false .none, .reply false, .call true .tick,
    .execute true .none, .reply true]

theorem exclusive_handover : (run (Election.step 15000) (.init Bool) handover).Exclusive :=
  (exclusive_iff_orderly 15000 handover (by decide) (by decide)).mpr (by decide) handover []
    (List.append_nil _).symm

/-- The loop is stopped while its first acquire is on its way: the acquire succeeds, and the
stopped instance is the leader and holds the lease. -/
theorem stop_overtakes : ¬ ∀ ls : List (Label Bool), (∀ l ∈ ls, l.OfCycles) →
    Along (Election.step 15000) OnTime (.init Bool) ls →
    (run (Election.step 15000) (.init Bool) ls).Exclusive := by
  intro h
  have hexcl := h [.call false .startRenewLoop, .call false .stopRenewLoop, .execute false .none,
    .reply false] (by decide) (by decide)
  exact (hexcl.stopped false (by decide)).1 (by decide)

end Election

end SmartDrop.Leader
