/-
# The delivery metrics

A process counts its deliveries in `metrics`, for each webhook and in total.  The counters are
brought up to date by `recordDeliveryEnd`, after each round, with the attempts that the delivery
has had so far.  So the totals add up (`Balanced`), but they count rounds rather than deliveries,
and each retry counts all attempts before it once more.  They say what they seem to say in runs in
which no delivery needs a second round (`metrics_exact`).

A record of the run notes every round, every update of the counters and every write of an outcome,
with the attempt that it belongs to.
-/
import SmartDrop.Webhooks.Attempt
import SmartDrop.Webhooks.Finality
import Mathlib.Algebra.BigOperators.Group.Finset.Basic
import Mathlib.Algebra.BigOperators.Group.Finset.Piecewise

namespace SmartDrop.Webhooks

open Conc dispatcher

/-! ## 1. Counters -/

theorem Counters.ext {a b : Counters} (htotal : a.total = b.total) (hsuccess : a.success = b.success)
    (hfailed : a.failed = b.failed) (hattempts : a.totalAttempts = b.totalAttempts)
    (hlatency : a.totalLatencyMs = b.totalLatencyMs) : a = b := by
  cases a
  cases b
  simp only [Counters.mk.injEq]
  exact ⟨htotal, hsuccess, hfailed, hattempts, hlatency⟩

instance : Zero Counters := ⟨{}⟩

/-- Counters are added one by one. -/
instance : Add Counters where
  add a b := ⟨a.total + b.total, a.success + b.success, a.failed + b.failed,
    a.totalAttempts + b.totalAttempts, a.totalLatencyMs + b.totalLatencyMs⟩

instance : AddCommMonoid Counters where
  add_assoc _ _ _ := Counters.ext (Nat.add_assoc ..) (Nat.add_assoc ..) (Nat.add_assoc ..)
    (Nat.add_assoc ..) (Nat.add_assoc ..)
  zero_add _ := Counters.ext (Nat.zero_add _) (Nat.zero_add _) (Nat.zero_add _) (Nat.zero_add _)
    (Nat.zero_add _)
  add_zero _ := rfl
  add_comm _ _ := Counters.ext (Nat.add_comm ..) (Nat.add_comm ..) (Nat.add_comm ..)
    (Nat.add_comm ..) (Nat.add_comm ..)
  nsmul := nsmulRec

/-- One round, as a count. -/
def Counters.one (success : Bool) (attempts latencyMs : ℕ) : Counters :=
  Counters.add 0 success attempts latencyMs

theorem Counters.add_eq (c : Counters) (success : Bool) (attempts latencyMs : ℕ) :
    c.add success attempts latencyMs = c + .one success attempts latencyMs :=
  Counters.ext rfl (congrArg (c.success + ·) (Nat.zero_add _).symm)
    (congrArg (c.failed + ·) (Nat.zero_add _).symm)
    (congrArg (c.totalAttempts + ·) (Nat.zero_add _).symm)
    (congrArg (c.totalLatencyMs + ·) (Nat.zero_add _).symm)

/-- The total of a process is the number of its successes and failures, and the sum of what it has
counted for each webhook. -/
structure Balanced (p : Process) : Prop where
  outcomes : p.aggregate.total = p.aggregate.success + p.aggregate.failed
  webhooks : ∃ ws : Finset String, (∀ w, (p.deliveries w).isSome ↔ w ∈ ws) ∧
    p.aggregate = ∑ w ∈ ws, (p.deliveries w).getD 0

theorem Balanced.init {p : Process} (h : p.aggregate = {}) (hd : ∀ w, p.deliveries w = none) :
    Balanced p where
  outcomes := by
    rw [h]
    rfl
  webhooks := by
    refine ⟨∅, fun w => ?_, ?_⟩
    · simp [hd w]
    · rw [h]
      rfl

/-- The sum after the counters of one webhook have been set. -/
theorem sum_update {f : String → Option Counters} {ws : Finset String}
    (hws : ∀ w, (f w).isSome ↔ w ∈ ws) (w : String) (c : Counters) :
    ∑ v ∈ insert w ws, (Function.update f w (some ((f w).getD 0 + c)) v).getD 0 =
      (∑ v ∈ ws, (f v).getD 0) + c := by
  have hrest : ∀ v ∈ ws.erase w, (Function.update f w (some ((f w).getD 0 + c)) v).getD 0 =
      (f v).getD 0 := by
    intro v hv
    rw [Function.update_of_ne (Finset.ne_of_mem_erase hv)]
  have hself : (Function.update f w (some ((f w).getD 0 + c)) w).getD 0 = (f w).getD 0 + c := by
    rw [Function.update_self]
    rfl
  rw [← Finset.insert_erase (Finset.mem_insert_self w ws), Finset.erase_insert_eq_erase,
    Finset.sum_insert (Finset.notMem_erase w ws), Finset.sum_congr rfl hrest, hself]
  by_cases hw : w ∈ ws
  · rw [← Finset.add_sum_erase ws _ hw, add_right_comm]
  · have hnone : f w = none := by
      cases hf : f w with
      | none => rfl
      | some c => exact absurd ((hws w).mp (by rw [hf]; rfl)) hw
    rw [hnone, Finset.erase_eq_of_notMem hw, Option.getD_none, zero_add, add_comm]

/-- A webhook with counters is counted; a new one starts from nothing. -/
theorem isSome_update {f : String → Option Counters} {ws : Finset String}
    (hws : ∀ w, (f w).isSome ↔ w ∈ ws) (w : String) (c : Counters) (v : String) :
    (Function.update f w (some c) v).isSome ↔ v ∈ insert w ws := by
  rw [Finset.mem_insert, Function.update_apply]
  split
  · rename_i hv
    simp [hv]
  · rename_i hv
    rw [hws]
    simp [hv]

/-- `recordDeliveryStart`. -/
def Process.started (deliveryId w : String) (p : Process) : Process :=
  { p with
    inFlight := p.inFlight.sadd deliveryId
    deliveries := Function.update p.deliveries w (some ((p.deliveries w).getD {})) }

/-- `recordDeliveryEnd`, in memory. -/
def Process.finished (deliveryId w : String) (success : Bool) (attempts latencyMs : ℕ) (p : Process) :
    Process :=
  { p with
    inFlight := p.inFlight.srem deliveryId
    deliveries := Function.update p.deliveries w
      (some (((p.deliveries w).getD {}).add success attempts latencyMs))
    aggregate := p.aggregate.add success attempts latencyMs }

theorem Balanced.started {p : Process} (h : Balanced p) (deliveryId w : String) :
    Balanced (p.started deliveryId w) := by
  obtain ⟨ws, hws, hsum⟩ := h.webhooks
  refine ⟨h.outcomes, insert w ws, isSome_update hws w _, ?_⟩
  have hupdate := sum_update hws w 0
  rw [add_zero, add_zero] at hupdate
  exact hsum.trans hupdate.symm

theorem Balanced.finished {p : Process} (h : Balanced p) (deliveryId w : String) (success : Bool)
    (attempts latencyMs : ℕ) : Balanced (p.finished deliveryId w success attempts latencyMs) := by
  obtain ⟨ws, hws, hsum⟩ := h.webhooks
  refine ⟨?_, insert w ws, isSome_update hws w _, ?_⟩
  · have houtcomes := h.outcomes
    cases success with
    | true =>
      show p.aggregate.total + 1 = p.aggregate.success + 1 + p.aggregate.failed
      omega
    | false =>
      show p.aggregate.total + 1 = p.aggregate.success + (p.aggregate.failed + 1)
      omega
  · have hupdate := sum_update hws w (.one success attempts latencyMs)
    simp only [Process.finished, Counters.add_eq]
    rw [hsum]
    exact hupdate.symm

/-! ## 2. The record of a run -/

/-- What is noted of an attempt: a round, which is one `POST` or one refusal of the guard, an update
of the counters, and the write of an outcome that settles the delivery. -/
inductive MetricEvent where
  | round
  | counted (webhookId : String) (success : Bool) (attempts latencyMs : ℕ)
  | settled
deriving DecidableEq

/-- The record, the latest event first. -/
abbrev MetricLog (τ : Type) := List (τ × MetricEvent)

/-- A patch that records the outcome of a round as the last one. -/
def DeliveryPatch.Settles (patch : DeliveryPatch) : Prop :=
  patch.attempts.isSome ∧ (patch.status = some .success ∨ patch.status = some .failed)

instance (patch : DeliveryPatch) : Decidable patch.Settles := by
  unfold DeliveryPatch.Settles
  infer_instance

section

variable {τ : Type} (P : Platform) (config : Config) (proc : τ → ℕ) (calls : τ → AttemptCall)

/-- The record after a step. -/
def noteMetrics (i : τ) : Op → Env → Store → MetricLog τ → MetricLog τ
  | .assertPublicTarget url, x, _, h =>
    match assertPublicTarget P url x.lookup with
    | .error _ => (i, .round) :: h
    | .ok _ => h
  | .post _, _, _, h => (i, .round) :: h
  | .recordDeliveryEnd _ webhookId success attempts latencyMs, _, _, h =>
    (i, .counted webhookId success attempts latencyMs) :: h
  | .updateDelivery _ _ patch _, x, _, h =>
    if patch.Settles ∧ x.fault ≠ .before then (i, .settled) :: h else h
  | _, _, _, h => h

/-- Attempts at work, with their record. -/
def meteredMachine : Machine sig τ Env (Store × MetricLog τ) :=
  (attemptMachine P proc calls).observe (noteMetrics P)

/-- Attempts with their record. -/
abbrev MeteredAttempts (τ : Type) := Pool sig (Except Err (Option Delivery)) τ (Store × MetricLog τ)

/-- Every attempt is about to begin. -/
def beginMetered (s : Store) : MeteredAttempts τ :=
  ⟨(s, []), fun i => (attempt P config (calls i).deliveryId (calls i).sequence).prog⟩

/-- What the attempts of one process have counted. -/
def tally (p : ℕ) : MetricLog τ → Counters
  | [] => 0
  | (i, .counted _ success attempts latencyMs) :: h =>
    if proc i = p then (tally p h).add success attempts latencyMs else tally p h
  | _ :: h => tally p h

end

/-- The counters of every process add up, and are what has been counted. -/
structure Metered {τ : Type} (proc : τ → ℕ) (s : Store × MetricLog τ) : Prop where
  balanced : ∀ p, Balanced (s.1.processes p)
  tallied : ∀ p, (s.1.processes p).aggregate = tally proc p s.2

/-- From `s` to `s'`, every process keeps its counters. -/
def SameCounters (s s' : Store) : Prop :=
  ∀ p, (s'.processes p).aggregate = (s.processes p).aggregate ∧
    (s'.processes p).deliveries = (s.processes p).deliveries

theorem SameCounters.of_eq {s s' : Store} (h : s'.processes = s.processes) : SameCounters s s' := by
  intro p
  rw [h]
  exact ⟨rfl, rfl⟩

/-- A change of the cache of one process. -/
theorem SameCounters.onProcess {s : Store} {proc : ℕ} {f : Process → Process}
    (h : ∀ p, (f p).aggregate = p.aggregate ∧ (f p).deliveries = p.deliveries) :
    SameCounters s (s.onProcess proc f) := by
  intro p
  by_cases hp : p = proc
  · subst hp
    simpa [Store.onProcess] using h (s.processes p)
  · simp [Store.onProcess, hp]

/-- Only the two recording functions touch the counters. -/
theorem exec_sameCounters {P : Platform} {op : Op} {d : String} (hop : op.OfAttempt d)
    (hstart : ∀ d w, op ≠ .recordDeliveryStart d w)
    (hend : ∀ d w success attempts latencyMs, op ≠ .recordDeliveryEnd d w success attempts latencyMs)
    (caller : Caller) (x : Env) (s : Store) : SameCounters s (s.exec P caller x op).2 := by
  cases op with
  | recordDeliveryStart d w => exact absurd rfl (hstart d w)
  | recordDeliveryEnd d w success attempts latencyMs => exact absurd rfl (hend d w _ _ _)
  | cachedWebhook id =>
    simp only [Store.exec]
    split
    · exact .of_eq rfl
    · split
      · exact .of_eq rfl
      · exact SameCounters.onProcess (f := fun p =>
          { p with webhookCache := Function.update p.webhookCache id none }) fun p => ⟨rfl, rfl⟩
  | cacheWebhook webhook =>
    exact SameCounters.onProcess (f := fun p =>
      { p with webhookCache := Function.update p.webhookCache webhook.id _ }) fun p => ⟨rfl, rfl⟩
  | assertPublicTarget url =>
    simp only [Store.exec]
    split <;> exact .of_eq rfl
  | post request =>
    simp only [Store.exec]
    split <;> exact .of_eq rfl
  | insertWebhook | sremEvent | saddEvent | setWebhook | deleteWebhook | insertDelivery
  | popDueRetries | claimDelivery | mgetWebhooks | smembersEvent | deliveryIds => exact hop.elim
  | _ => exact .of_eq rfl

theorem Balanced.congr {p p' : Process} (h : Balanced p) (ha : p'.aggregate = p.aggregate)
    (hd : p'.deliveries = p.deliveries) : Balanced p' where
  outcomes := by
    rw [ha]
    exact h.outcomes
  webhooks := by
    rw [ha, hd]
    exact h.webhooks

section

variable {τ : Type} {P : Platform} {proc : τ → ℕ} {calls : τ → AttemptCall}

theorem Metered.congr {s s' : Store × MetricLog τ} (h : Metered proc s)
    (hs : SameCounters s.1 s'.1) (htally : ∀ p, tally proc p s'.2 = tally proc p s.2) :
    Metered proc s' where
  balanced p := (h.balanced p).congr (hs p).1 (hs p).2
  tallied p := by
    rw [(hs p).1, htally, h.tallied]

/-- Events other than counts leave the tally as it is. -/
theorem tally_note {i : τ} {op : Op} (hend : ∀ d w success attempts latencyMs,
    op ≠ .recordDeliveryEnd d w success attempts latencyMs) (x : Env) (s : Store) (h : MetricLog τ)
    (p : ℕ) : tally proc p (noteMetrics P i op x s h) = tally proc p h := by
  cases op with
  | recordDeliveryEnd d w success attempts latencyMs => exact absurd rfl (hend d w _ _ _)
  | assertPublicTarget url =>
    simp only [noteMetrics]
    split <;> rfl
  | updateDelivery id existing patch score =>
    simp only [noteMetrics]
    split <;> rfl
  | _ => rfl

/-- One process changes its counters, and the record with them. -/
theorem Metered.onProcess {s : Store × MetricLog τ} (h : Metered proc s) {i : τ}
    {f : Process → Process} {log : MetricLog τ} (hbalanced : Balanced (f (s.1.processes (proc i))))
    (htally : (f (s.1.processes (proc i))).aggregate = tally proc (proc i) log)
    (hother : ∀ p, p ≠ proc i → tally proc p log = tally proc p s.2) :
    Metered proc (s.1.onProcess (proc i) f, log) := by
  refine ⟨fun p => ?_, fun p => ?_⟩
  · by_cases hp : p = proc i
    · subst hp
      simpa [Store.onProcess] using hbalanced
    · simpa [Store.onProcess, hp] using h.balanced p
  · by_cases hp : p = proc i
    · subst hp
      simpa [Store.onProcess] using htally
    · simpa [Store.onProcess, hp, hother p hp] using h.tallied p

/-- **Every step of an attempt** keeps the counters adding up. -/
theorem Metered.exec {i : τ} {op : Op} {d : String} (hop : op.OfAttempt d) (x : Env)
    {s : Store × MetricLog τ} (h : Metered proc s) :
    Metered proc ((meteredMachine P proc calls).exec i op x s).2 := by
  have hexec : ((meteredMachine P proc calls).exec i op x s).2 =
      (((attemptMachine P proc calls).exec i op x s.1).2, noteMetrics P i op x s.1 s.2) := rfl
  rw [hexec]
  by_cases hstart : ∃ d w, op = .recordDeliveryStart d w
  · obtain ⟨d, w, rfl⟩ := hstart
    exact h.onProcess (f := Process.started d w) ((h.balanced (proc i)).started d w)
      (h.tallied (proc i)) fun p _ => rfl
  by_cases hend : ∃ d w success attempts latencyMs, op = .recordDeliveryEnd d w success attempts latencyMs
  · obtain ⟨d, w, success, attempts, latencyMs, rfl⟩ := hend
    refine h.onProcess (f := Process.finished d w success attempts latencyMs)
      ((h.balanced (proc i)).finished d w success attempts latencyMs) ?_ fun p hp => ?_
    · have htally := congrArg (Counters.add · success attempts latencyMs) (h.tallied (proc i))
      rw [noteMetrics, tally, if_pos rfl]
      exact htally
    · rw [noteMetrics, tally, if_neg (Ne.symm hp)]
  · have hend' : ∀ d w success attempts latencyMs,
        op ≠ .recordDeliveryEnd d w success attempts latencyMs :=
      fun d w success attempts latencyMs heq => hend ⟨d, w, success, attempts, latencyMs, heq⟩
    refine h.congr ?_ fun p => tally_note hend' x s.1 s.2 p
    show SameCounters s.1 ((machine P).exec _ op x s.1).2
    exact machine_store_of (.of_eq rfl) (exec_sameCounters hop
      (fun d w heq => hstart ⟨d, w, heq⟩) hend' _ x s.1)

end

/-! ## 3. Attempts that go straight -/

section

variable {τ : Type} [DecidableEq τ] (P : Platform) (config : Config) (proc : τ → ℕ)
  (calls : τ → AttemptCall)

/-- A round of the delivery has been made. -/
def Rounded (d : String) (h : MetricLog τ) : Prop :=
  ∃ e ∈ h, e.2 = .round ∧ (calls e.1).deliveryId = d

/-- The attempts of which such an event has been noted. -/
def notedOf (kind : MetricEvent → Bool) (h : MetricLog τ) : List τ :=
  (h.filter fun e => kind e.2).map (·.1)

/-- No delivery had two rounds. -/
def SingleRounds (h : MetricLog τ) : Prop :=
  ((notedOf (· = .round) h).map fun i => (calls i).deliveryId).Nodup

/-- What has been noted of the attempt `i`. -/
def own (i : τ) (h : MetricLog τ) : List MetricEvent := (h.filter (·.1 = i)).map (·.2)

/-- A step of the attempt `i` goes straight: it makes no second round of the delivery, puts nothing
off, and does not fail to record the outcome of its round. -/
def Straight (i : τ) (op : Op) (x : Env) (s : Store × MetricLog τ) : Prop :=
  match op with
  | .assertPublicTarget _ | .post _ => ¬ Rounded calls (calls i).deliveryId s.2
  | .scheduleRetry .. => False
  | .getDelivery _ => (i, .round) ∈ s.2 → x.fault = .none
  | .updateDelivery _ _ patch _ => patch.Settles → x.fault ≠ .before
  | _ => True

/-- A delivery that had no round yet has no attempts yet. -/
def Young (s : Store × MetricLog τ) : Prop :=
  ∀ d r, s.1.deliveries d = some r → ¬ Rounded calls d s.2 → r.attempts = 0

/-- What every step of an attempt does. -/
structure Grown (s s' : Store × MetricLog τ) : Prop where
  rounded : ∀ d, Rounded calls d s.2 → Rounded calls d s'.2
  stored : ∀ d, s.1.deliveries d ≠ none → s'.1.deliveries d ≠ none
  young : Young calls s → Young calls s'
  single : SingleRounds calls s.2 → SingleRounds calls s'.2

/-- An attempt notes what is its own. -/
def straightContract (i : τ) : Contract sig Env (Store × MetricLog τ) where
  ok := Straight calls i
  rely s s' := own i s'.2 = own i s.2 ∧ Grown calls s s'
  guar s s' := (∀ j, j ≠ i → own j s'.2 = own j s.2) ∧ Grown calls s s'

theorem straightContract_compatible :
    Pool.Compatible (straightContract calls) := fun _ j hj _ _ h => ⟨h.1 j hj, h.2⟩

/-- The attempt `i` has noted these events. -/
structure Noted (i : τ) (events : List MetricEvent) (s : Store × MetricLog τ) : Prop where
  own : own i s.2 = events
  young : Young calls s

/-- The attempt `i` has read the record, which counted no attempts if there had been no round. -/
structure Begun (i : τ) (delivery : Delivery) (events : List MetricEvent)
    (s : Store × MetricLog τ) : Prop where
  noted : Noted calls i events s
  stored : s.1.deliveries (calls i).deliveryId ≠ none
  unrounded : ¬ Rounded calls (calls i).deliveryId s.2 → delivery.attempts = 0

variable {P} {config} {proc} {calls} {i : τ} {delivery : Delivery} {events : List MetricEvent}
  {s s' : Store × MetricLog τ}

omit [DecidableEq τ] in
theorem Rounded.cons {d : String} {h : MetricLog τ} (hr : Rounded calls d h) (e : τ × MetricEvent) :
    Rounded calls d (e :: h) := by
  obtain ⟨e', he', hround⟩ := hr
  exact ⟨e', List.mem_cons_of_mem _ he', hround⟩

theorem own_cons_self (e : MetricEvent) (h : MetricLog τ) : own i ((i, e) :: h) = e :: own i h := by
  simp [own]

theorem own_cons_of_ne {j : τ} (hj : j ≠ i) (e : MetricEvent) (h : MetricLog τ) :
    own j ((i, e) :: h) = own j h := by
  simp [own, Ne.symm hj]

/-- An attempt that has noted a round has made one. -/
theorem rounded_of_mem_own {h : MetricLog τ} (hmem : MetricEvent.round ∈ own i h) :
    (i, MetricEvent.round) ∈ h ∧ Rounded calls (calls i).deliveryId h := by
  obtain ⟨e, he, hround⟩ := List.mem_map.mp hmem
  obtain ⟨hin, hi⟩ := List.mem_filter.mp he
  obtain ⟨j, event⟩ := e
  obtain rfl : j = i := by simpa using hi
  obtain rfl : event = .round := hround
  exact ⟨hin, ⟨_, hin, rfl, rfl⟩⟩

theorem stable_noted : Stable (straightContract calls i).rely (Noted calls i events) := by
  intro s s' h hr
  exact ⟨hr.1.trans h.own, hr.2.young h.young⟩

theorem stable_begun :
    Stable (straightContract calls i).rely (Begun calls i delivery events) := by
  intro s s' h hr
  refine ⟨stable_noted h.noted hr, hr.2.stored _ h.stored, fun hnot => ?_⟩
  exact h.unrounded fun hrounded => hnot (hr.2.rounded _ hrounded)

omit [DecidableEq τ] in
/-- A step that neither notes anything nor writes a delivery. -/
theorem Grown.of_eq (hdeliveries : s'.1.deliveries = s.1.deliveries) (hlog : s'.2 = s.2) :
    Grown calls s s' where
  rounded d h := hlog ▸ h
  stored d h := by
    rw [hdeliveries]
    exact h
  young h d r hr hnot := by
    rw [hdeliveries] at hr
    rw [hlog] at hnot
    exact h d r hr hnot
  single h := hlog ▸ h

omit [DecidableEq τ] in
/-- A round of a delivery is in the list of those that had one. -/
theorem rounded_iff {d : String} {h : MetricLog τ} :
    Rounded calls d h ↔ d ∈ (notedOf (· = .round) h).map fun i => (calls i).deliveryId := by
  simp only [Rounded, notedOf, List.mem_map, List.mem_filter, decide_eq_true_eq]
  constructor
  · rintro ⟨e, he, hround, hd⟩
    exact ⟨e.1, ⟨e, ⟨he, hround⟩, rfl⟩, hd⟩
  · rintro ⟨_, ⟨e, ⟨he, hround⟩, rfl⟩, hd⟩
    exact ⟨e, he, hround, hd⟩

omit [DecidableEq τ] in
/-- Noting an event; a round is the first of the delivery. -/
theorem Grown.note (hdeliveries : s'.1.deliveries = s.1.deliveries) {e : MetricEvent}
    (hlog : s'.2 = (i, e) :: s.2)
    (hround : e = .round → ¬ Rounded calls (calls i).deliveryId s.2) : Grown calls s s' where
  rounded d h := hlog ▸ h.cons _
  stored d h := by
    rw [hdeliveries]
    exact h
  young h d r hr hnot := by
    rw [hdeliveries] at hr
    rw [hlog] at hnot
    exact h d r hr fun hrounded => hnot (hrounded.cons _)
  single h := by
    rw [hlog]
    by_cases he : e = .round
    · have hcons : notedOf (· = .round) ((i, e) :: s.2) = i :: notedOf (· = .round) s.2 := by
        simp [notedOf, he]
      rw [SingleRounds, hcons, List.map_cons, List.nodup_cons, ← rounded_iff]
      exact ⟨hround he, h⟩
    · have hcons : notedOf (· = .round) ((i, e) :: s.2) = notedOf (· = .round) s.2 := by
        simp [notedOf, he]
      rw [SingleRounds, hcons]
      exact h

omit [DecidableEq τ] in
/-- Writing a record that counts no attempts unless there was a round. -/
theorem Grown.write {d : String} {record : Delivery}
    (hdeliveries : s'.1.deliveries = Function.update s.1.deliveries d (some record))
    (hlog : s'.2 = s.2) (hrecord : ¬ Rounded calls d s.2 → record.attempts = 0) :
    Grown calls s s' where
  rounded d h := hlog ▸ h
  stored e h := by
    rw [hdeliveries, Function.update_apply]
    split
    · exact Option.some_ne_none _
    · exact h
  young h e r hr hnot := by
    rw [hlog] at hnot
    rw [hdeliveries, Function.update_apply] at hr
    split at hr
    · rename_i he
      subst he
      obtain rfl := Option.some.inj hr
      exact hrecord hnot
    · exact h e r hr hnot
  single h := hlog ▸ h

omit [DecidableEq τ] in
theorem Grown.trans {s'' : Store × MetricLog τ} (h : Grown calls s s') (h' : Grown calls s' s'') :
    Grown calls s s'' where
  rounded d hr := h'.rounded d (h.rounded d hr)
  stored d hs := h'.stored d (h.stored d hs)
  young hy := h'.young (h.young hy)
  single hs := h'.single (h.single hs)

/-! ### Steps that are not noted -/

/-- Steps that are not noted and write no delivery. -/
def Op.Unmetered : Op → Prop
  | .updateDelivery .. | .insertDelivery .. | .deleteWebhook .. | .assertPublicTarget _ | .post _
  | .recordDeliveryEnd .. => False
  | _ => True

theorem Op.Unmetered.deliveries {op : Op} (h : op.Unmetered) (caller : Caller) (x : Env) (s : Store) :
    (s.exec P caller x op).2.deliveries = s.deliveries := by
  cases op with
  | cachedWebhook id =>
    simp only [Store.exec]
    split
    · rfl
    · split <;> rfl
  | updateDelivery | insertDelivery | deleteWebhook | assertPublicTarget | post
  | recordDeliveryEnd => exact h.elim
  | _ => rfl

omit [DecidableEq τ] in
theorem Op.Unmetered.note {op : Op} (h : op.Unmetered) (x : Env) (s : Store) (log : MetricLog τ) :
    noteMetrics P i op x s log = log := by
  cases op with
  | updateDelivery | insertDelivery | deleteWebhook | assertPublicTarget | post
  | recordDeliveryEnd => exact h.elim
  | _ => rfl

/-- Assertions on the deliveries and the record alone. -/
def Sees (I : Store × MetricLog τ → Prop) : Prop :=
  ∀ s s', s'.1.deliveries = s.1.deliveries → s'.2 = s.2 → I s → I s'

theorem sees_noted : Sees (Noted calls i events) := by
  intro s s' hdeliveries hlog h
  exact ⟨hlog ▸ h.own, (Grown.of_eq hdeliveries hlog).young h.young⟩

theorem sees_begun : Sees (Begun calls i delivery events) := by
  intro s s' hdeliveries hlog h
  exact ⟨sees_noted s s' hdeliveries hlog h.noted, hdeliveries ▸ h.stored, hlog ▸ h.unrounded⟩

/-- A piece that is not noted keeps what does not see it. -/
theorem satE_unmetered {α : Type} {t : Code α} (h : Uses Op.Unmetered t)
    {I : Store × MetricLog τ → Prop} (hst : Stable (straightContract calls i).rely I) (hI : Sees I) :
    SatE (meteredMachine P proc calls) i (straightContract calls i) t I (fun _ => I) fun _ => I := by
  refine SatE.frame hst (fun op hop x s hs _ => ?_) h
  have hdeliveries : ((meteredMachine P proc calls).exec i op x s).2.1.deliveries = s.1.deliveries :=
    machine_store_of (Q := fun s' => s'.deliveries = s.1.deliveries) rfl (hop.deliveries _ x s.1)
  have hlog : ((meteredMachine P proc calls).exec i op x s).2.2 = s.2 := hop.note x s.1 s.2
  exact ⟨⟨fun j _ => congrArg (own j) hlog, .of_eq hdeliveries hlog⟩, hI s _ hdeliveries hlog hs⟩

theorem unmetered_encryptBody (body : String) (secret : Option String) :
    Uses Op.Unmetered (encryptBody P body secret) :=
  Throws.Uses.bind (uses_redis trivial) fun _ => Throws.uses_pure _

theorem unmetered_buildHeaders (secret : Option String) (body eventType deliveryId : String)
    (requestId : Option String) (sequence : Option ℕ) :
    Uses Op.Unmetered (buildHeaders P secret body eventType deliveryId requestId sequence) := by
  refine Throws.Uses.bind (uses_redis trivial) fun now => ?_
  refine Throws.Uses.bind (uses_redis trivial) fun nonce => ?_
  split
  · exact Throws.uses_throw _
  · exact Throws.uses_pure _

theorem unmetered_getWebhookForAttempt (id : String) :
    Uses Op.Unmetered (getWebhookForAttempt P config id) := by
  refine Throws.Uses.bind (uses_redis trivial) ?_
  rintro (_ | webhook)
  · have hread : Uses Op.Unmetered (webhookRepository.findById P config id) :=
      Throws.Uses.tryCatch (Throws.Uses.bind (uses_redis trivial) fun _ => Throws.uses_pure _)
        fun _ => Throws.uses_pure _
    refine Throws.Uses.bind hread ?_
    rintro (_ | webhook)
    · exact Throws.uses_pure _
    · exact Throws.Uses.bind (uses_redis trivial) fun _ => Throws.uses_pure _
  · exact Throws.uses_pure _

/-! ### Steps that are noted -/

theorem Begun.note (h : Begun calls i delivery events s) {st : Store}
    (hdeliveries : st.deliveries = s.1.deliveries) {e : MetricEvent}
    (hround : e = .round → ¬ Rounded calls (calls i).deliveryId s.2) :
    Begun calls i delivery (e :: events) (st, (i, e) :: s.2) := by
  have hgrown : Grown calls s (st, (i, e) :: s.2) := .note hdeliveries rfl hround
  refine ⟨⟨?_, hgrown.young h.noted.young⟩, hgrown.stored _ h.stored, fun hnot => ?_⟩
  · rw [own_cons_self, h.noted.own]
  · exact h.unrounded fun hrounded => hnot (hrounded.cons _)

theorem guar_note {st : Store} (hdeliveries : st.deliveries = s.1.deliveries) {e : MetricEvent}
    (hround : e = .round → ¬ Rounded calls (calls i).deliveryId s.2) :
    (straightContract calls i).guar s (st, (i, e) :: s.2) :=
  ⟨fun _ hj => own_cons_of_ne hj e s.2, .note hdeliveries rfl hround⟩

/-- A step of the process itself. -/
theorem satE_local {op : Op} {I : Store × MetricLog τ → Prop}
    {Q : op.Ret → Store × MetricLog τ → Prop} {E : Err → Store × MetricLog τ → Prop}
    (hlocal : op.isLocal = true) (hst : ∀ r, Stable (straightContract calls i).rely (Q r))
    (h : ∀ x s, I s → Straight calls i op x s →
      (straightContract calls i).guar s ((s.1.exec P ⟨proc i, some (calls i).deliveryId⟩ x op).2,
        noteMetrics P i op x s.1 s.2) ∧
      Q (s.1.exec P ⟨proc i, some (calls i).deliveryId⟩ x op).1
        ((s.1.exec P ⟨proc i, some (calls i).deliveryId⟩ x op).2, noteMetrics P i op x s.1 s.2)) :
    SatE (meteredMachine P proc calls) i (straightContract calls i) (redis op) I Q E := by
  intro x s hs hok
  obtain ⟨hguar, hq⟩ := h x s hs hok
  have hexec : (meteredMachine P proc calls).exec i op x s =
      (.ok (s.1.exec P ⟨proc i, some (calls i).deliveryId⟩ x op).1,
        (s.1.exec P ⟨proc i, some (calls i).deliveryId⟩ x op).2, noteMetrics P i op x s.1 s.2) := by
    simp [meteredMachine, Machine.observe, attemptMachine, Machine.comap, machine, hlocal]
  rw [hexec]
  exact ⟨hguar, _, hst _, hq, fun _ hq => hq⟩

/-- A command, which can fail before or after it is executed. -/
theorem satE_observed {op : Op} {I : Store × MetricLog τ → Prop}
    {Q : op.Ret → Store × MetricLog τ → Prop} {E : Err → Store × MetricLog τ → Prop}
    (hlocal : op.isLocal = false) (hstQ : ∀ r, Stable (straightContract calls i).rely (Q r))
    (hstE : ∀ e, Stable (straightContract calls i).rely (E e))
    (hdone : ∀ x s, I s → Straight calls i op x s → x.fault ≠ .before →
      (straightContract calls i).guar s ((s.1.exec P ⟨proc i, some (calls i).deliveryId⟩ x op).2,
        noteMetrics P i op x s.1 s.2) ∧
      Q (s.1.exec P ⟨proc i, some (calls i).deliveryId⟩ x op).1
        ((s.1.exec P ⟨proc i, some (calls i).deliveryId⟩ x op).2, noteMetrics P i op x s.1 s.2) ∧
      ∀ e, x.fault = .after → E e
        ((s.1.exec P ⟨proc i, some (calls i).deliveryId⟩ x op).2, noteMetrics P i op x s.1 s.2))
    (hbefore : ∀ x s, I s → Straight calls i op x s → x.fault = .before →
      noteMetrics P i op x s.1 s.2 = s.2 ∧ ∀ e, E e s) :
    SatE (meteredMachine P proc calls) i (straightContract calls i) (redis op) I Q E := by
  intro x s hs hok
  cases hfault : x.fault with
  | none =>
    obtain ⟨hguar, hq, -⟩ := hdone x s hs hok (by simp [hfault])
    have hexec : (meteredMachine P proc calls).exec i op x s =
        (.ok (s.1.exec P ⟨proc i, some (calls i).deliveryId⟩ x op).1,
          (s.1.exec P ⟨proc i, some (calls i).deliveryId⟩ x op).2, noteMetrics P i op x s.1 s.2) := by
      simp [meteredMachine, Machine.observe, attemptMachine, Machine.comap, machine, hlocal, hfault]
    rw [hexec]
    exact ⟨hguar, _, hstQ _, hq, fun _ hq => hq⟩
  | before =>
    obtain ⟨hlog, he⟩ := hbefore x s hs hok hfault
    have hexec : (meteredMachine P proc calls).exec i op x s =
        (.error "Redis command failed", s.1, s.2) := by
      simp [meteredMachine, Machine.observe, attemptMachine, Machine.comap, machine, hlocal, hfault,
        hlog]
    rw [hexec]
    exact ⟨⟨fun _ _ => rfl, .of_eq rfl rfl⟩, _, hstE "Redis command failed", he _, fun _ he => he⟩
  | after =>
    obtain ⟨hguar, -, he⟩ := hdone x s hs hok (by simp [hfault])
    have hexec : (meteredMachine P proc calls).exec i op x s =
        (.error "Redis command failed", (s.1.exec P ⟨proc i, some (calls i).deliveryId⟩ x op).2,
          noteMetrics P i op x s.1 s.2) := by
      simp [meteredMachine, Machine.observe, attemptMachine, Machine.comap, machine, hlocal, hfault]
    rw [hexec]
    exact ⟨hguar, _, hstE "Redis command failed", he _ hfault, fun _ he => he⟩

/-- A round is noted, and was the first of the delivery. -/
theorem settles_makeRound (webhook : Webhook) (headers : List (String × String)) (body : String)
    {E : Err → Store × MetricLog τ → Prop} :
    SatE (meteredMachine P proc calls) i (straightContract calls i)
      (makeRound config webhook headers body) (Begun calls i delivery [])
      (fun _ s => delivery.attempts = 0 ∧ Begun calls i delivery [.round] s) E := by
  have hstable : Stable (straightContract calls i).rely
      fun s => delivery.attempts = 0 ∧ Begun calls i delivery [.round] s :=
    fun s s' h hr => ⟨h.1, stable_begun h.2 hr⟩
  refine SatE.bind (Q := fun r s => (∀ e, r = .error e → delivery.attempts = 0 ∧
    Begun calls i delivery [.round] s) ∧ ∀ t, r = .ok t → Begun calls i delivery [] s)
    (satE_local rfl ?_ ?_) fun r => ?_
  · intro r s s' h hr
    exact ⟨fun e he => hstable (h.1 e he) hr, fun t ht => stable_begun (h.2 t ht) hr⟩
  · intro x s hs hok
    cases hguard : assertPublicTarget P webhook.url x.lookup with
    | error e =>
      have hdeliveries : ∀ caller t, (s.1.log caller t).deliveries = s.1.deliveries := fun _ _ => rfl
      simp only [Store.exec, noteMetrics, hguard]
      refine ⟨guar_note (hdeliveries _ _) fun _ => hok, fun _ _ => ?_, fun t ht => by cases ht⟩
      exact ⟨hs.unrounded hok, hs.note (hdeliveries _ _) fun _ => hok⟩
    | ok target =>
      simp only [Store.exec, noteMetrics, hguard]
      refine ⟨⟨fun _ _ => rfl, .of_eq rfl rfl⟩, fun e he => ?_, fun _ _ => ?_⟩
      · cases he
      · exact sees_begun s _ rfl rfl hs
  · cases r with
    | error e => exact SatE.pure fun s h => h.1 e rfl
    | ok target =>
      refine SatE.bind (Q := fun _ s => delivery.attempts = 0 ∧ Begun calls i delivery [.round] s)
        ((satE_local (I := Begun calls i delivery []) rfl (fun _ => hstable) ?_).mono
          (fun s h => h.2 target rfl) (fun _ _ h => h) fun _ _ h => h) fun r => ?_
      · intro x s hs hok
        have hdeliveries : ∀ caller request, (s.1.exec P caller x (.post request)).2.deliveries =
            s.1.deliveries := by
          intro caller request
          simp only [Store.exec]
          split <;> rfl
        exact ⟨guar_note (hdeliveries _ _) fun _ => hok, hs.unrounded hok,
          hs.note (hdeliveries _ _) fun _ => hok⟩
      · cases r <;> exact SatE.pure fun _ h => h

/-- The counters are brought up to date. -/
theorem satE_recordDeliveryEnd (webhookId : String) (success : Bool) (attempts latencyMs : ℕ)
    {E : Err → Store × MetricLog τ → Prop} :
    SatE (meteredMachine P proc calls) i (straightContract calls i)
      (recordDeliveryEnd (calls i).deliveryId webhookId success attempts latencyMs)
      (Begun calls i delivery events)
      (fun _ => Begun calls i delivery (.counted webhookId success attempts latencyMs :: events))
      E := by
  refine SatE.bind (Q := fun _ => Begun calls i delivery
    (.counted webhookId success attempts latencyMs :: events))
    (satE_local rfl (fun _ => stable_begun) ?_) fun _ => ?_
  · intro x s hs _
    have hdeliveries : (s.1.exec P ⟨proc i, some (calls i).deliveryId⟩ x (.recordDeliveryEnd
      (calls i).deliveryId webhookId success attempts latencyMs)).2.deliveries = s.1.deliveries := rfl
    have hround : MetricEvent.counted webhookId success attempts latencyMs = .round →
        ¬ Rounded calls (calls i).deliveryId s.2 := by
      intro he
      cases he
    exact ⟨guar_note hdeliveries hround, hs.note hdeliveries hround⟩
  · refine SatE.tryCatch (E := fun _ => Begun calls i delivery
      (.counted webhookId success attempts latencyMs :: events)) ?_ fun _ => SatE.pure fun _ h => h
    refine satE_unmetered ?_ stable_begun sees_begun
    exact Throws.Uses.bind (uses_redis trivial) fun _ => Throws.uses_pure _

/-! ### Updates -/

/-- A record that has been read, once the attempt is under way. -/
def ReadAs (calls : τ → AttemptCall) (i : τ) (delivery : Delivery) (events : List MetricEvent)
    (existing : Delivery) (s : Store × MetricLog τ) : Prop :=
  Begun calls i delivery events s ∧ Begun calls i existing events s

theorem stable_readAs {existing : Delivery} :
    Stable (straightContract calls i).rely (ReadAs calls i delivery events existing) :=
  fun _ _ h hr => ⟨stable_begun h.1 hr, stable_begun h.2 hr⟩

theorem sees_readAs {existing : Delivery} : Sees (ReadAs calls i delivery events existing) :=
  fun s s' hdeliveries hlog h =>
    ⟨sees_begun s s' hdeliveries hlog h.1, sees_begun s s' hdeliveries hlog h.2⟩

/-- What is read counts no attempts if there was no round. -/
theorem Begun.read (h : Begun calls i delivery events s) {existing : Delivery}
    (hread : s.1.deliveries (calls i).deliveryId = some existing) :
    ReadAs calls i delivery events existing s :=
  ⟨h, h.noted, h.stored, h.noted.young _ existing hread⟩

theorem unmetered_indexScore (existing : Delivery) :
    Uses Op.Unmetered (deliveryRepository.indexScore existing) := by
  rw [deliveryRepository.indexScore]
  split
  · exact Throws.uses_pure _
  · exact uses_redis trivial

theorem unmetered_applyDeliveryRetention (id : String) :
    Uses Op.Unmetered (deliveryRepository.applyDeliveryRetention id) := by
  rw [deliveryRepository.applyDeliveryRetention]
  exact uses_unchecked trivial

/-- An update that counts no attempts, before the round. -/
theorem satE_update_before {patch : DeliveryPatch} (hpatch : patch.attempts = none) :
    SatE (meteredMachine P proc calls) i (straightContract calls i)
      (deliveryRepository.update (calls i).deliveryId patch) (Begun calls i delivery [])
      (fun _ => Begun calls i delivery []) fun _ => Noted calls i [] := by
  have hnot : ¬ patch.Settles := by
    rintro ⟨hattempts, -⟩
    rw [hpatch] at hattempts
    cases hattempts
  refine SatE.bind (Q := fun r s => Begun calls i delivery [] s ∧
    ∀ existing, r = some existing → ReadAs calls i delivery [] existing s) ?_ fun r => ?_
  · refine satE_observed rfl (fun r s s' h hr => ?_) (fun _ => stable_noted) ?_ ?_
    · exact ⟨stable_begun h.1 hr, fun existing he => stable_readAs (h.2 existing he) hr⟩
    · intro x s hs _ _
      refine ⟨⟨fun _ _ => rfl, .of_eq rfl rfl⟩, ⟨sees_begun s _ rfl rfl hs, fun existing he => ?_⟩,
        fun _ _ => sees_noted s _ rfl rfl hs.noted⟩
      exact sees_readAs s _ rfl rfl (hs.read he)
    · exact fun x s hs _ _ => ⟨rfl, fun _ => hs.noted⟩
  · cases r with
    | none => exact SatE.pure fun s h => h.1
    | some existing =>
      refine SatE.bind (Q := fun _ => ReadAs calls i delivery [] existing) ?_ fun score => ?_
      · exact (satE_unmetered (unmetered_indexScore existing) stable_readAs sees_readAs).mono
          (fun s h => h.2 existing rfl) (fun _ _ h => h) fun _ _ h => h.1.noted
      refine SatE.bind (Q := fun _ => Begun calls i delivery []) ?_ fun _ => ?_
      · refine satE_observed rfl (fun _ => stable_begun) (fun _ => stable_noted) ?_ ?_
        · intro x s hs _ _
          have hlog : noteMetrics P i (.updateDelivery (calls i).deliveryId existing patch score) x
              s.1 s.2 = s.2 := if_neg fun h => hnot h.1
          have hgrown : Grown calls s ((s.1.exec P ⟨proc i, some (calls i).deliveryId⟩ x
              (.updateDelivery (calls i).deliveryId existing patch score)).2, s.2) := by
            refine .write rfl rfl fun hnot => ?_
            show patch.attempts.getD existing.attempts = 0
            rw [hpatch]
            exact hs.2.unrounded hnot
          rw [hlog]
          refine ⟨⟨fun _ _ => rfl, hgrown⟩, ?_, fun _ _ => ⟨hs.1.noted.own, hgrown.young hs.1.noted.young⟩⟩
          exact ⟨⟨hs.1.noted.own, hgrown.young hs.1.noted.young⟩, hgrown.stored _ hs.1.stored,
            hs.1.unrounded⟩
        · exact fun x s hs _ _ => ⟨if_neg fun h => hnot h.1, fun _ => hs.1.noted⟩
      · refine SatE.bind (Q := fun _ => Begun calls i delivery []) ?_ fun _ => SatE.pure fun _ h => h
        exact (satE_unmetered (unmetered_applyDeliveryRetention _) stable_begun sees_begun).mono
          (fun _ h => h) (fun _ _ h => h) fun _ _ h => h.noted

/-- The update that records the outcome of the round. -/
theorem satE_update_outcome {patch : DeliveryPatch} (hpatch : patch.Settles)
    (hround : MetricEvent.round ∈ events) :
    SatE (meteredMachine P proc calls) i (straightContract calls i)
      (deliveryRepository.update (calls i).deliveryId patch) (Begun calls i delivery events)
      (fun _ => Noted calls i (.settled :: events)) fun _ => Noted calls i (.settled :: events) := by
  have hown : ∀ s, Begun calls i delivery events s → (i, MetricEvent.round) ∈ s.2 ∧
      Rounded calls (calls i).deliveryId s.2 :=
    fun s h => rounded_of_mem_own (h.noted.own.symm ▸ hround)
  refine SatE.bind (Q := fun r s => r ≠ none ∧ Begun calls i delivery events s) ?_ fun r => ?_
  · refine satE_observed rfl (fun r s s' h hr => ⟨h.1, stable_begun h.2 hr⟩)
      (fun _ => stable_noted) ?_ ?_
    · intro x s hs hok _
      have hnone : x.fault = .none := hok (hown s hs).1
      refine ⟨⟨fun _ _ => rfl, .of_eq rfl rfl⟩, ⟨hs.stored, sees_begun s _ rfl rfl hs⟩, fun _ hafter => ?_⟩
      rw [hnone] at hafter
      cases hafter
    · intro x s hs hok hbefore
      have hnone : x.fault = .none := hok (hown s hs).1
      rw [hnone] at hbefore
      cases hbefore
  refine SatE.assume fun hr => ?_
  cases r with
  | none => exact absurd rfl hr
  | some existing =>
    refine SatE.bind (Q := fun _ => Begun calls i delivery events) ?_ fun score => ?_
    · unfold deliveryRepository.indexScore
      split
      · exact SatE.pure fun _ h => h
      · refine satE_local rfl (fun _ => stable_begun) fun x s hs _ => ?_
        exact ⟨⟨fun _ _ => rfl, .of_eq rfl rfl⟩, sees_begun s _ rfl rfl hs⟩
    refine SatE.bind (Q := fun _ => Noted calls i (.settled :: events)) ?_ fun _ => ?_
    · refine satE_observed rfl (fun _ => stable_noted) (fun _ => stable_noted) ?_ ?_
      · intro x s hs _ hbefore
        have hlog : noteMetrics P i (.updateDelivery (calls i).deliveryId existing patch score) x
            s.1 s.2 = (i, .settled) :: s.2 := if_pos ⟨hpatch, hbefore⟩
        have hwrite : Grown calls s ((s.1.exec P ⟨proc i, some (calls i).deliveryId⟩ x
            (.updateDelivery (calls i).deliveryId existing patch score)).2, s.2) :=
          .write rfl rfl fun hnot => absurd (hown s hs).2 hnot
        have hgrown : Grown calls s ((s.1.exec P ⟨proc i, some (calls i).deliveryId⟩ x
            (.updateDelivery (calls i).deliveryId existing patch score)).2, (i, .settled) :: s.2) :=
          hwrite.trans (.note rfl rfl fun he => by cases he)
        have hnoted : Noted calls i (.settled :: events) ((s.1.exec P
            ⟨proc i, some (calls i).deliveryId⟩ x (.updateDelivery (calls i).deliveryId existing patch
              score)).2, (i, .settled) :: s.2) := by
          refine ⟨?_, hgrown.young hs.noted.young⟩
          rw [own_cons_self, hs.noted.own]
        rw [hlog]
        exact ⟨⟨fun _ hj => own_cons_of_ne hj _ _, hgrown⟩, hnoted, fun _ _ => hnoted⟩
      · intro x s hs hok hbefore
        exact absurd hbefore (hok hpatch)
    · refine SatE.bind (Q := fun _ => Noted calls i (.settled :: events)) ?_
        fun _ => SatE.pure fun _ h => h
      exact satE_unmetered (unmetered_applyDeliveryRetention _) stable_noted sees_noted

/-! ### The attempt -/

/-- An attempt has made no round, or one, which it has counted as one and settled. -/
def Ended (i : τ) (s : Store × MetricLog τ) : Prop :=
  own i s.2 = [] ∨ ∃ webhookId success latencyMs,
    own i s.2 = [.settled, .counted webhookId success 1 latencyMs, .round]

theorem Noted.ended (h : Noted calls i [] s) : Ended i s := .inl h.own

theorem Noted.ended_settled {webhookId : String} {success : Bool} {latencyMs : ℕ}
    (h : Noted calls i [.settled, .counted webhookId success 1 latencyMs, .round] s) : Ended i s :=
  .inr ⟨_, _, _, h.own⟩

theorem outcomePatch_settles {status : Status} (h : status = .success ∨ status = .failed)
    (attempts now : ℕ) (next_retry_at : Option ℕ) (last_error : Option String) (o : Outcome) :
    (outcomePatch status attempts now next_retry_at last_error o).Settles :=
  ⟨rfl, h.imp (congrArg some) (congrArg some)⟩

/-- From the outcome of the round on. -/
theorem satE_recordOutcome (webhook : Webhook) (traceId : String) (latencyMs now : ℕ) (o : Outcome) :
    SatE (meteredMachine P proc calls) i (straightContract calls i)
      (recordOutcome config (calls i).deliveryId delivery webhook traceId latencyMs now o)
      (fun s => delivery.attempts = 0 ∧ Begun calls i delivery [.round] s)
      (fun _ => Ended i) fun _ => Ended i := by
  refine SatE.assume fun hattempts => ?_
  rw [recordOutcome, hattempts]
  split
  · refine SatE.bind (satE_recordDeliveryEnd webhook.id true (0 + 1) latencyMs) fun _ => ?_
    refine (satE_update_outcome (outcomePatch_settles (.inl rfl) ..) ?_).mono (fun _ h => h)
      (fun _ _ h => h.ended_settled) fun _ _ h => h.ended_settled
    exact List.mem_cons_of_mem _ List.mem_cons_self
  split
  · refine SatE.bind (satE_recordDeliveryEnd webhook.id false (0 + 1) latencyMs) fun _ => ?_
    -- nothing is put off, so the run does not go on
    have hlocal : ∀ {op : Op}, op.isLocal = true → op.Unmetered →
        SatE (meteredMachine P proc calls) i (straightContract calls i) (redis op)
          (Begun calls i delivery [.counted webhook.id false (0 + 1) latencyMs, .round])
          (fun _ => Begun calls i delivery [.counted webhook.id false (0 + 1) latencyMs, .round])
          fun _ => Ended i := by
      intro op hlocal hop
      refine satE_local hlocal (fun _ => stable_begun) fun x s hs _ => ?_
      have hdeliveries := hop.deliveries (P := P) ⟨proc i, some (calls i).deliveryId⟩ x s.1
      have hlog := hop.note (P := P) (i := i) x s.1 s.2
      rw [hlog]
      exact ⟨⟨fun _ _ => rfl, .of_eq hdeliveries rfl⟩, sees_begun s _ hdeliveries rfl hs⟩
    refine SatE.bind (hlocal rfl trivial) fun random => ?_
    refine SatE.bind (hlocal rfl trivial) fun nextRetryAt => ?_
    refine SatE.bind (hlocal rfl trivial) fun scheduledAt => ?_
    refine SatE.bind (Q := fun _ _ => False) ?_ fun _ => ?_
    · exact fun x s _ hok => hok.elim
    · exact Sat.fix fun s hs => hs.elim
  · refine SatE.bind (satE_recordDeliveryEnd webhook.id false (0 + 1) latencyMs) fun _ => ?_
    have hqueue : SatE (meteredMachine P proc calls) i (straightContract calls i)
        (enqueueDeadLetter {
          delivery_id := delivery.id
          webhook_id := webhook.id
          event_type := delivery.event_type
          event_id := delivery.event_id
          error := o.errorMessage
          response_status := o.responseStatus
          attempts := 0 + 1
          failed_at := now
          trace_id := traceId
          request_id := delivery.request_id })
        (Begun calls i delivery [.counted webhook.id false (0 + 1) latencyMs, .round])
        (fun _ => Begun calls i delivery [.counted webhook.id false (0 + 1) latencyMs, .round])
        fun _ => Ended i := by
      refine SatE.tryCatch (E := fun _ =>
        Begun calls i delivery [.counted webhook.id false (0 + 1) latencyMs, .round]) ?_
        fun _ => SatE.pure fun _ h => h
      refine satE_unmetered ?_ stable_begun sees_begun
      exact Throws.Uses.bind (uses_redis trivial) fun _ => uses_redis trivial
    refine SatE.bind hqueue fun _ => ?_
    refine (satE_update_outcome (outcomePatch_settles (.inr rfl) ..) ?_).mono (fun _ h => h)
      (fun _ _ h => h.ended_settled) fun _ _ h => h.ended_settled
    exact List.mem_cons_of_mem _ List.mem_cons_self

/-- The attempt at a webhook that is active. -/
theorem settles_attemptActive (webhook : Webhook) (traceId : String) (sequence : Option ℕ) :
    SatE (meteredMachine P proc calls) i (straightContract calls i)
      (attemptActive P config (calls i).deliveryId delivery webhook traceId sequence)
      (Begun calls i delivery []) (fun _ => Ended i) fun _ => Ended i := by
  have hunmetered : ∀ {α : Type} {t : Code α}, Uses Op.Unmetered t →
      SatE (meteredMachine P proc calls) i (straightContract calls i) t
        (Begun calls i delivery []) (fun _ => Begun calls i delivery []) fun _ => Ended i :=
    fun h => (satE_unmetered h stable_begun sees_begun).mono (fun _ h => h) (fun _ _ h => h)
      fun _ _ h => h.noted.ended
  refine SatE.bind (hunmetered (unmetered_encryptBody _ _)) fun encryptedPayload => ?_
  refine SatE.bind (hunmetered (unmetered_buildHeaders _ _ _ _ _ _)) fun headers => ?_
  refine SatE.bind (hunmetered (uses_redis trivial)) fun started => ?_
  refine SatE.bind (hunmetered (uses_redis trivial)) fun _ => ?_
  refine SatE.bind (settles_makeRound webhook _ _) fun outcome => ?_
  have hnow : SatE (meteredMachine P proc calls) i (straightContract calls i) (redis .now)
      (fun s => delivery.attempts = 0 ∧ Begun calls i delivery [.round] s)
      (fun _ s => delivery.attempts = 0 ∧ Begun calls i delivery [.round] s) fun _ => Ended i := by
    refine satE_local rfl (fun _ s s' h hr => ⟨h.1, stable_begun h.2 hr⟩) fun x s hs _ => ?_
    exact ⟨⟨fun _ _ => rfl, .of_eq rfl rfl⟩, hs.1, sees_begun s _ rfl rfl hs.2⟩
  refine SatE.bind hnow fun now => ?_
  refine SatE.bind hnow fun ended => ?_
  exact satE_recordOutcome webhook traceId _ now outcome

/-- **An attempt ends**, having made no round, or one that it has counted and settled. -/
theorem settles_attempt (sequence : Option ℕ) :
    SatE (meteredMachine P proc calls) i (straightContract calls i)
      (attempt P config (calls i).deliveryId sequence) (Noted calls i [])
      (fun _ => Ended i) fun _ => Ended i := by
  have hmark : ∀ delivery, SatE (meteredMachine P proc calls) i (straightContract calls i)
      (markInactive (calls i).deliveryId) (Begun calls i delivery []) (fun _ => Ended i)
      fun _ => Ended i := by
    intro delivery
    have hnow : Uses Op.Unmetered (redis .now) := uses_redis trivial
    refine SatE.bind ((satE_unmetered hnow stable_begun sees_begun).mono (fun _ h => h)
      (fun _ _ h => h) fun _ _ h => h.noted.ended) fun now => ?_
    exact (satE_update_before rfl).mono (fun _ h => h) (fun _ _ h => h.noted.ended)
      fun _ _ h => h.ended
  have hread : SatE (meteredMachine P proc calls) i (straightContract calls i)
      (deliveryRepository.findById (calls i).deliveryId) (Noted calls i [])
      (fun r s => Noted calls i [] s ∧ ∀ delivery, r = some delivery → Begun calls i delivery [] s)
      fun _ => Ended i := by
    refine SatE.tryCatch (E := fun _ => Noted calls i []) ?_ fun _ => SatE.pure fun s h => ⟨h, ?_⟩
    · refine satE_observed rfl (fun r s s' h hr => ?_) (fun _ => stable_noted) ?_ ?_
      · exact ⟨stable_noted h.1 hr, fun delivery hd => stable_begun (h.2 delivery hd) hr⟩
      · intro x s hs _ _
        have hnoted := sees_noted s _ rfl rfl hs
        refine ⟨⟨fun _ _ => rfl, .of_eq rfl rfl⟩, ⟨hnoted, fun delivery hd => ?_⟩, fun _ _ => hnoted⟩
        refine ⟨hnoted, ?_, hs.young _ delivery hd⟩
        have hstored : s.1.deliveries (calls i).deliveryId = some delivery := hd
        show s.1.deliveries (calls i).deliveryId ≠ none
        rw [hstored]
        exact Option.some_ne_none _
      · exact fun x s hs _ _ => ⟨rfl, fun _ => hs⟩
    · intro delivery hd
      cases hd
  refine SatE.bind hread fun r => ?_
  cases r with
  | none => exact SatE.pure fun s h => h.1.ended
  | some delivery =>
    dsimp only
    split
    · exact SatE.pure fun s h => h.1.ended
    refine SatE.bind (Q := fun _ => Begun calls i delivery []) ?_ fun traceId => ?_
    · refine SatE.mono (P := Begun calls i delivery []) ?_ (fun s h => h.2 delivery rfl)
        (fun _ _ h => h) fun _ _ h => h
      unfold ensureTrace
      split
      · exact SatE.pure fun _ h => h
      · have hdraw : Uses Op.Unmetered deliveryRepository.generateTraceId :=
          Throws.Uses.bind (uses_redis trivial) fun _ => Throws.uses_pure _
        refine SatE.bind ((satE_unmetered hdraw stable_begun sees_begun).mono (fun _ h => h)
          (fun _ _ h => h) fun _ _ h => h.noted.ended) fun traceId => ?_
        refine SatE.bind ((satE_update_before rfl).mono (fun _ h => h) (fun _ _ h => h)
          fun _ _ h => h.ended) fun _ => SatE.pure fun _ h => h
    refine SatE.bind ((satE_unmetered (unmetered_getWebhookForAttempt _) stable_begun
      sees_begun).mono (fun _ h => h) (fun _ _ h => h) fun _ _ h => h.noted.ended) fun webhook => ?_
    cases webhook with
    | none => exact hmark delivery
    | some webhook =>
      dsimp only
      split
      · exact settles_attemptActive webhook traceId sequence
      · exact hmark delivery

end

/-! ## 4. What the counters say -/

section

variable {τ : Type} [DecidableEq τ] {P : Platform} {config : Config} {proc : τ → ℕ}
  {calls : τ → AttemptCall} {h : MetricLog τ}

/-- The rounds that a process has made. -/
def roundsMade (proc : τ → ℕ) (p : ℕ) (h : MetricLog τ) : ℕ :=
  (notedOf (· = .round) h).countP fun i => proc i = p

/-- The deliveries that a process has settled. -/
def deliveriesSettled (proc : τ → ℕ) (calls : τ → AttemptCall) (p : ℕ) (h : MetricLog τ) : ℕ :=
  (((notedOf (· = .settled) h).filter fun i => proc i = p).map fun i =>
    (calls i).deliveryId).dedup.length

/-- The counters of a process are exact. -/
structure ExactMetrics (proc : τ → ℕ) (calls : τ → AttemptCall) (p : ℕ)
    (s : Store × MetricLog τ) : Prop where
  total : (s.1.processes p).aggregate.total = deliveriesSettled proc calls p s.2
  attempts : (s.1.processes p).aggregate.totalAttempts = roundsMade proc p s.2
  balanced : Balanced (s.1.processes p)

/-- An update of the counters. -/
def MetricEvent.isCounted : MetricEvent → Bool
  | .counted .. => true
  | _ => false

omit [DecidableEq τ] in
theorem tally_total (p : ℕ) (h : MetricLog τ) :
    (tally proc p h).total = (notedOf MetricEvent.isCounted h).countP fun i => proc i = p := by
  induction h with
  | nil => rfl
  | cons e h ih =>
    obtain ⟨i, e⟩ := e
    cases e with
    | round => simpa [tally, notedOf, MetricEvent.isCounted] using ih
    | settled => simpa [tally, notedOf, MetricEvent.isCounted] using ih
    | counted w success attempts latencyMs =>
      rw [tally]
      split
      · rename_i hp
        simpa [Counters.add, notedOf, MetricEvent.isCounted, hp] using ih
      · rename_i hp
        simpa [notedOf, MetricEvent.isCounted, hp] using ih

omit [DecidableEq τ] in
/-- If every update counts one attempt, attempts are counted as deliveries are. -/
theorem tally_attempts (p : ℕ) (h : MetricLog τ)
    (hone : ∀ i w success attempts latencyMs,
      (i, MetricEvent.counted w success attempts latencyMs) ∈ h → attempts = 1) :
    (tally proc p h).totalAttempts = (tally proc p h).total := by
  induction h with
  | nil => rfl
  | cons e h ih =>
    have htail := ih fun i w success attempts latencyMs hmem =>
      hone i w success attempts latencyMs (List.mem_cons_of_mem _ hmem)
    obtain ⟨i, e⟩ := e
    cases e with
    | round => exact htail
    | settled => exact htail
    | counted w success attempts latencyMs =>
      obtain rfl := hone i w success attempts latencyMs List.mem_cons_self
      rw [tally]
      split
      · exact congrArg (· + 1) htail
      · exact htail

/-- How often an event of some kind was noted of an attempt. -/
theorem count_notedOf (kind : MetricEvent → Bool) (i : τ) (h : MetricLog τ) :
    (notedOf kind h).count i = (own i h).countP kind := by
  induction h with
  | nil => rfl
  | cons e h ih =>
    obtain ⟨j, e⟩ := e
    unfold notedOf own at ih ⊢
    by_cases hj : j = i <;> cases hk : kind e <;> simp [hj, hk, ih]

/-- Where every attempt has ended, rounds, updates of the counters and outcomes are noted of the
same attempts. -/
theorem perm_of_ended {s : Store × MetricLog τ} (hended : ∀ i, Ended i s) :
    (notedOf MetricEvent.isCounted s.2).Perm (notedOf (· = .round) s.2) ∧
      (notedOf (· = .settled) s.2).Perm (notedOf (· = .round) s.2) := by
  simp only [List.perm_iff_count, count_notedOf]
  constructor
  · intro i
    rcases hended i with hown | ⟨w, success, latencyMs, hown⟩
    · rw [hown]
      rfl
    · rw [hown]
      rfl
  · intro i
    rcases hended i with hown | ⟨w, success, latencyMs, hown⟩
    · rw [hown]
      rfl
    · rw [hown]
      rfl

/-- The store of a process that has just started, and deliveries that have not been attempted. -/
structure Unattempted (s : Store) : Prop where
  deliveries : ∀ d r, s.deliveries d = some r → r.attempts = 0
  aggregate : ∀ p, (s.processes p).aggregate = {}
  webhooks : ∀ p w, (s.processes p).deliveries w = none

/-- **The counters are exact** after every run of attempts, in any processes and with their steps in
any order, in which every step goes straight. -/
theorem metrics_exact (P : Platform) (config : Config) (proc : τ → ℕ) (calls : τ → AttemptCall)
    (s : Store) (hs : Unattempted s) (ls : List (τ × Env))
    (hstraight : Along (Pool.step (meteredMachine P proc calls))
      (fun c l => Pool.Issues (Straight calls l.1) c l) (beginMetered P config calls s) ls)
    (hdone : ∀ i, ∃ r, (run (Pool.step (meteredMachine P proc calls))
      (beginMetered P config calls s) ls).prog i = .ret r) (p : ℕ) :
    ExactMetrics proc calls p (run (Pool.step (meteredMachine P proc calls))
      (beginMetered P config calls s) ls).store := by
  have hyoung : Young calls (s, []) := fun d r hr _ => hs.deliveries d r hr
  have hsafe : Pool.Safe (meteredMachine P proc calls) (straightContract calls)
      (fun i _ => Ended i) (beginMetered P config calls s) := by
    intro i
    refine ⟨Noted calls i [], stable_noted, ⟨rfl, hyoung⟩, ?_⟩
    refine Sat.mono (settles_attempt (calls i).sequence) (fun _ h => h) ?_
    rintro (e | r) s h <;> exact h
  have hended : ∀ i, Ended i (run (Pool.step (meteredMachine P proc calls))
      (beginMetered P config calls s) ls).store := by
    intro i
    obtain ⟨r, hr⟩ := hdone i
    exact (hsafe.run (straightContract_compatible calls) hstraight).done hr
  have hstart : SingleRounds calls (beginMetered P config calls s).store.2 := List.nodup_nil
  have hsingle : SingleRounds calls (run (Pool.step (meteredMachine P proc calls))
      (beginMetered P config calls s) ls).store.2 :=
    hsafe.run_stable (A := fun s : Store × MetricLog τ => SingleRounds calls s.2)
      (fun i s s' h (hg : (straightContract calls i).guar s s') => hg.2.single h)
      (straightContract_compatible calls) hstart hstraight
  have hmetered : Metered proc (run (Pool.step (meteredMachine P proc calls))
      (beginMetered P config calls s) ls).store := by
    have huses : Pool.Uses (S := sig) (fun i => Op.OfAttempt (calls i).deliveryId)
        (beginMetered P config calls s) :=
      fun i => uses_attempt P config (calls i).deliveryId (calls i).sequence
    refine Pool.run_keeps (fun i op x s hop (_ : True) h => h.exec hop x) huses ?_
      (Along.of_forall (fun c l => ?_) _ _)
    · exact ⟨fun p => .init (hs.aggregate p) (hs.webhooks p), hs.aggregate⟩
    · unfold Pool.Issues
      cases c.prog l.1 <;> trivial
  generalize (run (Pool.step (meteredMachine P proc calls)) (beginMetered P config calls s) ls).store =
    final at *
  obtain ⟨hcounted, hsettled⟩ := perm_of_ended hended
  have hone : ∀ i w success attempts latencyMs,
      (i, MetricEvent.counted w success attempts latencyMs) ∈ final.2 → attempts = 1 := by
    intro i w success attempts latencyMs hmem
    have hown : MetricEvent.counted w success attempts latencyMs ∈ own i final.2 :=
      List.mem_map.mpr ⟨_, List.mem_filter.mpr ⟨hmem, by simp⟩, rfl⟩
    rcases hended i with hnone | ⟨w', success', latencyMs', hsome⟩
    · rw [hnone] at hown
      cases hown
    · rw [hsome] at hown
      simp only [List.mem_cons, reduceCtorEq, MetricEvent.counted.injEq, List.not_mem_nil, or_false,
        false_or] at hown
      exact hown.2.2.1
  have htotal : (final.1.processes p).aggregate.total = roundsMade proc p final.2 := by
    rw [hmetered.tallied, tally_total, roundsMade]
    exact hcounted.countP_eq _
  refine ⟨?_, ?_, hmetered.balanced p⟩
  · -- no delivery is settled twice, since none had two rounds
    have hnodup : (((notedOf (· = .settled) final.2).filter fun i => proc i = p).map fun i =>
        (calls i).deliveryId).Nodup :=
      ((hsettled.map _).nodup_iff.mpr hsingle).sublist (List.filter_sublist.map _)
    rw [htotal, deliveriesSettled, hnodup.dedup, List.length_map, ← List.countP_eq_length_filter,
      roundsMade]
    exact (hsettled.countP_eq _).symm
  · rw [← htotal, hmetered.tallied]
    exact tally_attempts p final.2 hone

end

instance {τ : Type} (calls : τ → AttemptCall) (d : String) (h : MetricLog τ) :
    Decidable (Rounded calls d h) := by
  unfold Rounded
  infer_instance

instance Straight.decidable {τ : Type} [DecidableEq τ] (calls : τ → AttemptCall) (i : τ) (op : Op)
    (x : Env) (s : Store × MetricLog τ) : Decidable (Straight calls i op x s) := by
  unfold Straight
  split <;> infer_instance

instance {τ : Type} [DecidableEq τ] (calls : τ → AttemptCall) (c : MeteredAttempts τ)
    (l : τ × Env) : Decidable (Pool.Issues (Straight calls l.1) c l) := by
  unfold Pool.Issues
  cases c.prog l.1 with
  | ret a => exact instDecidableTrue
  | cmd op k => exact Straight.decidable calls l.1 op l.2 c.store

theorem sampleStore_unattempted : Unattempted sampleStore where
  deliveries d r hr := by
    by_cases hd : d = "dlv_0"
    · subst hd
      obtain rfl := Option.some.inj hr
      rfl
    · have hnone : sampleStore.deliveries d = none := Function.update_of_ne hd _ _
      rw [hnone] at hr
      cases hr
  aggregate p := rfl
  webhooks p w := rfl

/-- The first attempt is answered 200; the second one finds a success. -/
def sampleDelivered : List (Bool × Env) :=
  List.replicate 25 (false, answering 200) ++ List.replicate 25 (true, answering 200)

/-- A delivery that succeeds at once is counted as one. -/
theorem metrics_exact_sample :
    ExactMetrics (fun _ => 0) sampleAttempts 0
      (run (Pool.step (meteredMachine samplePlatform (fun _ => 0) sampleAttempts))
        (beginMetered samplePlatform sampleConfig sampleAttempts sampleStore) sampleDelivered).store := by
  refine metrics_exact samplePlatform sampleConfig (fun _ => 0) sampleAttempts sampleStore
    sampleStore_unattempted sampleDelivered ?_ (fun i => ?_) 0
  · decide +kernel
  · have hdone : ∀ i, ((run (Pool.step (meteredMachine samplePlatform (fun _ => 0) sampleAttempts))
        (beginMetered samplePlatform sampleConfig sampleAttempts sampleStore)
        sampleDelivered).prog i).result?.isSome = true := by decide +kernel
    have hi := hdone i
    generalize (run (Pool.step (meteredMachine samplePlatform (fun _ => 0) sampleAttempts))
      (beginMetered samplePlatform sampleConfig sampleAttempts sampleStore)
      sampleDelivered).prog i = t at hi
    cases t with
    | ret r => exact ⟨r, rfl⟩
    | cmd op k => cases hi

/-- The first attempt is answered 500, and the second one 200. -/
def sampleRetried : List (Bool × Env) :=
  List.replicate 30 (false, answering 500) ++ List.replicate 25 (true, answering 200)

/-- A delivery that succeeds at the second attempt counts as two deliveries with three attempts. -/
theorem retry_counted_twice :
    (∀ i, ((run (Pool.step (meteredMachine samplePlatform (fun _ => 0) sampleAttempts))
        (beginMetered samplePlatform sampleConfig sampleAttempts sampleStore)
        sampleRetried).prog i).result?.isSome = true) ∧
      ¬ ExactMetrics (fun _ => 0) sampleAttempts 0
        (run (Pool.step (meteredMachine samplePlatform (fun _ => 0) sampleAttempts))
          (beginMetered samplePlatform sampleConfig sampleAttempts sampleStore) sampleRetried).store := by
  refine ⟨by decide +kernel, fun h => ?_⟩
  have htotal := h.total
  have hcounted : ((run (Pool.step (meteredMachine samplePlatform (fun _ => 0) sampleAttempts))
      (beginMetered samplePlatform sampleConfig sampleAttempts sampleStore)
      sampleRetried).store.1.processes 0).aggregate.total = 2 := by decide +kernel
  have hsettled : deliveriesSettled (fun _ => 0) sampleAttempts 0
      (run (Pool.step (meteredMachine samplePlatform (fun _ => 0) sampleAttempts))
        (beginMetered samplePlatform sampleConfig sampleAttempts sampleStore)
        sampleRetried).store.2 = 1 := by decide +kernel
  rw [hcounted, hsettled] at htotal
  cases htotal

end SmartDrop.Webhooks
