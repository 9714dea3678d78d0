/-
# Overlapping changes of a webhook

`update` and `remove` read the record of a webhook and write the record and its indexes by what
they have read; `update` does so in several commands.  Beside the store a trace is kept of who
has read what and who has written since (`Trace`), which no command reads.

A call that is between its first index command and its last one is the writer of the webhook, and
the sets of the events of a webhook without a writer are exact (`Coherent`).  A call whose writes
all find the events as it has read them (`Timely`) leaves it so, whatever the others do
(`update_meets`, `remove_meets`, `create_meets`), and so do any number of such calls together
(`indexes_agree`).
-/
import SmartDrop.Webhooks.Attempt
import SmartDrop.Webhooks.Subscriptions
import Mathlib.Data.Fintype.Option

namespace SmartDrop.Webhooks

open Conc Redis webhookRepository

variable {τ : Type}

/-! ## 1. The trace -/

/-- Which stored webhook a command changes, its record or an index entry of it. -/
def Op.changes : Op → Option String
  | .sremEvent _ id | .saddEvent _ id | .setWebhook id _ | .deleteWebhook id .. => some id
  | _ => none

/-- The command of `remove`. -/
def Op.removes : Op → Bool
  | .deleteWebhook .. => true
  | _ => false

/-- What the indexes depend on. -/
def WebhookRecord.indexed (r : WebhookRecord) : List String × Option String := (r.events, r.owner_ip)

/-- Beside a run: `fresh i id` if the call `i` has read the webhook and no other call has changed
its events or removed it since, the call that is in the middle of moving a webhook between event
sets, and who drew which UUID. -/
structure Trace (τ : Type) where
  fresh : τ → String → Bool
  writer : String → Option τ
  drawer : ℕ → Option τ

/-- Nothing read, written or drawn. -/
def Trace.init : Trace τ := ⟨fun _ _ => false, fun _ => none, fun _ => none⟩

variable [DecidableEq τ]

namespace Trace

/-- The call `i` changes the events of the webhook `id`, or removes it. -/
def touch (h : Trace τ) (i : τ) (id : String) : τ → String → Bool :=
  fun k w => h.fresh k w && (k = i || w ≠ id)

/-- The trace after a step of the call `i`. -/
def note (i : τ) (op : Op) (s : Store) (h : Trace τ) : Trace τ :=
  match op with
  | .randomUUID => { h with drawer := Function.update h.drawer s.uuidsDrawn (some i) }
  | .getWebhook id =>
    { h with fresh := fun k w => h.fresh k w || (k = i && w = id) }
  | .sremEvent _ id | .saddEvent _ id =>
    { h with
      fresh := h.touch i id
      writer := Function.update h.writer id (some ((h.writer id).getD i)) }
  | .setWebhook id record =>
    { h with
      fresh :=
        if (s.webhooks id).map WebhookRecord.indexed = some record.indexed ∧ h.writer id ≠ some i
        then h.fresh else h.touch i id
      writer := Function.update h.writer id ((h.writer id).filter (· ≠ i)) }
  | .deleteWebhook id .. =>
    { h with
      fresh := h.touch i id
      writer := Function.update h.writer id ((h.writer id).filter (· ≠ i)) }
  | .insertWebhook record _ => { h with fresh := h.touch i record.id }
  | _ => h

end Trace

/-- The calls, with the trace beside the store. -/
def tracedMachine (P : Platform) (who : τ → Caller) : Machine sig τ Env (Store × Trace τ) :=
  ((machine P).comap who).observe fun i op _ s h => h.note i op s

/-- A command that does not fail, and which, if it changes a stored webhook, finds it with the
events with which its call has read it: no other call has changed these in the meantime, or
removed the webhook, unless it is to be removed. -/
def Timely (i : τ) (op : sig.Op) (x : Env) (s : Store × Trace τ) : Prop :=
  x.fault = .none ∧ ∀ id ∈ Op.changes op, s.2.fresh i id = true ∨
    Op.removes op = true ∧ (s.1.webhooks id).isNone

instance (i : τ) (op : sig.Op) (x : Env) (s : Store × Trace τ) : Decidable (Timely i op x s) :=
  inferInstanceAs (Decidable (_ ∧ ∀ id ∈ Op.changes op, s.2.fresh i id = true ∨
    Op.removes op = true ∧ (s.1.webhooks id).isNone))

/-! ## 2. Agreement -/

/-- The record of a webhook exists exactly when its id is in `webhooks:ids`, and its id is in the
index of an owner exactly when the record has this owner. -/
structure Listed (s : Store) (id : String) : Prop where
  ids : id ∈ s.webhookIds ↔ (s.webhooks id).isSome
  owners : ∀ ip, id ∈ s.owners ip ↔ ∃ r, s.webhooks id = some r ∧ r.owner_ip = some ip

/-- The id is in the set of an event exactly when the record exists and lists the event. -/
def InEvents (s : Store) (id : String) : Prop :=
  ∀ e, id ∈ s.eventIndex e ↔ ∃ r, s.webhooks id = some r ∧ e ∈ r.events

/-- Nothing is stored of a webhook, and nobody writes it. -/
structure Unborn (id : String) (s : Store × Trace τ) : Prop where
  record : s.1.webhooks id = none
  events : ∀ e, id ∉ s.1.eventIndex e
  writer : s.2.writer id = none

variable (P : Platform)

/-- What holds between any two steps: every webhook is listed, those without a writer are in the
right sets of events, and every id that is in use has been drawn. -/
structure Coherent (s : Store × Trace τ) : Prop where
  listed : ∀ id, Listed s.1 id
  inEvents : ∀ id, s.2.writer id = none → InEvents s.1 id
  drawn : ∀ id, ¬ Unborn id s → ∃ n < s.1.uuidsDrawn, id = "wh_" ++ P.randomUUID n
  drawer : ∀ n i, s.2.drawer n = some i → n < s.1.uuidsDrawn

/-- Nothing about the events of a webhook has changed. -/
structure SameAt (id : String) (s s' : Store × Trace τ) : Prop where
  record : (s'.1.webhooks id).map WebhookRecord.indexed = (s.1.webhooks id).map WebhookRecord.indexed
  events : ∀ e, id ∈ s'.1.eventIndex e ↔ id ∈ s.1.eventIndex e
  writer : s'.2.writer id = s.2.writer id

/-- What a step of the call `i` does: it keeps the store coherent, a webhook that it changes is no
longer fresh for anybody else, it brings to life only ids that it has drawn, and it neither makes
another call a writer nor stops it from being one. -/
structure Meets (i : τ) (s s' : Store × Trace τ) : Prop where
  coherent : Coherent P s'
  fresh : ∀ k, k ≠ i → ∀ id, s'.2.fresh k id = true → s.2.fresh k id = true ∧ SameAt id s s'
  unborn : ∀ id, Unborn id s → (∀ n, s.2.drawer n = some i → id ≠ "wh_" ++ P.randomUUID n) →
    Unborn id s'
  drawer : ∀ n k, s.2.drawer n = some k → s'.2.drawer n = some k
  writer : ∀ k, k ≠ i → ∀ id, s'.2.writer id = some k ↔ s.2.writer id = some k

/-- The contract of the call `i`. -/
def callContract (i : τ) : Contract sig Env (Store × Trace τ) where
  ok := Timely i
  rely s s' := ∃ j, j ≠ i ∧ (Coherent P s → Meets P j s s')
  guar s s' := Coherent P s → Meets P i s s'

variable {P : Platform} {who : τ → Caller} {i : τ} {s s' : Store × Trace τ} {w : String}

/-! ## 3. Assertions -/

/-- The call is not in the middle of anything. -/
structure Idle (P : Platform) (i : τ) (s : Store × Trace τ) : Prop where
  coherent : Coherent P s
  writer : ∀ id, s.2.writer id ≠ some i

/-- The call has read the record `existing` of the webhook `w`, and if the events of `w` are as it
left them and no other call is the writer, `w` is in the sets of the events that `R` says. -/
structure Midway (P : Platform) (i : τ) (w : String) (existing : WebhookRecord) (R : String → Prop)
    (s : Store × Trace τ) : Prop where
  coherent : Coherent P s
  writer : ∀ id, id ≠ w → s.2.writer id ≠ some i
  record : s.2.fresh i w = true →
    (s.1.webhooks w).map WebhookRecord.indexed = some existing.indexed
  events : s.2.fresh i w = true → (∀ j, s.2.writer w = some j → j = i) →
    ∀ e, w ∈ s.1.eventIndex e ↔ R e

/-- The call has drawn the id `w`, which nobody uses yet. -/
structure Reserved (P : Platform) (i : τ) (w : String) (s : Store × Trace τ) : Prop where
  idle : Idle P i s
  unborn : Unborn w s
  drawn : ∃ n, s.2.drawer n = some i ∧ w = "wh_" ++ P.randomUUID n

omit [DecidableEq τ] in
theorem stable_idle : Stable (callContract P i).rely (Idle P i) := by
  rintro s s' hs ⟨j, hj, hmeets⟩
  have h := hmeets hs.coherent
  exact ⟨h.coherent, fun id hw => hs.writer id ((h.writer i hj.symm id).mp hw)⟩

omit [DecidableEq τ] in
theorem stable_midway {existing : WebhookRecord} {R : String → Prop} :
    Stable (callContract P i).rely (Midway P i w existing R) := by
  rintro s s' hs ⟨j, hj, hmeets⟩
  have h := hmeets hs.coherent
  refine ⟨h.coherent, fun id hid hw => hs.writer id hid ((h.writer i hj.symm id).mp hw),
    fun hf => ?_, fun hf hmine => ?_⟩
  · obtain ⟨hf, hsame⟩ := h.fresh i hj.symm w hf
    rw [hsame.record]
    exact hs.record hf
  · obtain ⟨hf, hsame⟩ := h.fresh i hj.symm w hf
    intro e
    rw [hsame.events]
    exact hs.events hf (by rwa [hsame.writer] at hmine) e

omit [DecidableEq τ] in
theorem stable_started {existing : WebhookRecord} {R : String → Prop} :
    Stable (callContract P i).rely fun s => Idle P i s ∧ Midway P i w existing R s :=
  fun _ _ hs hr => ⟨stable_idle hs.1 hr, stable_midway hs.2 hr⟩

omit [DecidableEq τ] in
theorem stable_reserved : Stable (callContract P i).rely (Reserved P i w) := by
  rintro s s' hs ⟨j, hj, hmeets⟩
  have h := hmeets hs.idle.coherent
  obtain ⟨n, hn, hw⟩ := hs.drawn
  refine ⟨stable_idle hs.idle ⟨j, hj, hmeets⟩, h.unborn w hs.unborn fun m hm he => ?_,
    n, h.drawer n i hn, hw⟩
  -- the other call would have drawn the same UUID
  have huuid : P.randomUUID n = P.randomUUID m := by
    rw [hw] at he
    exact String.append_right_inj _ |>.mp he
  obtain rfl := P.uuid_inj huuid
  rw [hn] at hm
  exact hj (Option.some.inj hm).symm

/-! ## 4. Steps -/

omit [DecidableEq τ] in
theorem SameAt.unborn {id : String} (h : SameAt id s s') (hu : Unborn id s) : Unborn id s' := by
  refine ⟨?_, fun e => ?_, ?_⟩
  · have := h.record
    rw [hu.record] at this
    exact Option.map_eq_none_iff.mp this
  · rw [h.events]
    exact hu.events e
  · rw [h.writer]
    exact hu.writer

/-- Of a record only what is indexed matters. -/
theorem exists_event_iff {o : Option WebhookRecord} {e : String} :
    (∃ r, o = some r ∧ e ∈ r.events) ↔
      ∃ p, o.map WebhookRecord.indexed = some p ∧ e ∈ p.1 := by
  cases o <;> simp [WebhookRecord.indexed]

omit [DecidableEq τ] in
theorem SameAt.inEvents {id : String} (h : SameAt id s s') (hin : InEvents s.1 id) :
    InEvents s'.1 id := by
  intro e
  rw [h.events, hin e, exists_event_iff, exists_event_iff, h.record]

/-- Who still finds a webhook fresh that another call touches looks at another one. -/
theorem touched {k : τ} (hk : k ≠ i) {id : String} (hf : s.2.touch i w k id = true) :
    s.2.fresh k id = true ∧ (id = w → SameAt id s s') := by
  simp only [Trace.touch, Bool.and_eq_true, Bool.or_eq_true, decide_eq_true_eq] at hf
  exact ⟨hf.1, fun hid => absurd hid (hf.2.resolve_left hk)⟩

/-- Nothing that matters has changed. -/
structure Alike (s s' : Store × Trace τ) : Prop where
  webhooks : s'.1.webhooks = s.1.webhooks
  webhookIds : s'.1.webhookIds = s.1.webhookIds
  owners : s'.1.owners = s.1.owners
  eventIndex : s'.1.eventIndex = s.1.eventIndex
  uuidsDrawn : s'.1.uuidsDrawn = s.1.uuidsDrawn
  trace : s'.2 = s.2

omit [DecidableEq τ] in
theorem Alike.coherent (h : Alike s s') (hs : Coherent P s) : Coherent P s' where
  listed id := ⟨by rw [h.webhookIds, h.webhooks]; exact (hs.listed id).ids,
    by rw [h.owners, h.webhooks]; exact (hs.listed id).owners⟩
  inEvents id := by
    rw [h.trace, InEvents, h.eventIndex, h.webhooks]
    exact hs.inEvents id
  drawn id hid := by
    rw [h.uuidsDrawn]
    refine hs.drawn id fun hu => hid ⟨?_, ?_, ?_⟩
    · rw [h.webhooks]; exact hu.record
    · rw [h.eventIndex]; exact hu.events
    · rw [h.trace]; exact hu.writer
  drawer := by rw [h.trace, h.uuidsDrawn]; exact hs.drawer

omit [DecidableEq τ] in
theorem Alike.meets (h : Alike s s') (hs : Coherent P s) : Meets P i s s' where
  coherent := h.coherent hs
  fresh k _ id hf := by
    rw [h.trace] at hf
    exact ⟨hf, by rw [h.webhooks], fun e => by rw [h.eventIndex], by rw [h.trace]⟩
  unborn id hu _ := ⟨by rw [h.webhooks]; exact hu.record, by rw [h.eventIndex]; exact hu.events,
    by rw [h.trace]; exact hu.writer⟩
  drawer n k := by rw [h.trace]; exact fun hn => hn
  writer k _ id := by rw [h.trace]

omit [DecidableEq τ] in
/-- A step of the call `i` that changes the webhook `w` and nothing else. -/
theorem Meets.of_write (hs : Coherent P s) (hother : ∀ id, id ≠ w → SameAt id s s')
    (hlisted : ∀ id, Listed s'.1 id) (hin : s'.2.writer w = none → InEvents s'.1 w)
    (huuid : s'.1.uuidsDrawn = s.1.uuidsDrawn) (hdrawer : s'.2.drawer = s.2.drawer)
    (hfresh : ∀ k, k ≠ i → ∀ id, s'.2.fresh k id = true →
      s.2.fresh k id = true ∧ (id = w → SameAt id s s'))
    (hwriter : ∀ k, k ≠ i → (s'.2.writer w = some k ↔ s.2.writer w = some k))
    (hborn : Unborn w s → Unborn w s' ∨ ∃ n, s.2.drawer n = some i ∧ w = "wh_" ++ P.randomUUID n) :
    Meets P i s s' where
  coherent := by
    have hdrawn : ¬ Unborn w s' → ∃ n < s.1.uuidsDrawn, w = "wh_" ++ P.randomUUID n := by
      intro hu'
      by_cases hu : Unborn w s
      · obtain ⟨n, hn, hw⟩ := (hborn hu).resolve_left hu'
        exact ⟨n, hs.drawer n i hn, hw⟩
      · exact hs.drawn w hu
    refine ⟨hlisted, fun id hid => ?_, fun id hid => ?_, by rw [hdrawer, huuid]; exact hs.drawer⟩
    · by_cases hw : id = w
      · rw [hw] at hid ⊢
        exact hin hid
      · have hsame := hother id hw
        rw [hsame.writer] at hid
        exact hsame.inEvents (hs.inEvents id hid)
    · rw [huuid]
      by_cases hw : id = w
      · rw [hw] at hid ⊢
        exact hdrawn hid
      · exact hs.drawn id fun hu => hid ((hother id hw).unborn hu)
  fresh k hk id hf := by
    obtain ⟨hold, hsame⟩ := hfresh k hk id hf
    by_cases hw : id = w
    · exact ⟨hold, hsame hw⟩
    · exact ⟨hold, hother id hw⟩
  unborn id hu hmine := by
    by_cases hw : id = w
    · rw [hw] at hu hmine ⊢
      refine (hborn hu).resolve_right ?_
      rintro ⟨n, hn, he⟩
      exact hmine n hn he
    · exact (hother id hw).unborn hu
  drawer n k := by rw [hdrawer]; exact fun hn => hn
  writer k hk id := by
    by_cases hw : id = w
    · rw [hw]
      exact hwriter k hk
    · rw [(hother id hw).writer]

omit [DecidableEq τ] in
/-- Only `remove` may find that another call has changed the webhook. -/
theorem Timely.fresh {op : Op} {x : Env} (h : Timely i op x s) (hw : op.changes = some w)
    (hop : op.removes = false) : s.2.fresh i w = true := by
  refine (h.2 w hw).resolve_right ?_
  simp [hop]

/-- The rule for one command: what it does, where it is timely. -/
theorem satE_command {op : Op} {I : Store × Trace τ → Prop} {Q : op.Ret → Store × Trace τ → Prop}
    {E : Err → Store × Trace τ → Prop} (hQ : ∀ r, Stable (callContract P i).rely (Q r))
    (h : ∀ x s, I s → Timely i op x s →
      let s' := ((s.1.exec P (who i) x op).2, s.2.note i op s.1)
      Meets P i s s' ∧ Q (s.1.exec P (who i) x op).1 s') :
    SatE (tracedMachine P who) i (callContract P i) (redis op) I Q E := by
  intro x s hs hok
  have hexec : (tracedMachine P who).exec i op x s =
      (.ok (s.1.exec P (who i) x op).1, (s.1.exec P (who i) x op).2, s.2.note i op s.1) := by
    have : (machine P).exec (who i) op x s.1 = _ := machine_exec_ok P s.1 hok.1
    simp only [tracedMachine, Machine.observe, Machine.comap, this]
  rw [hexec]
  obtain ⟨hmeets, hq⟩ := h x s hs hok
  exact ⟨fun _ => hmeets, Q _, hQ _, hq, fun _ hq => hq⟩

/-- The rule for a command whose failure would only be logged. -/
theorem satE_unchecked {op : Op} {I Q : Store × Trace τ → Prop} {E : Err → Store × Trace τ → Prop}
    (hQ : Stable (callContract P i).rely Q)
    (h : ∀ x s, I s → Timely i op x s →
      let s' := ((s.1.exec P (who i) x op).2, s.2.note i op s.1)
      Meets P i s s' ∧ Q s') :
    SatE (tracedMachine P who) i (callContract P i) (unchecked op) I (fun _ => Q) E := by
  refine SatE.tryCatch (E := fun _ _ => False) ?_ fun e => SatE.pure fun _ hf => hf.elim
  exact SatE.bind (satE_command (Q := fun _ => Q) (fun _ => hQ) h) fun _ => SatE.pure fun _ hq => hq

/-! ## 5. What each command does -/

omit [DecidableEq τ] in
theorem Idle.alike (hs : Idle P i s) (h : Alike s s') : Idle P i s' :=
  ⟨h.coherent hs.coherent, by rw [h.trace]; exact hs.writer⟩

omit [DecidableEq τ] in
theorem Midway.alike {existing : WebhookRecord} {R : String → Prop} (hs : Midway P i w existing R s)
    (h : Alike s s') : Midway P i w existing R s' :=
  ⟨h.coherent hs.coherent, by rw [h.trace]; exact hs.writer,
    by rw [h.trace, h.webhooks]; exact hs.record, by rw [h.trace, h.eventIndex]; exact hs.events⟩

omit [DecidableEq τ] in
theorem Reserved.alike (hs : Reserved P i w s) (h : Alike s s') : Reserved P i w s' :=
  ⟨hs.idle.alike h, ⟨by rw [h.webhooks]; exact hs.unborn.record,
    by rw [h.eventIndex]; exact hs.unborn.events, by rw [h.trace]; exact hs.unborn.writer⟩,
    by rw [h.trace]; exact hs.drawn⟩

/-- Commands after which everything is as it was. -/
def Op.Plain : Op → Prop
  | .now | .randomBytes _ | .deliveryIds _ => True
  | _ => False

theorem Op.Plain.alike {op : Op} (h : op.Plain) (x : Env) (s : Store × Trace τ) :
    Alike s ((s.1.exec P (who i) x op).2, s.2.note i op s.1) := by
  cases op with
  | now | randomBytes | deliveryIds => exact ⟨rfl, rfl, rfl, rfl, rfl, rfl⟩
  | _ => exact h.elim

/-- The rule for such a command, for an assertion that depends on what matters only. -/
theorem satE_plain {op : Op} (hop : op.Plain) {I : Store × Trace τ → Prop}
    {E : Err → Store × Trace τ → Prop} (hI : Stable (callContract P i).rely I)
    (hcoherent : ∀ s, I s → Coherent P s) (halike : ∀ s s', I s → Alike s s' → I s') :
    SatE (tracedMachine P who) i (callContract P i) (redis op) I (fun _ => I) E :=
  satE_command (fun _ => hI) fun x s hs _ =>
    ⟨(hop.alike x s).meets (hcoherent s hs), halike s _ hs (hop.alike x s)⟩

/-- A record is read. -/
theorem satE_readWebhook (w : String) {E : Err → Store × Trace τ → Prop} :
    SatE (tracedMachine P who) i (callContract P i) (redis (.getWebhook w)) (Idle P i)
      (fun o s => match o with
        | none => Idle P i s
        | some existing => Idle P i s ∧ Midway P i w existing (· ∈ existing.events) s) E := by
  refine satE_command (fun o => ?_) fun x s hs _ => ?_
  · cases o with
    | none => exact stable_idle
    | some existing => exact stable_started
  have hcoherent : Coherent P ((s.1.exec P (who i) x (.getWebhook w)).2,
      s.2.note i (.getWebhook w) s.1) :=
    ⟨hs.coherent.listed, hs.coherent.inEvents,
      fun id hid => hs.coherent.drawn id fun hu => hid ⟨hu.record, hu.events, hu.writer⟩,
      hs.coherent.drawer⟩
  refine ⟨⟨hcoherent, fun k hk id hf => ?_, fun id hu _ => ⟨hu.record, hu.events, hu.writer⟩,
    fun _ _ hn => hn, fun _ _ _ => Iff.rfl⟩, ?_⟩
  · exact ⟨by simpa [Trace.note, hk] using hf, rfl, fun _ => Iff.rfl, rfl⟩
  · cases hrecord : s.1.webhooks w with
    | none =>
      simp only [Store.exec, hrecord]
      exact ⟨hcoherent, hs.writer⟩
    | some existing =>
      simp only [Store.exec, hrecord]
      refine ⟨⟨hcoherent, hs.writer⟩, hcoherent, fun id _ => hs.writer id,
        fun _ => by simp [hrecord], fun _ hmine e => ?_⟩
      have hnone : s.2.writer w = none := by
        cases hw : s.2.writer w with
        | none => rfl
        | some j =>
          have hj : j = i := hmine j hw
          rw [hj] at hw
          exact absurd hw (hs.writer w)
      rw [show (w ∈ s.1.eventIndex e) = _ from propext (hs.coherent.inEvents w hnone e)]
      simp [hrecord]

/-- An id is drawn. -/
theorem satE_generateId {E : Err → Store × Trace τ → Prop} :
    SatE (tracedMachine P who) i (callContract P i) generateId (Idle P i)
      (fun w => Reserved P i w) E := by
  refine SatE.bind (Q := fun uuid => Reserved P i ("wh_" ++ uuid)) ?_ fun _ => SatE.pure fun _ h => h
  refine satE_command (fun _ => stable_reserved) fun x s hs _ => ?_
  have hold : ∀ n k, s.2.drawer n = some k → n ≠ s.1.uuidsDrawn := fun n k hn he => by
    have := hs.coherent.drawer n k hn
    omega
  have hcoherent : Coherent P ((s.1.exec P (who i) x .randomUUID).2, s.2.note i .randomUUID s.1) := by
    refine ⟨fun id => ⟨(hs.coherent.listed id).ids, (hs.coherent.listed id).owners⟩,
      hs.coherent.inEvents, fun id hid => ?_, fun n k hn => ?_⟩
    · obtain ⟨n, hn, hw⟩ := hs.coherent.drawn id fun hu => hid ⟨hu.record, hu.events, hu.writer⟩
      exact ⟨n, Nat.lt_succ_of_lt hn, hw⟩
    · by_cases hnew : n = s.1.uuidsDrawn
      · rw [hnew]
        exact Nat.lt_succ_self _
      · have hn : s.2.drawer n = some k := by simpa [Trace.note, hnew] using hn
        exact Nat.lt_succ_of_lt (hs.coherent.drawer n k hn)
  refine ⟨⟨hcoherent, fun k _ id hf => ⟨hf, rfl, fun _ => Iff.rfl, rfl⟩,
    fun id hu _ => ⟨hu.record, hu.events, hu.writer⟩, fun n k hn => ?_, fun _ _ _ => Iff.rfl⟩,
    ⟨hcoherent, hs.writer⟩, ?_, s.1.uuidsDrawn, by simp [Trace.note], rfl⟩
  · simpa [Trace.note, hold n k hn] using hn
  · -- an id that is in use was drawn before
    have hunborn : Unborn ("wh_" ++ P.randomUUID s.1.uuidsDrawn) s := by
      by_contra hu
      obtain ⟨n, hn, he⟩ := hs.coherent.drawn _ hu
      have huuid := P.uuid_inj (String.append_right_inj _ |>.mp he)
      omega
    exact ⟨hunborn.record, hunborn.events, hunborn.writer⟩

/-- One index command of a call that is moving the webhook `w`: `change` is what it does to the
set of the event `evt`. -/
theorem satE_reindex {op : Op} {evt : String} {existing : WebhookRecord} {R R' : String → Prop}
    {E : Err → Store × Trace τ → Prop} (change : RSet String → RSet String)
    (hother : ∀ z id, id ≠ w → (id ∈ change z ↔ id ∈ z))
    (hself : ∀ z e, (w ∈ z ↔ R e) → ((if e = evt then w ∈ change z else w ∈ z) ↔ R' e))
    (hexec : ∀ x (s : Store), (s.exec P (who i) x op).2 = { s with
      eventIndex := Function.update s.eventIndex evt (change (s.eventIndex evt)) })
    (hnote : ∀ (s : Store) (h : Trace τ), h.note i op s = { h with
      fresh := h.touch i w
      writer := Function.update h.writer w (some ((h.writer w).getD i)) })
    (hwrites : ∀ x s, Timely i op x s → s.2.fresh i w = true) :
    SatE (tracedMachine P who) i (callContract P i) (unchecked op) (Midway P i w existing R)
      (fun _ => Midway P i w existing R') E := by
  refine satE_unchecked stable_midway fun x s hs hok => ?_
  have hf := hwrites x s hok
  have hrecord := hs.record hf
  have hmember : ∀ id e, id ∈ Function.update s.1.eventIndex evt (change (s.1.eventIndex evt)) e ↔
      if e = evt then id ∈ change (s.1.eventIndex e) else id ∈ s.1.eventIndex e := by
    intro id e
    by_cases he : e = evt
    · rw [he]
      simp
    · simp [he]
  rw [hexec, hnote]
  dsimp only
  have hmeets : Meets P i s ({ s.1 with
      eventIndex := Function.update s.1.eventIndex evt (change (s.1.eventIndex evt)) },
      { s.2 with
        fresh := s.2.touch i w
        writer := Function.update s.2.writer w (some ((s.2.writer w).getD i)) }) := by
    refine Meets.of_write (w := w) hs.coherent (fun id hid => ⟨rfl, fun e => ?_, ?_⟩)
      (fun id => ⟨(hs.coherent.listed id).ids, (hs.coherent.listed id).owners⟩)
      (fun hnone => ?_) rfl rfl (fun k hk id hf => touched hk hf) (fun k hk => ?_) fun hu => ?_
    · rw [hmember]
      split
      · exact hother _ id hid
      · exact Iff.rfl
    · simp [hid]
    · simp at hnone
    · cases hw : s.2.writer w with
      | none => simp [hk.symm]
      | some j => simp
    · simp [hu.record] at hrecord
  refine ⟨hmeets, hmeets.coherent, fun id hid => ?_, fun _ => hrecord, fun _ hmine e => ?_⟩
  · simpa [hid] using hs.writer id hid
  · rw [hmember]
    have hbefore := hs.events hf (fun j hj => ?_) e
    · exact hself (s.1.eventIndex e) e hbefore
    · exact hmine j (by simp [hj])

/-- `removeEventIndexes`. -/
theorem satE_remove_events (existing : WebhookRecord) {E : Err → Store × Trace τ → Prop}
    (events : List String) (R : String → Prop) :
    SatE (tracedMachine P who) i (callContract P i) (removeEventIndexes w events)
      (Midway P i w existing R)
      (fun _ => Midway P i w existing fun e => R e ∧ e ∉ events) E := by
  induction events generalizing R with
  | nil => exact SatE.pure fun s h => by simpa using h
  | cons evt events ih =>
    refine SatE.bind (Q := fun _ => Midway P i w existing fun e => R e ∧ e ≠ evt) ?_ fun _ => ?_
    · refine satE_reindex (fun z => z.srem w) (fun z id hid => by simp [hid]) (fun z e hz => ?_)
        (fun x s => rfl) (fun s h => rfl) fun x s hok => hok.fresh rfl rfl
      by_cases he : e = evt <;> simp [he, hz]
    · refine (ih _).mono (fun _ h => h) (fun _ s h => ?_) fun _ _ h => h
      have hset : (fun e => (R e ∧ e ≠ evt) ∧ e ∉ events) = fun e => R e ∧ e ∉ evt :: events := by
        funext e
        simp [and_assoc]
      rwa [hset] at h

/-- `addEventIndexes`. -/
theorem satE_add_events (existing : WebhookRecord) {E : Err → Store × Trace τ → Prop}
    (events : List String) (R : String → Prop) :
    SatE (tracedMachine P who) i (callContract P i) (addEventIndexes w events)
      (Midway P i w existing R)
      (fun _ => Midway P i w existing fun e => R e ∨ e ∈ events) E := by
  induction events generalizing R with
  | nil => exact SatE.pure fun s h => by simpa using h
  | cons evt events ih =>
    refine SatE.bind (Q := fun _ => Midway P i w existing fun e => R e ∨ e = evt) ?_ fun _ => ?_
    · refine satE_reindex (fun z => z.sadd w) (fun z id hid => by simp [hid]) (fun z e hz => ?_)
        (fun x s => rfl) (fun s h => rfl) fun x s hok => hok.fresh rfl rfl
      by_cases he : e = evt <;> simp [he, hz]
    · refine (ih _).mono (fun _ h => h) (fun _ s h => ?_) fun _ _ h => h
      have hset : (fun e => (R e ∨ e = evt) ∨ e ∈ events) = fun e => R e ∨ e ∈ evt :: events := by
        funext e
        simp [or_assoc]
      rwa [hset] at h

/-- The last command of a call: it is no longer the writer. -/
theorem writer_done {id : String} (hs : ∀ id, id ≠ w → s.2.writer id ≠ some i) :
    Function.update s.2.writer w ((s.2.writer w).filter (· ≠ i)) id ≠ some i := by
  by_cases hid : id = w
  · rw [hid, Function.update_self]
    cases hw : s.2.writer w with
    | none => simp
    | some j => by_cases hj : j = i <;> simp [hj]
  · rw [Function.update_of_ne hid]
    exact hs id hid

/-- Nobody else is concerned. -/
theorem writer_done_iff {k : τ} (hk : k ≠ i) :
    Function.update s.2.writer w ((s.2.writer w).filter (· ≠ i)) w = some k ↔
      s.2.writer w = some k := by
  rw [Function.update_self]
  cases hw : s.2.writer w with
  | none => simp
  | some j =>
    by_cases hj : j = i
    · rw [hj]
      simp [hk.symm]
    · rw [Option.filter_some, if_pos (by simpa using hj)]

/-- A call that is not the writer leaves the webhook to the one that is. -/
theorem writer_kept (h : s.2.writer w ≠ some i) :
    Function.update s.2.writer w ((s.2.writer w).filter (· ≠ i)) w = s.2.writer w := by
  rw [Function.update_self]
  cases hw : s.2.writer w with
  | none => rfl
  | some j =>
    have hj : j ≠ i := fun he => h (by rw [hw, he])
    rw [Option.filter_some, if_pos (by simpa using hj)]

/-- Unless another call is in the middle of moving the webhook, its sets are what they should be. -/
theorem mine_of_done (hnone : Function.update s.2.writer w ((s.2.writer w).filter (· ≠ i)) w = none)
    (j : τ) (hj : s.2.writer w = some j) : j = i := by
  by_contra hne
  simp [hj, hne] at hnone

/-- `update` stores the record. -/
theorem satE_setWebhook {existing record : WebhookRecord} {E : Err → Store × Trace τ → Prop}
    (howner : record.owner_ip = existing.owner_ip) :
    SatE (tracedMachine P who) i (callContract P i) (redis (.setWebhook w record))
      (Midway P i w existing (· ∈ record.events)) (fun _ => Idle P i) E := by
  refine satE_command (fun _ => stable_idle) fun x s hs hok => ?_
  have hf : s.2.fresh i w = true := hok.fresh rfl rfl
  have hold := hs.record hf
  obtain ⟨r, hr, hindexed⟩ := Option.map_eq_some_iff.mp hold
  have hrowner : record.owner_ip = r.owner_ip := by
    rw [howner]
    exact congrArg Prod.snd hindexed.symm
  have hmeets : Meets P i s ((s.1.exec P (who i) x (.setWebhook w record)).2,
      s.2.note i (.setWebhook w record) s.1) := by
    refine Meets.of_write (w := w) hs.coherent (fun id hid => ?_) (fun id => ?_) (fun hnone e => ?_)
      rfl rfl (fun k hk id hf => ?_) (fun k hk => writer_done_iff hk) fun hu => ?_
    · exact ⟨by simp [Store.exec, hid], fun _ => Iff.rfl, by simp [Trace.note, hid]⟩
    · have hl := hs.coherent.listed id
      by_cases hid : id = w
      · rw [hid] at hl ⊢
        refine ⟨?_, fun ip => ?_⟩
        · simpa [Store.exec, hr] using hl.ids
        · simpa [Store.exec, hr, hrowner] using hl.owners ip
      · exact ⟨by simpa [Store.exec, hid] using hl.ids, by simpa [Store.exec, hid] using hl.owners⟩
    · simpa [Store.exec] using hs.events hf (mine_of_done hnone) e
    · dsimp only [Trace.note] at hf
      split at hf
      · rename_i hsame
        refine ⟨hf, fun hid => ⟨?_, fun _ => Iff.rfl, ?_⟩⟩
        · rw [hid, hsame.1]
          simp [Store.exec]
        · rw [hid]
          exact writer_kept hsame.2
      · exact touched hk hf
    · simp [hu.record] at hr
  exact ⟨hmeets, hmeets.coherent, fun id => writer_done hs.writer⟩

/-- What `remove` leaves in the sets of the events and of the owners. -/
theorem deleteWebhook_sets (existing : WebhookRecord) (ids : List String) (x : Env) (s : Store)
    (who : Caller) (id : String) :
    (∀ e, id ∈ (s.exec P who x (.deleteWebhook w existing ids)).2.eventIndex e ↔
      id ∈ s.eventIndex e ∧ (e ∈ existing.events → id ≠ w)) ∧
    ∀ ip, id ∈ (s.exec P who x (.deleteWebhook w existing ids)).2.owners ip ↔
      id ∈ s.owners ip ∧ (existing.owner_ip = some ip → id ≠ w) := by
  refine ⟨fun e => ?_, fun ip => ?_⟩
  · by_cases he : e ∈ existing.events <;> simp [Store.exec, he]
  · cases ho : existing.owner_ip with
    | none => simp [Store.exec, ho]
    | some ip' =>
      by_cases hip : ip = ip'
      · simp [Store.exec, ho, hip]
      · have hne : ip' ≠ ip := fun he => hip he.symm
        simp [Store.exec, ho, hip, hne]

/-- `remove` deletes the record with its index entries, or finds nothing left of it. -/
theorem satE_deleteWebhook {existing : WebhookRecord} (ids : List String)
    {E : Err → Store × Trace τ → Prop} :
    SatE (tracedMachine P who) i (callContract P i) (redis (.deleteWebhook w existing ids))
      (fun s => Idle P i s ∧ Midway P i w existing (· ∈ existing.events) s) (fun _ => Idle P i)
      E := by
  refine satE_command (fun _ => stable_idle) fun x s hs hok => ?_
  obtain ⟨hidle, hs⟩ := hs
  have hevents := fun id => (deleteWebhook_sets (P := P) (w := w) existing ids x s.1 (who i) id).1
  have howners := fun id => (deleteWebhook_sets (P := P) (w := w) existing ids x s.1 (who i) id).2
  -- the webhook is as the call has read it, or another call has removed it
  have hcases : s.1.webhooks w = none ∨
      s.2.fresh i w = true ∧ ∃ r, s.1.webhooks w = some r ∧ r.indexed = existing.indexed := by
    rcases hok.2 w rfl with hf | ⟨-, hnone⟩
    · exact .inr ⟨hf, Option.map_eq_some_iff.mp (hs.record hf)⟩
    · exact .inl (Option.isNone_iff_eq_none.mp hnone)
  have hmeets : Meets P i s ((s.1.exec P (who i) x (.deleteWebhook w existing ids)).2,
      s.2.note i (.deleteWebhook w existing ids) s.1) := by
    refine Meets.of_write (w := w) hs.coherent (fun id hid => ?_) (fun id => ?_) (fun hnone e => ?_)
      rfl rfl (fun k hk id hf => touched hk hf) (fun k hk => writer_done_iff hk)
      fun hu => .inl ⟨by simp [Store.exec], fun e => ?_, ?_⟩
    · refine ⟨by simp [Store.exec, hid], fun e => ?_, by simp [Trace.note, hid]⟩
      rw [hevents]
      simp [hid]
    · have hl := hs.coherent.listed id
      by_cases hid : id = w
      · rw [hid] at hl ⊢
        refine ⟨by simp [Store.exec], fun ip => ?_⟩
        rw [howners, hl.owners]
        rcases hcases with hnone | ⟨-, r, hr, hindexed⟩
        · simp [Store.exec, hnone]
        · have hip : r.owner_ip = existing.owner_ip := congrArg Prod.snd hindexed
          simp [Store.exec, hr, hip]
      · refine ⟨by simpa [Store.exec, hid] using hl.ids, fun ip => ?_⟩
        rw [howners, hl.owners]
        simp [Store.exec, hid]
    · rw [hevents]
      rcases hcases with hgone | ⟨hf, -⟩
      · have hkept : s.2.writer w = none := by
          rw [← writer_kept (hidle.writer w)]
          exact hnone
        rw [show (w ∈ s.1.eventIndex e) = _ from propext (hs.coherent.inEvents w hkept e)]
        simp [Store.exec, hgone]
      · rw [hs.events hf (mine_of_done hnone)]
        simp [Store.exec]
    · rw [hevents]
      exact fun h => hu.events e h.1
    · exact (writer_kept (hidle.writer w)).trans hu.writer
  exact ⟨hmeets, hmeets.coherent, fun id => writer_done hs.writer⟩

/-- `create` stores a webhook with its index entries. -/
theorem satE_insertWebhook {record : WebhookRecord} (score : ℕ)
    {E : Err → Store × Trace τ → Prop} :
    SatE (tracedMachine P who) i (callContract P i) (redis (.insertWebhook record score))
      (Reserved P i record.id) (fun _ => Idle P i) E := by
  refine satE_command (fun _ => stable_idle) fun x s hs _ => ?_
  have hevents : ∀ id e, id ∈ (s.1.exec P (who i) x (.insertWebhook record score)).2.eventIndex e ↔
      id ∈ s.1.eventIndex e ∨ (e ∈ record.events ∧ id = record.id) := by
    intro id e
    by_cases he : e ∈ record.events <;> simp [Store.exec, he]
  have howners : ∀ id ip, id ∈ (s.1.exec P (who i) x (.insertWebhook record score)).2.owners ip ↔
      id ∈ s.1.owners ip ∨ (record.owner_ip = some ip ∧ id = record.id) := by
    intro id ip
    cases ho : record.owner_ip with
    | none => simp [Store.exec, ho]
    | some ip' =>
      by_cases hip : ip = ip'
      · simp [Store.exec, ho, hip]
      · have hne : ip' ≠ ip := fun he => hip he.symm
        simp [Store.exec, ho, hip, hne]
  have hmeets : Meets P i s ((s.1.exec P (who i) x (.insertWebhook record score)).2,
      s.2.note i (.insertWebhook record score) s.1) := by
    refine Meets.of_write (w := record.id) hs.idle.coherent (fun id hid => ?_) (fun id => ?_)
      (fun _ e => ?_) rfl rfl (fun k hk id hf => touched hk hf) (fun _ _ => Iff.rfl) fun _ => .inr hs.drawn
    · refine ⟨by simp [Store.exec, hid], fun e => ?_, rfl⟩
      rw [hevents]
      simp [hid]
    · have hl := hs.idle.coherent.listed id
      by_cases hid : id = record.id
      · rw [hid] at hl ⊢
        refine ⟨by simp [Store.exec], fun ip => ?_⟩
        rw [howners, hl.owners, hs.unborn.record]
        simp [Store.exec]
      · refine ⟨by simpa [Store.exec, hid] using hl.ids, fun ip => ?_⟩
        rw [howners, hl.owners]
        simp [Store.exec, hid]
    · rw [hevents]
      simp [Store.exec, hs.unborn.events e]
  exact ⟨hmeets, hmeets.coherent, hs.idle.writer⟩

/-! ## 6. What each call does -/

/-- A piece of a call that only draws bytes, for an assertion that does not depend on them. -/
theorem satE_encrypt (config : Config) (secret : String) {I E : Store × Trace τ → Prop}
    (hI : Stable (callContract P i).rely I) (hcoherent : ∀ s, I s → Coherent P s)
    (halike : ∀ s s', I s → Alike s s' → I s') (hE : ∀ s, I s → E s) :
    SatE (tracedMachine P who) i (callContract P i) (encryptSecretNow P config secret) I
      (fun _ => I) fun _ => E := by
  refine SatE.bind (Q := fun _ => I) (satE_plain (by exact trivial) hI hcoherent halike) fun iv => ?_
  split
  · exact SatE.throw hE
  · exact SatE.pure fun _ h => h

/-- **`create`.** -/
theorem create_meets (config : Config) (data : NewWebhook) :
    SatE (tracedMachine P who) i (callContract P i) (create P config data) (Idle P i)
      (fun _ => Idle P i) fun _ => Idle P i := by
  rw [create]
  split
  · exact SatE.throw fun _ h => h
  refine SatE.bind satE_generateId fun id => ?_
  refine SatE.bind (Q := fun _ => Reserved P i id) (satE_plain (by exact trivial) stable_reserved
    (fun _ h => h.idle.coherent) fun _ _ h => h.alike) fun now => ?_
  refine SatE.bind (Q := fun _ => Reserved P i id) (satE_encrypt config data.secret stable_reserved
    (fun _ h => h.idle.coherent) (fun _ _ h => h.alike) fun _ h => h.idle) fun secret => ?_
  exact SatE.bind (Q := fun _ => Idle P i) (satE_insertWebhook now) fun _ => SatE.pure fun _ h => h

/-- **`update`.** -/
theorem update_meets (config : Config) (id : String) (patch : WebhookPatch) :
    SatE (tracedMachine P who) i (callContract P i) (update P config id patch) (Idle P i)
      (fun _ => Idle P i) fun _ => Idle P i := by
  refine SatE.bind (satE_readWebhook id) ?_
  rintro (_ | existing)
  · exact SatE.pure fun _ h => h
  have halike : ∀ s s' : Store × Trace τ,
      (Idle P i s ∧ Midway P i id existing (· ∈ existing.events) s) → Alike s s' →
      Idle P i s' ∧ Midway P i id existing (· ∈ existing.events) s' :=
    fun _ _ h he => ⟨h.1.alike he, h.2.alike he⟩
  have hsecret : SatE (tracedMachine P who) i (callContract P i)
      (nextSecret P config existing patch)
      (fun s => Idle P i s ∧ Midway P i id existing (· ∈ existing.events) s)
      (fun _ s => Idle P i s ∧ Midway P i id existing (· ∈ existing.events) s)
      fun _ => Idle P i := by
    rw [nextSecret]
    split
    · exact satE_encrypt config _ stable_started (fun _ h => h.1.coherent) halike fun _ h => h.1
    · exact SatE.pure fun _ h => h
  refine SatE.bind hsecret fun secret => ?_
  refine SatE.bind (satE_plain (by exact trivial) stable_started (fun _ h => h.1.coherent) halike) fun now => ?_
  have hreindex : SatE (tracedMachine P who) i (callContract P i) (reindex id existing patch.events)
      (fun s => Idle P i s ∧ Midway P i id existing (· ∈ existing.events) s)
      (fun _ => Midway P i id existing (· ∈ (patched existing patch secret now).events))
      fun _ => Idle P i := by
    cases hpatch : patch.events with
    | none =>
      refine SatE.pure fun s h => ?_
      simpa [patched, hpatch] using h.2
    | some events =>
      refine SatE.bind ((satE_remove_events existing existing.events _).mono (fun _ h => h.2)
        (fun _ _ h => h) fun _ _ h => h) fun _ => ?_
      refine (satE_add_events existing events _).mono (fun _ h => h) (fun _ s h => ?_) fun _ _ h => h
      have hset : (fun e => (e ∈ existing.events ∧ e ∉ existing.events) ∨ e ∈ events) =
          (· ∈ (patched existing patch secret now).events) := by
        funext e
        simp [patched, hpatch]
      rwa [hset] at h
  refine SatE.bind hreindex fun _ => ?_
  exact SatE.bind (Q := fun _ => Idle P i) (satE_setWebhook rfl) fun _ => SatE.pure fun _ h => h

/-- **`remove`.** -/
theorem remove_meets (config : Config) (id : String) :
    SatE (tracedMachine P who) i (callContract P i) (remove P config id) (Idle P i)
      (fun _ => Idle P i) fun _ => Idle P i := by
  refine SatE.bind (satE_readWebhook id) ?_
  rintro (_ | existing)
  · exact SatE.pure fun _ h => h
  refine SatE.bind (satE_plain (by exact trivial) stable_started (fun _ h => h.1.coherent)
    fun _ _ h he => ⟨h.1.alike he, h.2.alike he⟩) fun ids => ?_
  refine SatE.bind (Q := fun _ => Idle P i) (satE_deleteWebhook ids) fun _ =>
    SatE.pure fun _ h => h

theorem repoCall_meets (config : Config) (call : RepoCall) :
    SatE (tracedMachine P who) i (callContract P i) (call.code P config) (Idle P i)
      (fun _ => Idle P i) fun _ => Idle P i := by
  cases call with
  | create data => exact SatE.bind (create_meets config data) fun _ => SatE.pure fun _ h => h
  | update id patch => exact SatE.bind (update_meets config id patch) fun _ => SatE.pure fun _ h => h
  | remove id => exact SatE.bind (remove_meets config id) fun _ => SatE.pure fun _ h => h

/-! ## 7. Every interleaving -/

/-- Every call at its start, with an empty trace. -/
def startCalls (P : Platform) (config : Config) (call : τ → RepoCall) (s : Store) :
    Pool sig (Except Err Unit) τ (Store × Trace τ) where
  store := (s, .init)
  prog i := ((call i).code P config).prog

/-- Records and indexes agree, and every id in use has been drawn. -/
structure Agrees (P : Platform) (s : Store) : Prop where
  listed : ∀ id, Listed s id
  inEvents : ∀ id, InEvents s id
  drawn : ∀ id, (s.webhooks id).isSome → ∃ n < s.uuidsDrawn, id = "wh_" ++ P.randomUUID n

omit [DecidableEq τ] in
theorem Agrees.coherent {s : Store} (h : Agrees P s) :
    Coherent P (s, (Trace.init : Trace τ)) := by
  refine ⟨h.listed, fun id _ => h.inEvents id, fun id hid => h.drawn id ?_, nofun⟩
  by_contra hnone
  have hnone : s.webhooks id = none := by simpa using hnone
  refine hid ⟨hnone, fun e he => ?_, rfl⟩
  obtain ⟨r, hr, -⟩ := (h.inEvents id e).mp he
  rw [hnone] at hr
  cases hr

/-- **The indexes agree with the records.**  Any number of calls that create, update and remove
webhooks interleave, no command fails, and no call writes a webhook whose events another one has
changed since it read it, or removes one but for finding it removed: once all calls have returned, an id is in the set of an event exactly when its
record exists and lists the event, and its record exists exactly when the id is in `webhooks:ids`
and in the index of its owner, if it has one. -/
theorem indexes_agree (P : Platform) (config : Config) (who : τ → Caller) (call : τ → RepoCall)
    (s : Store) (hs : Agrees P s) (ls : List (τ × Env))
    (hls : Along (Pool.step (tracedMachine P who))
      (fun c l => Pool.Issues (S := sig) (Timely l.1) c l) (startCalls P config call s) ls)
    (hdone : ∀ i, ∃ r, (run (Pool.step (tracedMachine P who)) (startCalls P config call s) ls).prog i =
      .ret r) :
    let final := (run (Pool.step (tracedMachine P who)) (startCalls P config call s) ls).store.1
    ∀ id, InEvents final id ∧ Listed final id := by
  have hstart : (startCalls P config call s).Safe (tracedMachine P who) (callContract P)
      fun i _ => Idle P i := fun i => ⟨Idle P i, stable_idle, ⟨hs.coherent, nofun⟩,
    Sat.mono (repoCall_meets config (call i)) (fun _ h => h) fun r _ h => by cases r <;> exact h⟩
  have hcompatible : Pool.Compatible (callContract P : τ → _) :=
    fun i j hij s s' h => ⟨i, fun he => hij he.symm, h⟩
  have hsafe := hstart.run hcompatible hls
  intro final id
  cases hwriter : (run (Pool.step (tracedMachine P who)) (startCalls P config call s) ls).store.2.writer
      id with
  | none =>
    have hcoherent : Coherent P (run (Pool.step (tracedMachine P who))
        (startCalls P config call s) ls).store :=
      hstart.run_stable (A := Coherent P) (fun i _ _ hs h => (h hs).coherent) hcompatible
        hs.coherent hls
    exact ⟨hcoherent.inEvents id hwriter, hcoherent.listed id⟩
  | some i =>
    -- the writer of a webhook has not returned
    obtain ⟨r, hr⟩ := hdone i
    exact absurd hwriter ((hsafe.done hr).writer id)

/-- A webhook is created, and two calls give it events of their own. -/
def sampleCalls : Option Bool → RepoCall
  | none => .create { wildcardWebhook with events := ["pool.created"] }
  | some false => .update "wh_" { events := some ["pool.funded"] }
  | some true => .update "wh_" { events := some ["airdrop.failed"] }

/-- The calls on an empty store. -/
def sampleStart : Pool sig (Except Err Unit) (Option Bool) (Store × Trace (Option Bool)) :=
  startCalls samplePlatform sampleConfig sampleCalls .init

theorem agrees_init : Agrees P Store.init :=
  ⟨fun id => ⟨by simp [Store.init], fun ip => by simp [Store.init]⟩,
    fun id e => by simp [Store.init], fun id hid => by simp [Store.init] at hid⟩

/-- The second update waits for the first one. -/
def oneByOne : List (Option Bool × Env) :=
  [none, none, none, none, some false, some false, some false, some false, some false,
    some true, some true, some true, some true, some true].map fun i => (i, answering 200)

theorem indexes_agree_sample :
    InEvents (run (Pool.step (tracedMachine samplePlatform fun _ => server)) sampleStart
        oneByOne).store.1 "wh_" ∧
      Listed (run (Pool.step (tracedMachine samplePlatform fun _ => server)) sampleStart
        oneByOne).store.1 "wh_" := by
  refine indexes_agree samplePlatform sampleConfig (fun _ => server) sampleCalls .init agrees_init
    oneByOne ?_ ?_ "wh_"
  · decide +kernel
  · have hdone : ∀ i : Option Bool, ((run (Pool.step (tracedMachine samplePlatform fun _ => server))
        sampleStart oneByOne).prog i).result?.isSome := by decide +kernel
    intro i
    obtain ⟨r, hr⟩ := Option.isSome_iff_exists.mp (hdone i)
    cases hp : (run (Pool.step (tracedMachine samplePlatform fun _ => server)) sampleStart
        oneByOne).prog i with
    | ret a => exact ⟨a, hp⟩
    | cmd op k => simp [hp] at hr

/-- Both updates read the record before either writes it: the set of the first one's event keeps
the id. -/
def bothRead : List (Option Bool × Env) :=
  [none, none, none, none, some false, some true, some false, some false, some false, some false,
    some true, some true, some true, some true].map fun i => (i, answering 200)

theorem indexes_disagree : ¬ ∀ (call : Option Bool → RepoCall) (s : Store),
    Agrees samplePlatform s → ∀ ls : List (Option Bool × Env), (∀ l ∈ ls, l.2.fault = .none) →
    let final := run (Pool.step (tracedMachine samplePlatform fun _ => server))
      (startCalls samplePlatform sampleConfig call s) ls
    (∀ i, (final.prog i).result?.isSome) →
      ∀ id, InEvents final.store.1 id ∧ Listed final.store.1 id := by
  intro h
  have hagree := (h sampleCalls .init agrees_init bothRead (by decide) (by decide +kernel) "wh_").1
  have hin : "wh_" ∈ (run (Pool.step (tracedMachine samplePlatform fun _ => server)) sampleStart
      bothRead).store.1.eventIndex "pool.funded" := by decide +kernel
  have hout : ∀ r ∈ (run (Pool.step (tracedMachine samplePlatform fun _ => server)) sampleStart
      bothRead).store.1.webhooks "wh_", "pool.funded" ∉ r.events := by decide +kernel
  obtain ⟨r, hr, he⟩ := (hagree "pool.funded").mp hin
  exact hout r hr he

end SmartDrop.Webhooks
