/-
# One delivery for each webhook and event

`deliverToWebhook` creates a delivery record only after `SET NX` has granted it the webhook and
the event, so the grants are tickets (`tickets`) that a call holds until it creates the record.
What the calls hold and what was created never lists a webhook and event twice
(`Dispatchers.Accounted`), whatever the order of the steps and whatever fails: also where the two
layers meet, the key of the event being claimed by another dispatch or lost with a failed one.
-/
import SmartDrop.Lib.Tickets
import SmartDrop.Webhooks.Attempt
import SmartDrop.Webhooks.Dispatch

namespace SmartDrop.Webhooks

open Conc Redis

/-! ## 1. The webhook repository -/

/-- Steps of the webhook repository. -/
def Op.OfRepository : Op → Prop
  | .now | .randomUUID | .randomBytes _ | .getWebhook _ | .insertWebhook .. | .sremEvent ..
  | .saddEvent .. | .setWebhook .. | .deliveryIds _ | .deleteWebhook .. => True
  | _ => False

variable (P : Platform) (config : Config)

namespace webhookRepository

theorem uses_encryptSecretNow (secret : String) : Uses Op.OfRepository (encryptSecretNow P config secret) := by
  refine Throws.Uses.bind (uses_redis trivial) fun iv => ?_
  split
  · exact Throws.uses_throw _
  · exact Throws.uses_pure _

theorem uses_create (w : NewWebhook) : Uses Op.OfRepository (create P config w) := by
  rw [create]
  split
  · exact Throws.uses_throw _
  · refine Throws.Uses.bind (Throws.Uses.bind (uses_redis trivial) fun _ =>
      Throws.uses_pure _) fun id => ?_
    refine Throws.Uses.bind (uses_redis trivial) fun now => ?_
    refine Throws.Uses.bind (uses_encryptSecretNow P config w.secret) fun secret => ?_
    exact Throws.Uses.bind (uses_redis trivial) fun _ => Throws.uses_pure _

theorem uses_removeEventIndexes (id : String) (events : List String) :
    Uses Op.OfRepository (removeEventIndexes id events) := by
  induction events with
  | nil => exact Throws.uses_pure _
  | cons e events ih => exact Throws.Uses.bind (uses_unchecked trivial) fun _ => ih

theorem uses_addEventIndexes (id : String) (events : List String) :
    Uses Op.OfRepository (addEventIndexes id events) := by
  induction events with
  | nil => exact Throws.uses_pure _
  | cons e events ih => exact Throws.Uses.bind (uses_unchecked trivial) fun _ => ih

theorem uses_reindex (id : String) (existing : WebhookRecord) (events : Option (List String)) :
    Uses Op.OfRepository (reindex id existing events) := by
  cases events with
  | none => exact Throws.uses_pure _
  | some events =>
    exact Throws.Uses.bind (uses_removeEventIndexes id _) fun _ => uses_addEventIndexes id _

theorem uses_update (id : String) (patch : WebhookPatch) : Uses Op.OfRepository (update P config id patch) := by
  refine Throws.Uses.bind (uses_redis trivial) ?_
  rintro (_ | existing)
  · exact Throws.uses_pure _
  have hsecret : Uses Op.OfRepository (nextSecret P config existing patch) := by
    rw [nextSecret]
    split
    · exact uses_encryptSecretNow P config _
    · exact Throws.uses_pure _
  refine Throws.Uses.bind hsecret fun secret => ?_
  refine Throws.Uses.bind (uses_redis trivial) fun now => ?_
  refine Throws.Uses.bind (uses_reindex id existing patch.events) fun _ => ?_
  exact Throws.Uses.bind (uses_redis trivial) fun _ => Throws.uses_pure _

theorem uses_remove (id : String) : Uses Op.OfRepository (remove P config id) := by
  refine Throws.Uses.bind (uses_redis trivial) ?_
  rintro (_ | existing)
  · exact Throws.uses_pure _
  refine Throws.Uses.bind (uses_redis trivial) fun ids => ?_
  exact Throws.Uses.bind (uses_redis trivial) fun _ => Throws.uses_pure _

end webhookRepository

theorem uses_repoCall (call : RepoCall) : Uses Op.OfRepository (call.code P config) := by
  cases call with
  | create w =>
    exact Throws.Uses.bind (webhookRepository.uses_create P config w) fun _ => Throws.uses_pure _
  | update id patch =>
    exact Throws.Uses.bind (webhookRepository.uses_update P config id patch) fun _ =>
      Throws.uses_pure _
  | remove id =>
    exact Throws.Uses.bind (webhookRepository.uses_remove P config id) fun _ => Throws.uses_pure _

/-! ## 2. The tickets of the service -/

/-- `SET NX` grants a webhook and an event, and creating a record of them takes the grant. -/
def tickets : Tickets sig (String × String) where
  gain
    | .claimDelivery webhookId eventId, .ok true => some (webhookId, eventId)
    | _, _ => none
  spend
    | .insertDelivery record _ => some (record.webhook_id, record.event_id)
    | _ => none
  spend_of_gain op r a h := by
    cases op <;> first | rfl | cases h

/-- Steps that are not granted anything and create nothing. -/
def Op.Free (op : Op) : Prop := tickets.Free op

/-- Steps that create nothing. -/
def Op.Spendless (op : Op) : Prop := tickets.spend op = none

theorem Op.Free.spendless {op : Op} (h : op.Free) : op.Spendless := h.1

theorem Op.Quiet.free {op : Op} (h : op.Quiet) : op.Free := by
  cases op <;> first | exact ⟨rfl, fun _ => rfl⟩ | exact h.elim

theorem Op.OfAttempt.free {op : Op} {d : String} (h : op.OfAttempt d) : op.Free := by
  cases op <;> first | exact ⟨rfl, fun _ => rfl⟩ | exact h.elim

theorem Op.OfRepository.free {op : Op} (h : op.OfRepository) : op.Free := by
  cases op <;> first | exact ⟨rfl, fun _ => rfl⟩ | exact h.elim

section Programs

variable {α : Type} {t : Code α} {d : String}

theorem free_quiet (h : Uses Op.Quiet t) : Uses Op.Free t :=
  Prog.Uses.mono (fun _ hop => Op.Quiet.free hop) h

theorem free_ofAttempt (h : Uses (Op.OfAttempt d) t) : Uses Op.Free t :=
  Prog.Uses.mono (fun _ hop => Op.OfAttempt.free hop) h

theorem spendless_free (h : Uses Op.Free t) : Uses Op.Spendless t :=
  Prog.Uses.mono (fun _ hop => Op.Free.spendless hop) h

end Programs

/-! ## 3. The calls -/

namespace retryWorker

theorem free_attemptAll (ids : List String) : Uses Op.Free (attemptAll P config ids) := by
  induction ids with
  | nil => exact Throws.uses_pure _
  | cons id ids ih =>
    refine Throws.Uses.bind (Throws.Uses.tryCatch ?_ fun _ => Throws.uses_pure _) fun _ => ih
    exact Throws.Uses.bind (free_ofAttempt (dispatcher.uses_attempt P config id none)) fun _ =>
      Throws.uses_pure _

theorem free_tick : Uses Op.Free (tick P config) := by
  have hdue : Uses Op.Free (due config) :=
    Throws.Uses.bind (uses_redis ⟨rfl, fun _ => rfl⟩) fun _ => uses_redis ⟨rfl, fun _ => rfl⟩
  exact Throws.Uses.tryCatch (Throws.Uses.bind hdue fun ids => free_attemptAll P config ids) fun _ =>
    Throws.uses_pure _

end retryWorker

namespace dispatcher

/-- `insertAs` creates a record of what it was asked for. -/
theorem affine_insertAs (d : NewDelivery) (id : String) :
    tickets.Affine (some (d.webhook_id, d.event_id)) (deliveryRepository.insertAs d id).prog := by
  refine Tickets.affine_andThen (uses_redis ⟨rfl, fun _ => rfl⟩) fun now => ?_
  have hinsert : ∀ traceId, tickets.Affine (some (d.webhook_id, d.event_id)) (Throws.prog (do
      redis (.insertDelivery (deliveryRepository.newRecord d id traceId now) now)
      return deliveryRepository.newRecord d id traceId now : Code Delivery)) := fun traceId =>
    Tickets.Affine.andThen ⟨fun a ha => ha, fun r => trivial⟩ fun _ => Throws.uses_pure _
  dsimp only
  split
  · exact hinsert _
  · exact Tickets.affine_andThen (Throws.Uses.bind (uses_redis ⟨rfl, fun _ => rfl⟩) fun _ =>
      Throws.uses_pure _) hinsert

/-- A new delivery is created with the grant for it, if at all. -/
theorem affine_create (d : NewDelivery) : tickets.Affine (some (d.webhook_id, d.event_id))
    (deliveryRepository.create P config d).prog := by
  have hprepare : Uses Op.Free (deliveryRepository.prepare P config d) := by
    rw [deliveryRepository.prepare]
    split
    · exact Throws.uses_throw _
    refine Throws.Uses.bind (free_quiet (uses_webhookById P config _)) ?_
    rintro (_ | webhook)
    · exact Throws.uses_throw _
    · exact Throws.Uses.bind (uses_redis ⟨rfl, fun _ => rfl⟩) fun _ => Throws.uses_pure _
  refine Tickets.affine_andThen hprepare fun id => ?_
  refine (affine_insertAs d id).andThen fun record => ?_
  exact Throws.Uses.bind (uses_unchecked rfl) fun _ => Throws.uses_pure _

/-- **A call that delivers creates one record, and only when it is granted.** -/
theorem affine_deliverToWebhook (n : Notice) :
    tickets.Affine none (deliverToWebhook P config n).prog := by
  refine Tickets.affine_andThen (uses_redis ⟨rfl, fun _ => rfl⟩) fun _ => ?_
  rw [Throws.prog_bind]
  refine ⟨fun a ha => (nomatch ha), fun r => ?_⟩
  rcases r with e | claimed
  · trivial
  cases claimed with
  | false => trivial
  | true =>
    -- granted: the ticket is there when the record is created
    change tickets.Affine (some (n.webhook.id, n.eventId)) (Throws.prog _)
    refine (affine_create P config n.newDelivery).andThen fun delivery => ?_
    refine Throws.Uses.bind (spendless_free (free_ofAttempt (uses_ofAttempt
      (uses_update delivery.id _)))) fun _ => ?_
    exact spendless_free (free_ofAttempt (uses_attempt P config delivery.id n.sequence))

theorem affine_sendTest (requestId : Option String) (webhookId : String) :
    tickets.Affine none (sendTest P config requestId webhookId).prog := by
  refine Tickets.affine_andThen (free_quiet (uses_webhookById P config webhookId)) ?_
  rintro (_ | webhook)
  · trivial
  refine Tickets.affine_andThen (uses_redis ⟨rfl, fun _ => rfl⟩) ?_
  rintro (err | target)
  · trivial
  refine Tickets.affine_andThen (uses_redis ⟨rfl, fun _ => rfl⟩) fun now => ?_
  refine Tickets.affine_andThen (uses_redis ⟨rfl, fun _ => rfl⟩) fun occurredAt => ?_
  exact affine_deliverToWebhook P config _

/-- The head of a dispatch creates nothing. -/
theorem spendless_targets (requestId : Option String) (e : Event) :
    Throws.Uses (fun op => (tickets.inl dispatchSig).spend op = none)
      (targets P config requestId e) := by
  have hservice : ∀ {α : Type} {t : Code α}, Uses Op.Free t →
      Throws.Uses (fun op => (tickets.inl dispatchSig).spend op = none) (service t) :=
    fun h => Prog.Uses.inl (spendless_free h)
  rw [targets]
  split
  · exact Throws.uses_pure _
  split
  · exact Throws.uses_throw _
  refine Throws.Uses.bind (hservice (Throws.Uses.bind (uses_redis ⟨rfl, fun _ => rfl⟩) fun _ =>
    Throws.uses_pure _)) fun traceId => ?_
  refine Throws.Uses.bind ⟨rfl, fun _ => trivial⟩ fun claimed => ?_
  split
  · have hlist : Uses Op.Free (webhookRepository.listActiveForEvent P config e.event_type
        matchesSubscription) := by
      refine Throws.Uses.tryCatch ?_ fun _ => Throws.uses_pure _
      refine Throws.Uses.bind (uses_redis ⟨rfl, fun _ => rfl⟩) fun ids => ?_
      split
      · exact Throws.uses_pure _
      · exact Throws.Uses.bind (uses_redis ⟨rfl, fun _ => rfl⟩) fun _ => Throws.uses_pure _
    refine Throws.Uses.bind (hservice hlist) fun active => ?_
    dsimp only
    split
    · exact Throws.uses_pure _
    refine Throws.Uses.bind ⟨rfl, fun _ => trivial⟩ fun sequence => ?_
    exact Throws.Uses.bind (hservice (uses_redis ⟨rfl, fun _ => rfl⟩)) fun _ => Throws.uses_pure _
  · exact Throws.uses_pure _

end dispatcher

theorem affine_otherCall (call : OtherCall) : tickets.Affine none (call.code P config).prog := by
  cases call with
  | webhook call =>
    exact Tickets.affine_of_uses (spendless_free (Prog.Uses.mono
      (fun _ hop => Op.OfRepository.free hop) (uses_repoCall P config call))) none
  | test requestId webhookId =>
    exact (dispatcher.affine_sendTest P config requestId webhookId).andThen fun _ =>
      Throws.uses_pure _
  | retries => exact Tickets.affine_of_uses (spendless_free (retryWorker.free_tick P config)) none

/-! ## 4. The ledger -/

/-- A grant lasts. -/
theorem exec_delivered_mono {P : Platform} {caller : Caller} {op : Op} {x : Env} {s : Store}
    {a : String × String} (ha : s.delivered a = true) :
    (s.exec P caller x op).2.delivered a = true := by
  cases op with
  | claimDelivery webhookId eventId =>
    by_cases h : a = (webhookId, eventId) <;> simp [Store.exec, h, ha]
  | cachedWebhook id =>
    simp only [Store.exec]
    split
    · exact ha
    · split <;> exact ha
  | assertPublicTarget url =>
    simp only [Store.exec]
    split <;> exact ha
  | post request =>
    simp only [Store.exec]
    split <;> exact ha
  | _ => exact ha

/-- `SET NX` grants what was not granted before. -/
theorem granted_of_gain {P : Platform} {caller : Caller} {op : Op} {x : Env} {s : Store}
    {a : String × String} (h : tickets.gain op ((machine P).exec caller op x s).1 = some a) :
    s.delivered a = false ∧ ((machine P).exec caller op x s).2.delivered a = true := by
  cases op with
  | claimDelivery webhookId eventId =>
    cases hfault : x.fault with
    | none =>
      rw [machine_exec_ok P s hfault] at h ⊢
      cases hclaimed : s.delivered (webhookId, eventId) with
      | true => simp [tickets, Store.exec, hclaimed] at h
      | false =>
        obtain rfl : (webhookId, eventId) = a := by simpa [tickets, Store.exec, hclaimed] using h
        exact ⟨hclaimed, by simp [Store.exec]⟩
    | before | after => simp [tickets, machine, Op.isLocal, hfault] at h
  | _ => cases h

namespace Dispatchers

variable {δ β τ : Type}

/-- What was created, as the record has it. -/
theorem noteCreated_eq {op : Op} (x : Env) (s : Store) (created : List (String × String)) :
    noteCreated op x s created = created ∨
      ∃ a, tickets.spend op = some a ∧ noteCreated op x s created = created ++ [a] := by
  cases op with
  | insertDelivery record score =>
    by_cases hfault : x.fault = .before
    · exact .inl (by simp [noteCreated, hfault])
    · exact .inr ⟨_, rfl, by simp [noteCreated, hfault]⟩
  | _ => exact .inl rfl

/-- The service hands out each grant once, and the record lists what was created with them. -/
theorem ledger (who : τ → Caller) :
    Ledger (((machine P).comap who).observe fun _ op x s h => noteCreated op x s h) tickets
      (fun s a => s.1.delivered a = true) fun s => s.2 where
  taken_mono i op x s a ha :=
    machine_store_of (Q := fun s => s.delivered a = true) ha (exec_delivered_mono ha)
  gained i op x s a h := by
    obtain ⟨hbefore, hafter⟩ := granted_of_gain h
    exact ⟨by simp [hbefore], hafter⟩
  spent_eq i op x s := noteCreated_eq x s.1 s.2

/-- The keys of the dispatcher change nothing in this. -/
theorem world_ledger (P : Platform) (who : Place δ β → Caller) :
    Ledger (world P who) (tickets.inl dispatchSig) (fun s a => s.1.1.delivered a = true)
      fun s => s.1.2 :=
  (ledger P who).inl (dispatchMachine.comap who)

/-- Every place holds a ticket or none, and can go on with it. -/
structure Accounted (ticket : Place δ β → Option (String × String)) (c : Dispatchers δ β) : Prop where
  apart : Apart (Tickets.held ticket c.created) fun a => c.store.1.1.delivered a = true
  head : ∀ i, (tickets.inl dispatchSig).Affine (ticket (.head i)) (c.head i)
  delivery : ∀ i n code, c.delivery i n = some code →
    (tickets.inl dispatchSig).Affine (ticket (.delivery i n)) code
  other : ∀ j, (tickets.inl dispatchSig).Affine (ticket (.other j)) (c.other j)

variable {P config} {b : Batching} {who : Place δ β → Caller} {c : Dispatchers δ β}
  {ticket : Place δ β → Option (String × String)} [DecidableEq δ] [DecidableEq β]

/-- What the head of a dispatch spawns has no ticket yet. -/
theorem affine_spawn {head : Prog (sig.sum dispatchSig) (Except Err (List dispatcher.Notice))}
    {n : ℕ} {code : Prog (sig.sum dispatchSig) (Except Err (Option Delivery))}
    (h : spawn P config head n = some code) (t : Option (String × String)) :
    (tickets.inl dispatchSig).Affine t code := by
  rw [spawn] at h
  split at h
  · obtain ⟨notice, -, rfl⟩ := Option.map_eq_some_iff.mp h
    exact (Tickets.Affine.inl (dispatcher.affine_deliverToWebhook P config notice)).of_none t
  · cases h

/-- **One step**, of whichever place. -/
theorem Accounted.step (h : c.Accounted ticket) (l : Place δ β × Env) :
    ∃ ticket', (c.step P config b who l).Accounted ticket' := by
  obtain ⟨p, x⟩ := l
  have hledger := world_ledger P who
  cases p with
  | head i =>
    obtain ⟨ticket', hother, hprog, hapart⟩ := hledger.step (i := .head i) (x := x) (p := .head i)
      h.apart (h.head i)
    refine ⟨ticket', hapart, fun j => ?_, fun j n code hcode => ?_, fun j => ?_⟩
    · by_cases hj : j = i
      · subst hj
        simpa [Dispatchers.step] using hprog
      · rw [hother _ (by simpa using hj)]
        simpa [Dispatchers.step, hj] using h.head j
    · rw [hother _ (by simp)]
      by_cases hj : j = i
      · subst hj
        simp only [Dispatchers.step, Function.update_self] at hcode
        rcases Option.or_eq_some_iff.mp hcode with hold | ⟨-, hnew⟩
        · exact h.delivery j n code hold
        · exact affine_spawn hnew _
      · exact h.delivery j n code (by simpa [Dispatchers.step, hj] using hcode)
    · rw [hother _ (by simp)]
      exact h.other j
  | delivery i n =>
    cases hdelivery : c.delivery i n with
    | none => exact ⟨ticket, by simpa [Dispatchers.step, hdelivery] using h⟩
    | some code =>
      by_cases hrun : c.mayRun b i n
      · obtain ⟨ticket', hother, hprog, hapart⟩ := hledger.step (i := .delivery i n) (x := x)
          (p := .delivery i n) h.apart (h.delivery i n code hdelivery)
        have hstep : c.step P config b who (.delivery i n, x) =
            { c with
              store := (code.act (world P who) (.delivery i n) x c.store).2
              delivery := Function.update c.delivery i (Function.update (c.delivery i) n
                (some (code.act (world P who) (.delivery i n) x c.store).1)) } := by
          simp [Dispatchers.step, hdelivery, hrun]
        rw [hstep]
        refine ⟨ticket', hapart, fun j => ?_, fun j m code' hcode => ?_, fun j => ?_⟩
        · rw [hother _ (by simp)]
          exact h.head j
        · by_cases hj : j = i
          · subst hj
            by_cases hm : m = n
            · subst hm
              obtain rfl : _ = code' := by simpa using hcode
              exact hprog
            · rw [hother _ (by simpa using hm)]
              exact h.delivery j m code' (by simpa [hm] using hcode)
          · rw [hother _ (by simp [hj])]
            exact h.delivery j m code' (by simpa [hj] using hcode)
        · rw [hother _ (by simp)]
          exact h.other j
      · exact ⟨ticket, by simpa [Dispatchers.step, hdelivery, hrun] using h⟩
  | other j =>
    obtain ⟨ticket', hother, hprog, hapart⟩ := hledger.step (i := .other j) (x := x) (p := .other j)
      h.apart (h.other j)
    refine ⟨ticket', hapart, fun i => ?_, fun i n code hcode => ?_, fun i => ?_⟩
    · rw [hother _ (by simp)]
      exact h.head i
    · rw [hother _ (by simp)]
      exact h.delivery i n code hcode
    · by_cases hi : i = j
      · subst hi
        simpa [Dispatchers.step] using hprog
      · rw [hother _ (by simpa using hi)]
        simpa [Dispatchers.step, hi] using h.other i

end Dispatchers

/-! ## 5. Every interleaving -/

/-- **At most one delivery for each webhook and event.**  Any number of dispatches, of any events,
are under way on any processes with other calls of the service, and any step may fail: whatever
the order of their steps, no webhook and event is listed twice among the delivery records that
were created. -/
theorem delivered_once {δ β : Type} [DecidableEq δ] [DecidableEq β] (P : Platform)
    (config : Config) (b : Batching) (who : Place δ β → Caller) (requestId : δ → Option String)
    (event : δ → Event) (call : β → OtherCall) (s : Store) (d : DispatchStore)
    (ls : List (Place δ β × Env)) :
    (run (Dispatchers.step P config b who)
      (Dispatchers.start P config requestId event call s d) ls).created.Nodup := by
  have hstart : (Dispatchers.start P config requestId event call s d).Accounted fun _ => none := by
    refine ⟨Apart.empty fun p => ?_, fun i => ?_, fun i n code hcode => (nomatch hcode), fun j => ?_⟩
    · cases p <;> rfl
    · exact Tickets.affine_of_uses (dispatcher.spendless_targets P config _ _) none
    · exact Tickets.Affine.inl (affine_otherCall P config (call j))
  have hrun : ∃ ticket, (run (Dispatchers.step P config b who)
      (Dispatchers.start P config requestId event call s d) ls).Accounted ticket :=
    run_inv_of_step (I := fun c : Dispatchers δ β => ∃ ticket, c.Accounted ticket)
      (fun c l ⟨_, hc⟩ => hc.step l) ⟨_, hstart⟩
  obtain ⟨ticket, h⟩ := hrun
  exact h.apart.nodup none

end SmartDrop.Webhooks
