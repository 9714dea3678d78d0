/-
# Dispatching an event again

A dispatch claims the key of the event before it does anything else, and a delivery claims the key
of its webhook and event before it creates the record.  Both keys stay when what they guard fails,
and a failed lookup of the subscribers is an empty list, so that a later dispatch of the event
creates the record of a webhook if and only if the earlier one has left neither key, and the
webhook is in the index of the event (`redispatch_iff`).

The deliveries of a dispatch run at the same time.  Each sees of the others only that its own key
and record are left alone (`view`), which makes their contracts compatible.
-/
import SmartDrop.Lib.Once
import SmartDrop.Webhooks.Deduplication
import SmartDrop.Webhooks.Interleaving

namespace SmartDrop.Webhooks

open Conc JsonText Redis

/-! ## 1. One delivery -/

/-- The webhooks, whether the key of a webhook and an event is claimed, and whether a record was
created for them. -/
abbrev View : Type := (String → Option WebhookRecord) × Bool × Bool

/-- What concerns a webhook and an event. -/
def view (q : String × String) (s : Store × List (String × String)) : View :=
  (s.1.webhooks, s.1.delivered q, decide (q ∈ s.2))

/-- The contract of the delivery for `q`: nothing fails, the others leave alone what concerns it,
and it leaves alone what concerns others. -/
def viewContract (q : String × String) : Contract sig Env (Store × List (String × String)) where
  ok _ x _ := x.fault = .none
  rely s s' := view q s' = view q s
  guar s s' := ∀ q' ≠ q, view q' s' = view q' s

/-- The machine of the service with the record of what was created, for the places `τ`. -/
abbrev observed {τ : Type} (P : Platform) (who : τ → Caller) :
    Machine sig τ Env (Store × List (String × String)) :=
  ((machine P).comap who).observe fun _ op x s h => Dispatchers.noteCreated op x s h

/-- Steps that concern no webhook, key or new record. -/
def Op.Aside : Op → Prop
  | .insertWebhook .. | .setWebhook .. | .deleteWebhook .. | .claimDelivery .. | .insertDelivery .. =>
    False
  | _ => True

theorem Op.OfAttempt.aside {op : Op} {d : String} (h : op.OfAttempt d) : op.Aside := by
  cases op <;> trivial

section Delivery

variable {P : Platform} {config : Config} {τ : Type} {who : τ → Caller} {i : τ}

theorem Op.Aside.view {op : Op} (h : op.Aside) (caller : Caller) (x : Env)
    (s : Store × List (String × String)) (q : String × String) :
    view q ((s.1.exec P caller x op).2, Dispatchers.noteCreated op x s.1 s.2) = view q s := by
  cases op with
  | insertWebhook | setWebhook | deleteWebhook | claimDelivery | insertDelivery => exact h.elim
  | cachedWebhook id =>
    simp only [Store.exec, Dispatchers.noteCreated]
    split
    · rfl
    · split <;> rfl
  | assertPublicTarget url =>
    simp only [Store.exec, Dispatchers.noteCreated]
    split <;> rfl
  | post request =>
    simp only [Store.exec, Dispatchers.noteCreated]
    split <;> rfl
  | _ => rfl

/-- What a step does where no command fails. -/
theorem observed_exec (P : Platform) (who : τ → Caller) (i : τ) (op : Op) {x : Env}
    (hx : x.fault = .none) (s : Store × List (String × String)) :
    (observed P who).exec i op x s = (.ok (s.1.exec P (who i) x op).1,
      (s.1.exec P (who i) x op).2, Dispatchers.noteCreated op x s.1 s.2) := by
  change (((machine P).exec (who i) op x s.1).1, ((machine P).exec (who i) op x s.1).2, _) = _
  rw [machine_exec_ok P s.1 hx]

variable {q : String × String}

/-- One step of a delivery. -/
theorem satE_view (op : Op) {A : View → Prop} (Q : op.Ret → View → Prop)
    {E : Err → Store × List (String × String) → Prop}
    (h : ∀ x (s : Store × List (String × String)), x.fault = .none → A (view q s) →
      (∀ q' ≠ q, view q' ((s.1.exec P (who i) x op).2, Dispatchers.noteCreated op x s.1 s.2) =
        view q' s) ∧
      Q (s.1.exec P (who i) x op).1
        (view q ((s.1.exec P (who i) x op).2, Dispatchers.noteCreated op x s.1 s.2))) :
    SatE (observed P who) i (viewContract q) (redis op) (fun s => A (view q s))
      (fun r s => Q r (view q s)) E := by
  intro x s hs hx
  obtain ⟨hguar, hq⟩ := h x s hx hs
  rw [observed_exec P who i op hx]
  have hst : ∀ r, Stable (viewContract q).rely fun s => Q r (view q s) := by
    intro r s s' hq' hr
    rwa [show view q s' = view q s from hr]
  exact ⟨hguar, _, hst (s.1.exec P (who i) x op).1, hq, fun _ hq' => hq'⟩

/-- A part of a delivery that concerns nothing leaves everything as it is. -/
theorem satE_aside {α : Type} {t : Code α} (ht : Uses Op.Aside t) (A : View → Prop) :
    SatE (observed P who) i (viewContract q) t (fun s => A (view q s)) (fun _ s => A (view q s))
      fun _ s => A (view q s) := by
  refine SatE.frame (φ := Op.Aside) ?_ ?_ ht
  · intro s s' hs hr
    rwa [show view q s' = view q s from hr]
  · intro op hop x s hs hx
    rw [show (observed P who).exec i op x s = _ from observed_exec P who i op hx s]
    refine ⟨fun q' _ => hop.view (who i) x s q', ?_⟩
    change A (view q ((s.1.exec P (who i) x op).2, Dispatchers.noteCreated op x s.1 s.2))
    rwa [hop.view (who i) x s q]

/-- A single such step. -/
theorem satE_aside_redis (op : Op) (hop : op.Aside) (A : View → Prop)
    {E : Err → Store × List (String × String) → Prop} :
    SatE (observed P who) i (viewContract q) (redis op) (fun s => A (view q s))
      (fun _ s => A (view q s)) E := by
  refine satE_view op (fun _ => A) fun x s _ hs => ⟨fun q' _ => hop.view (who i) x s q', ?_⟩
  rwa [hop.view (who i) x s q]

variable {W : String → Option WebhookRecord} {E : Err → Store × List (String × String) → Prop}

/-- The webhook of a notice is found. -/
theorem satE_prepare {d : NewDelivery} (hid : d.webhook_id ≠ "") (hW : (W d.webhook_id).isSome)
    (claimed created : Bool) :
    SatE (observed P who) i (viewContract q) (deliveryRepository.prepare P config d)
      (fun s => view q s = (W, claimed, created)) (fun _ s => view q s = (W, claimed, created)) E := by
  rw [deliveryRepository.prepare, if_neg hid]
  refine SatE.bind (Q := fun w s => w.isSome ∧ view q s = (W, claimed, created)) ?_ fun w => ?_
  · refine SatE.tryCatch (E := fun _ _ => False) ?_ fun _ => SatE.pure fun _ hf => hf.elim
    refine SatE.bind (satE_view (.getWebhook d.webhook_id) (A := (· = (W, claimed, created)))
      (fun r v => Option.isSome r ∧ v = (W, claimed, created)) fun x s _ hs => ?_) fun r => ?_
    · have hget : s.1.webhooks = W := congrArg Prod.fst hs
      exact ⟨fun _ _ => rfl, by rw [← hget] at hW; exact hW, hs⟩
    · exact SatE.pure fun s hs => ⟨by rw [Option.isSome_map]; exact hs.1, hs.2⟩
  · refine SatE.assume fun hw => ?_
    obtain ⟨webhook, rfl⟩ := Option.isSome_iff_exists.mp hw
    exact SatE.bind (satE_aside_redis .randomUUID trivial (· = (W, claimed, created))) fun _ =>
      SatE.pure fun _ hs => hs

/-- The record is created. -/
theorem satE_insertAs {d : NewDelivery} (hq : q = (d.webhook_id, d.event_id)) (id : String) :
    SatE (observed P who) i (viewContract q) (deliveryRepository.insertAs d id)
      (fun s => view q s = (W, true, false)) (fun _ s => view q s = (W, true, true)) E := by
  have hinsert : ∀ (traceId : String) (now : ℕ), SatE (observed P who) i (viewContract q)
      (do redis (.insertDelivery (deliveryRepository.newRecord d id traceId now) now)
          return deliveryRepository.newRecord d id traceId now : Code Delivery)
      (fun s => view q s = (W, true, false)) (fun _ s => view q s = (W, true, true)) E := by
    intro traceId now
    refine SatE.bind (Q := fun _ s => view q s = (W, true, true)) ?_ fun _ => SatE.pure fun _ h => h
    refine satE_view _ (A := (· = (W, true, false))) (fun _ => (· = (W, true, true)))
      fun x s hx hs => ?_
    have hcreated : Dispatchers.noteCreated
        (.insertDelivery (deliveryRepository.newRecord d id traceId now) now) x s.1 s.2 =
          s.2 ++ [q] := by
      rw [Dispatchers.noteCreated, hx, if_neg (by decide), hq]
      rfl
    obtain ⟨hwebhooks, hdelivered, -⟩ : s.1.webhooks = W ∧ s.1.delivered q = true ∧ _ := by
      simpa [view] using hs
    rw [hcreated]
    refine ⟨fun q' hne => ?_, ?_⟩
    · simp [view, Store.exec, hne]
    · simp [view, Store.exec, hwebhooks, hdelivered]
  refine SatE.bind (satE_aside_redis .now trivial (· = (W, true, false))) fun now => ?_
  split
  · exact SatE.bind (SatE.pure fun _ h => h) fun traceId => hinsert traceId now
  · refine SatE.bind (Q := fun _ s => view q s = (W, true, false)) ?_ fun traceId =>
      hinsert traceId now
    refine SatE.bind (satE_aside_redis .randomUUID trivial (· = (W, true, false))) fun _ => ?_
    exact SatE.pure fun _ h => h

/-- **One delivery**: it claims the key of its webhook and event, and creates the record if the key
was free. -/
theorem satE_deliverToWebhook (n : dispatcher.Notice) (hq : q = (n.webhook.id, n.eventId))
    (hid : n.webhook.id ≠ "") (hW : (W n.webhook.id).isSome) (claimed : Bool) :
    SatE (observed P who) i (viewContract q) (dispatcher.deliverToWebhook P config n)
      (fun s => view q s = (W, claimed, false)) (fun _ s => view q s = (W, true, !claimed))
      fun _ s => view q s = (W, true, !claimed) := by
  refine SatE.bind (satE_aside_redis (.cacheWebhook n.webhook) trivial
    (· = (W, claimed, false))) fun _ => ?_
  refine SatE.bind (satE_view (.claimDelivery n.webhook.id n.eventId)
    (A := (· = (W, claimed, false))) (fun r v => r = !claimed ∧ v = (W, true, false))
    fun x s hx hs => ?_) fun r => ?_
  · obtain ⟨hwebhooks, hdelivered, hcreated⟩ :
        s.1.webhooks = W ∧ s.1.delivered q = claimed ∧ q ∉ s.2 := by simpa [view] using hs
    rw [hq] at hdelivered hcreated ⊢
    refine ⟨fun q' hne => ?_, ?_, ?_⟩
    · change (s.1.webhooks, Function.update s.1.delivered _ true q', decide (q' ∈ s.2)) = view q' s
      rw [Function.update_of_ne hne]
      rfl
    · simp [Store.exec, hdelivered]
    · simp [view, Store.exec, Dispatchers.noteCreated, hwebhooks, hcreated]
  refine SatE.assume fun hr => ?_
  cases claimed with
  | true =>
    -- the key was claimed before
    obtain rfl : r = false := hr
    exact SatE.pure fun _ h => h
  | false =>
    obtain rfl : r = true := hr
    rw [if_pos rfl]
    refine SatE.bind (Q := fun _ s => view q s = (W, true, true)) ?_ fun delivery => ?_
    · refine SatE.bind (satE_prepare hid hW true false) fun id => ?_
      refine SatE.bind (satE_insertAs hq id) fun record => ?_
      have hexpire : Uses Op.Aside (deliveryRepository.applyDeliveryRetention record.id) :=
        uses_unchecked trivial
      refine SatE.bind (satE_aside hexpire (· = (W, true, true))) fun _ => ?_
      exact SatE.pure fun _ h => h
    · have hupdate : Uses Op.Aside (deliveryRepository.update delivery.id
          { payload := some n.payload, sequence := some n.sequence }) :=
        Prog.Uses.mono (fun _ hop => (Op.Recording.ofAttempt hop).aside) (uses_update delivery.id _)
      have hattempt : Uses Op.Aside (dispatcher.attempt P config delivery.id n.sequence) :=
        Prog.Uses.mono (fun _ hop => Op.OfAttempt.aside hop)
          (dispatcher.uses_attempt P config delivery.id n.sequence)
      exact SatE.bind (satE_aside hupdate (· = (W, true, true))) fun _ =>
        satE_aside hattempt (· = (W, true, true))

end Delivery

/-! ## 2. The head of a dispatch -/

/-- An event that is dispatched: of a known type, with an id. -/
def Event.Known (e : Event) (eventId : String) : Prop :=
  isKnownEvent e.event_type ∧ e.event_id = some eventId ∧ eventId ≠ ""

/-- The webhooks that a dispatch delivers to. -/
def planned (P : Platform) (config : Config) (s : Store) (d : DispatchStore) (e : Event)
    (eventId : String) : List Webhook :=
  if d.dispatched eventId then []
  else (listed P config s e.event_type).filter fun w =>
    matchesWebhookFilters w.filters e.data e.event_type

/-- Nothing but draws of randomness has happened since `s`. -/
structure Unchanged (s : Store) (s' : Store × List (String × String)) : Prop where
  webhooks : s'.1.webhooks = s.webhooks
  eventIndex : s'.1.eventIndex = s.eventIndex
  delivered : s'.1.delivered = s.delivered
  created : s'.2 = []

/-- The contract of the head, which runs before the deliveries. -/
def headContract : Contract (sig.sum dispatchSig) Env
    ((Store × List (String × String)) × DispatchStore) := .alone fun _ x _ => x.fault = .none

section Head

variable {P : Platform} {config : Config} {δ β : Type} {who : Place δ β → Caller} {p : Place δ β}
  {s : Store} {B : DispatchStore → Prop}

theorem listed_congr {s' : Store} (e : String) (hwebhooks : s'.webhooks = s.webhooks)
    (hindex : s'.eventIndex = s.eventIndex) : listed P config s' e = listed P config s e := by
  rw [listed, listed, hwebhooks, hindex]

/-- A piece of the service in the head of a dispatch. -/
theorem satE_service {α : Type} {t : Code α} {I : Store × List (String × String) → Prop}
    {Q : α → Store × List (String × String) → Prop}
    {E : Err → Store × List (String × String) → Prop}
    (h : SatE (observed P who) p (.alone fun _ x _ => x.fault = .none) t I Q E) :
    SatE (Dispatchers.world P who) p headContract (service t) (fun st => I st.1 ∧ B st.2)
      (fun a st => Q a st.1 ∧ B st.2) fun e st => E e st.1 ∧ B st.2 := by
  refine SatE.inl h (fun _ _ _ hx => hx) ?_ fun _ _ _ _ => trivial
  rintro s _ rfl
  exact ⟨rfl, fun hb => hb⟩

/-- A quiet step changes neither webhooks nor keys. -/
theorem Unchanged.quiet {op : Op} (hop : op.Quiet) {s' : Store × List (String × String)}
    (h : Unchanged s s') (caller : Caller) (x : Env) :
    Unchanged s ((s'.1.exec P caller x op).2, Dispatchers.noteCreated op x s'.1 s'.2) := by
  cases op with
  | cachedWebhook id =>
    simp only [Store.exec, Dispatchers.noteCreated]
    split
    · exact h
    · split <;> exact ⟨h.1, h.2, h.3, h.4⟩
  | _ => first | exact ⟨h.1, h.2, h.3, h.4⟩ | exact hop.elim

theorem satE_quiet_redis (op : Op) (hop : op.Quiet)
    {E : Err → Store × List (String × String) → Prop} :
    SatE (observed P who) p (.alone fun _ x _ => x.fault = .none) (redis op) (Unchanged s)
      (fun _ => Unchanged s) E := by
  intro x s' hs hx
  rw [observed_exec P who p op hx]
  exact ⟨trivial, Unchanged s, fun _ _ hs he => he ▸ hs, hs.quiet hop (who p) x, fun _ hs => hs⟩

/-- A command on the keys of the dispatcher. -/
theorem satE_dispatchRedis (op : DispatchOp)
    {I : (Store × List (String × String)) × DispatchStore → Prop}
    {Q : op.Ret → (Store × List (String × String)) × DispatchStore → Prop}
    {E : Err → (Store × List (String × String)) × DispatchStore → Prop}
    (h : ∀ st, I st → Q (st.2.exec op).1 (st.1, (st.2.exec op).2)) :
    SatE (Dispatchers.world P who) p headContract (dispatchRedis op) I Q E := by
  intro x st hst hx
  have hexec : (Dispatchers.world P who).exec p (.inr op) x st =
      (.ok (st.2.exec op).1, st.1, (st.2.exec op).2) := by
    change ((dispatchMachine.exec (who p) op x st.2).1, st.1,
      (dispatchMachine.exec (who p) op x st.2).2) = _
    rw [show dispatchMachine.exec (who p) op x st.2 = (.ok (st.2.exec op).1, (st.2.exec op).2) by
      simp only [dispatchMachine, show x.fault = .none from hx]]
    rfl
  rw [show (Dispatchers.world P who).exec p (Sum.inr op) x st = _ from hexec]
  exact ⟨trivial, Q (st.2.exec op).1, fun _ _ hq he => he ▸ hq, h st hst, fun _ hq => hq⟩

/-- The listing in the head of a dispatch. -/
theorem satE_service_list (e : String) {E : Err → (Store × List (String × String)) × DispatchStore → Prop} :
    SatE (Dispatchers.world P who) p headContract
      (service (webhookRepository.listActiveForEvent P config e matchesSubscription))
      (fun st => Unchanged s st.1 ∧ B st.2)
      (fun found st => found = listed P config s e ∧ Unchanged s st.1 ∧ B st.2) E := by
  have huses : Uses Op.Aside
      (webhookRepository.listActiveForEvent P config e matchesSubscription) := by
    refine Throws.Uses.tryCatch ?_ fun _ => Throws.uses_pure _
    refine Throws.Uses.bind (uses_redis trivial) fun ids => ?_
    split
    · exact Throws.uses_pure _
    · exact Throws.Uses.bind (uses_redis trivial) fun _ => Throws.uses_pure _
  refine SatE.fix fun st hst => ?_
  have hlist : SatE ((machine P).comap who) p calm
      (webhookRepository.listActiveForEvent P config e matchesSubscription) (· = st.1.1)
      (fun found s' => found = listed P config st.1.1 e ∧ s' = st.1.1) fun _ _ => False :=
    Sat.comap (satE_listActiveForEvent P config st.1.1 e (who p))
  have hobserved : SatE (observed P who) p (.alone fun _ x _ => x.fault = .none)
      (webhookRepository.listActiveForEvent P config e matchesSubscription)
      (fun s' => s'.1 = st.1.1 ∧ s'.2 = [])
      (fun found s' => (found = listed P config st.1.1 e ∧ s'.1 = st.1.1) ∧ s'.2 = [])
      fun _ s' => False ∧ s'.2 = [] :=
    hlist.observe (B := (· = [])) huses
      (fun op x s w hop hw => by cases op <;> first | exact hw | exact hop.elim)
      (fun _ _ _ hx => hx) (fun _ _ hr => hr ▸ ⟨rfl, fun h => h⟩) fun _ _ _ _ _ => trivial
  refine (satE_service (B := fun d => d = st.2) hobserved).mono ?_ ?_ fun _ _ h => h.1.1.elim
  · rintro _ rfl
    exact ⟨⟨rfl, hst.1.created⟩, rfl⟩
  · rintro found st' ⟨⟨⟨hfound, hsame⟩, hcreated⟩, hdispatch⟩
    refine ⟨hfound.trans (listed_congr e hst.1.webhooks hst.1.eventIndex), ?_, hdispatch ▸ hst.2⟩
    exact ⟨by rw [hsame]; exact hst.1.webhooks, by rw [hsame]; exact hst.1.eventIndex,
      by rw [hsame]; exact hst.1.delivered, hcreated⟩

/-- **The head of a dispatch** ends with the webhooks to deliver to. -/
theorem satE_targets {e : Event} {eventId : String} (h : e.Known eventId)
    (requestId : Option String) {d : DispatchStore} :
    SatE (Dispatchers.world P who) p headContract (dispatcher.targets P config requestId e)
      (fun st => Unchanged s st.1 ∧ st.2 = d)
      (fun notices st => (notices.map dispatcher.Notice.webhook = planned P config s d e eventId ∧
        ∀ n ∈ notices, n.eventId = eventId) ∧ Unchanged s st.1) fun _ _ => False := by
  obtain ⟨hknown, hid, hne⟩ := h
  have hfilter : e.event_id.filter (· ≠ "") = some eventId := by simp [hid, hne]
  rw [dispatcher.targets, hknown, hfilter]
  refine SatE.bind (Q := fun _ st => Unchanged s st.1 ∧ st.2 = d) ?_ fun traceId => ?_
  · have hgenerate : SatE (observed P who) p (.alone fun _ x _ => x.fault = .none)
        deliveryRepository.generateTraceId (Unchanged s) (fun _ => Unchanged s) fun _ _ => False :=
      SatE.bind (satE_quiet_redis .randomUUID trivial) fun _ => SatE.pure fun _ hs => hs
    exact (satE_service (B := (· = d)) hgenerate).mono (fun _ h => h) (fun _ _ h => h) fun _ _ h => h.1.elim
  refine SatE.bind (Q := fun r st => r = !d.dispatched eventId ∧ Unchanged s st.1) ?_ fun r => ?_
  · refine satE_dispatchRedis (.claimEvent eventId) fun st hst => ⟨?_, hst.1⟩
    rw [DispatchStore.exec, hst.2]
  refine SatE.assume fun hr => ?_
  cases hd : d.dispatched eventId with
  | true =>
    -- the event was claimed before
    obtain rfl : r = false := by rw [hr, hd]; rfl
    refine SatE.pure fun st hst => ⟨⟨?_, fun _ hn => absurd hn List.not_mem_nil⟩, hst⟩
    rw [planned, if_pos hd]
    rfl
  | false =>
    obtain rfl : r = true := by rw [hr, hd]; rfl
    rw [if_pos rfl]
    refine SatE.bind (Q := fun found st => found = listed P config s e.event_type ∧
      Unchanged s st.1) ?_ fun found => ?_
    · exact (satE_service_list (B := fun _ => True) e.event_type).mono (fun _ h => ⟨h, trivial⟩)
        (fun _ _ h => ⟨h.1, h.2.1⟩) fun _ _ h => h
    refine SatE.assume fun hfound => ?_
    have hplanned : planned P config s d e eventId =
        found.filter fun w => matchesWebhookFilters w.filters e.data e.event_type := by
      rw [planned, if_neg (by simp [hd]), hfound]
    rw [hplanned]
    dsimp only
    split
    · rename_i hempty
      exact SatE.pure fun st hst => ⟨⟨(List.isEmpty_iff.mp hempty).symm, fun _ hn => absurd hn List.not_mem_nil⟩, hst⟩
    · refine SatE.bind (Q := fun _ st => Unchanged s st.1) ?_ fun sequence => ?_
      · exact satE_dispatchRedis (.incrSequence (dispatcher.resourceId e)) fun st hst => hst
      refine SatE.bind (Q := fun _ st => Unchanged s st.1) ?_ fun occurredAt => ?_
      · refine (satE_service (B := fun _ => True) (satE_quiet_redis (E := fun _ _ => False) .now
          trivial)).mono (fun _ h => ⟨h, trivial⟩) (fun _ _ h => h.1) fun _ _ h => h.1
      · refine SatE.pure fun st hst => ⟨⟨?_, ?_⟩, hst⟩
        · rw [List.map_map]
          exact List.map_id _
        · intro n hn
          obtain ⟨w, -, rfl⟩ := List.mem_map.mp hn
          rfl

end Head

/-! ## 3. What is stored -/

/-- Webhooks are stored under their own ids, which are not empty. -/
def Kept (s : Store) : Prop := ∀ id record, s.webhooks id = some record → record.id = id ∧ id ≠ ""

/-- Commands that store webhooks under their own ids, if at all. -/
def Op.Keeping : Op → Prop
  | .insertWebhook record _ => record.id ≠ ""
  | .setWebhook id record => record.id = id ∧ id ≠ ""
  | _ => True

/-- A webhook is read from under its own id. -/
def Named : (op : Op) → Except Err op.Ret → Prop
  | .getWebhook id, reply => ∀ record, reply = .ok (some record) → record.id = id ∧ id ≠ ""
  | _, _ => True

theorem Kept.exec {P : Platform} {s : Store} (h : Kept s) {op : Op} (hop : op.Keeping)
    (caller : Caller) (x : Env) : Kept (s.exec P caller x op).2 := by
  cases op with
  | insertWebhook record score =>
    intro id record' hrecord
    by_cases he : id = record.id
    · obtain rfl : record = record' := by simpa [Store.exec, he] using hrecord
      exact ⟨he.symm, he ▸ hop⟩
    · exact h id record' (by simpa [Store.exec, he] using hrecord)
  | setWebhook id record =>
    intro id' record' hrecord
    by_cases he : id' = id
    · obtain rfl : record = record' := by simpa [Store.exec, he] using hrecord
      exact he ▸ hop
    · exact h id' record' (by simpa [Store.exec, he] using hrecord)
  | deleteWebhook id existing deliveryIds =>
    intro id' record' hrecord
    by_cases he : id' = id
    · simp [Store.exec, he] at hrecord
    · exact h id' record' (by simpa [Store.exec, he] using hrecord)
  | cachedWebhook id =>
    simp only [Store.exec]
    split
    · exact h
    · split <;> exact h
  | assertPublicTarget url =>
    simp only [Store.exec]
    split <;> exact h
  | post request =>
    simp only [Store.exec]
    split <;> exact h
  | _ => exact h

theorem Kept.named {P : Platform} {s : Store} (h : Kept s) (op : Op) (caller : Caller) (x : Env) :
    Named op ((machine P).exec caller op x s).1 := by
  cases op with
  | getWebhook id =>
    intro record hrecord
    refine h id record ?_
    simp only [machine, Op.isLocal] at hrecord
    cases hfault : x.fault <;> simp [hfault, Store.exec] at hrecord
    exact hrecord
  | _ => trivial

/-- A piece of code that keeps webhooks under their own ids. -/
def Names {α : Type} (Q : α → Prop) (t : Code α) : Prop :=
  Throws.Assuming (S := sig) Named Op.Keeping Q t

section Names

variable (P : Platform) (config : Config) {α : Type} {t : Code α}

theorem names_of_uses (h : Uses Op.Keeping t) : Names (fun _ => True) t :=
  Prog.Assuming.mono (Prog.Uses.assuming h) fun _ _ _ _ => trivial

theorem Op.OfAttempt.keeping {op : Op} {d : String} (h : op.OfAttempt d) : op.Keeping := by
  cases op <;> trivial

theorem keeping_quiet (h : Uses Op.Quiet t) : Uses Op.Keeping t :=
  Prog.Uses.mono (fun op _ => by cases op <;> trivial) h

theorem keeping_ofAttempt {d : String} (h : Uses (Op.OfAttempt d) t) : Uses Op.Keeping t :=
  Prog.Uses.mono (fun _ hop => Op.OfAttempt.keeping hop) h

theorem names_redis (op : Op) (hop : op.Keeping) : Names (fun r => Named op (.ok r)) (redis op) := by
  refine ⟨hop, fun r hr a ha => ?_⟩
  have hok : r = .ok a := ha
  rwa [hok] at hr

theorem names_repoCall (call : RepoCall) : Names (fun _ => True) (call.code P config) := by
  have hencrypt : ∀ secret, Uses Op.Keeping
      (webhookRepository.encryptSecretNow P config secret) := by
    refine fun secret => Throws.Uses.bind (uses_redis trivial) fun iv => ?_
    split
    · exact Throws.uses_throw _
    · exact Throws.uses_pure _
  cases call with
  | create w =>
    refine Throws.Assuming.bind (R := fun _ => True) ?_ fun _ _ => Throws.Assuming.pure trivial
    rw [webhookRepository.create]
    split
    · exact Throws.Assuming.throw _
    · refine Throws.Assuming.bind (R := fun id => id ≠ "") ?_ fun id hid => ?_
      · refine Throws.Assuming.bind (names_redis .randomUUID trivial) fun uuid _ => ?_
        refine Throws.Assuming.pure ?_
        intro he
        have := congrArg String.length he
        rw [String.length_append] at this
        simp at this
      refine Throws.Assuming.bind (names_redis .now trivial) fun now _ => ?_
      refine Throws.Assuming.bind (names_of_uses (hencrypt w.secret)) fun secret _ => ?_
      exact Throws.Assuming.bind (names_redis (.insertWebhook _ now) hid) fun _ _ =>
        Throws.Assuming.pure trivial
  | update id patch =>
    refine Throws.Assuming.bind (R := fun _ => True) ?_ fun _ _ => Throws.Assuming.pure trivial
    refine Throws.Assuming.bind (names_redis (.getWebhook id) trivial) ?_
    rintro (_ | existing) hexisting
    · exact Throws.Assuming.pure trivial
    have hsecret : Uses Op.Keeping (webhookRepository.nextSecret P config existing patch) := by
      rw [webhookRepository.nextSecret]
      split
      · exact hencrypt _
      · exact Throws.uses_pure _
    have hreindex : Uses Op.Keeping (webhookRepository.reindex id existing patch.events) := by
      have hsrem : ∀ events, Uses Op.Keeping (webhookRepository.removeEventIndexes id events) := by
        intro events
        induction events with
        | nil => exact Throws.uses_pure _
        | cons e events ih => exact Throws.Uses.bind (uses_unchecked trivial) fun _ => ih
      have hsadd : ∀ events, Uses Op.Keeping (webhookRepository.addEventIndexes id events) := by
        intro events
        induction events with
        | nil => exact Throws.uses_pure _
        | cons e events ih => exact Throws.Uses.bind (uses_unchecked trivial) fun _ => ih
      cases patch.events with
      | none => exact Throws.uses_pure _
      | some events => exact Throws.Uses.bind (hsrem _) fun _ => hsadd _
    refine Throws.Assuming.bind (names_of_uses hsecret) fun secret _ => ?_
    refine Throws.Assuming.bind (names_redis .now trivial) fun now _ => ?_
    refine Throws.Assuming.bind (names_of_uses hreindex) fun _ _ => ?_
    exact Throws.Assuming.bind (names_redis (.setWebhook id _) (hexisting existing rfl)) fun _ _ =>
      Throws.Assuming.pure trivial
  | remove id =>
    refine Throws.Assuming.bind (R := fun _ => True) ?_ fun _ _ => Throws.Assuming.pure trivial
    refine Throws.Assuming.bind (names_redis (.getWebhook id) trivial) ?_
    rintro (_ | existing) -
    · exact Throws.Assuming.pure trivial
    refine Throws.Assuming.bind (names_redis (.deliveryIds id) trivial) fun ids _ => ?_
    exact Throws.Assuming.bind (names_redis (.deleteWebhook id existing ids) trivial) fun _ _ =>
      Throws.Assuming.pure trivial

theorem keeping_deliverToWebhook (n : dispatcher.Notice) :
    Uses Op.Keeping (dispatcher.deliverToWebhook P config n) := by
  refine Throws.Uses.bind (uses_redis trivial) fun _ => ?_
  refine Throws.Uses.bind (uses_redis trivial) fun claimed => ?_
  split
  · refine Throws.Uses.bind ?_ fun delivery => ?_
    · refine Throws.Uses.bind ?_ fun id => ?_
      · rw [deliveryRepository.prepare]
        split
        · exact Throws.uses_throw _
        refine Throws.Uses.bind (keeping_quiet (uses_webhookById P config _)) ?_
        rintro (_ | webhook)
        · exact Throws.uses_throw _
        · exact Throws.Uses.bind (uses_redis trivial) fun _ => Throws.uses_pure _
      refine Throws.Uses.bind ?_ fun record => ?_
      · have hinsert : ∀ traceId now, Uses Op.Keeping (do
            redis (.insertDelivery (deliveryRepository.newRecord n.newDelivery id traceId now) now)
            return deliveryRepository.newRecord n.newDelivery id traceId now : Code Delivery) :=
          fun _ _ => Throws.Uses.bind (uses_redis trivial) fun _ => Throws.uses_pure _
        refine Throws.Uses.bind (uses_redis trivial) fun now => ?_
        dsimp only
        split
        · exact hinsert _ now
        · exact Throws.Uses.bind (Throws.Uses.bind (uses_redis trivial) fun _ =>
            Throws.uses_pure _) fun traceId => hinsert traceId now
      · exact Throws.Uses.bind (uses_unchecked trivial) fun _ => Throws.uses_pure _
    · exact Throws.Uses.bind (keeping_ofAttempt (uses_ofAttempt (uses_update delivery.id _)))
        fun _ => keeping_ofAttempt (dispatcher.uses_attempt P config delivery.id n.sequence)
  · exact Throws.uses_pure _

theorem names_otherCall (call : OtherCall) : Names (fun _ => True) (call.code P config) := by
  cases call with
  | webhook call => exact names_repoCall P config call
  | test requestId webhookId =>
    refine names_of_uses (Throws.Uses.bind ?_ fun _ => Throws.uses_pure _)
    refine Throws.Uses.bind (keeping_quiet (uses_webhookById P config webhookId)) ?_
    rintro (_ | webhook)
    · exact Throws.uses_pure _
    refine Throws.Uses.bind (uses_redis trivial) ?_
    rintro (err | target)
    · exact Throws.uses_throw _
    refine Throws.Uses.bind (uses_redis trivial) fun now => ?_
    refine Throws.Uses.bind (uses_redis trivial) fun occurredAt => ?_
    exact keeping_deliverToWebhook P config _
  | retries =>
    have hdue : Uses Op.Keeping (retryWorker.due config) :=
      Throws.Uses.bind (uses_redis trivial) fun _ => uses_redis trivial
    have hall : ∀ ids, Uses Op.Keeping (retryWorker.attemptAll P config ids) := by
      intro ids
      induction ids with
      | nil => exact Throws.uses_pure _
      | cons id ids ih =>
        refine Throws.Uses.bind (Throws.Uses.tryCatch ?_ fun _ => Throws.uses_pure _) fun _ => ih
        exact Throws.Uses.bind (keeping_ofAttempt (dispatcher.uses_attempt P config id none))
          fun _ => Throws.uses_pure _
    exact names_of_uses (Throws.Uses.tryCatch (Throws.Uses.bind hdue hall) fun _ =>
      Throws.uses_pure _)

end Names

/-! ## 4. The earlier dispatches -/

/-- What every place keeps, whatever fails: webhooks under their own ids, and the keys of events
that are claimed. -/
def settled : Contract (sig.sum dispatchSig) Env Dispatchers.World where
  ok _ _ _ := True
  rely s s' := Kept s'.1.1 ∧ ∀ id, s.2.dispatched id = true → s'.2.dispatched id = true
  guar s s' := Kept s'.1.1 ∧ ∀ id, s.2.dispatched id = true → s'.2.dispatched id = true

section Settled

variable {P : Platform} {config : Config} {δ β : Type} {who : Place δ β → Caller} {p : Place δ β}

/-- A claimed event, if any. -/
def Marked (eventId : Option String) (d : DispatchStore) : Prop :=
  ∀ id, eventId = some id → d.dispatched id = true

/-- A piece of the service in a dispatch. -/
theorem satE_names {α : Type} {t : Code α} {Q : α → Prop} (ht : Names Q t)
    (eventId : Option String) :
    SatE (Dispatchers.world P who) p settled (service t)
      (fun st => Kept st.1.1 ∧ Marked eventId st.2) (fun _ st => Kept st.1.1 ∧ Marked eventId st.2)
      fun _ st => Kept st.1.1 ∧ Marked eventId st.2 := by
  have hservice : SatE ((machine P).comap who) p
      { ok := fun _ _ _ => True, rely := fun _ s' => Kept s', guar := fun _ s' => Kept s' } t Kept
      (fun _ => Kept) fun _ => Kept := by
    refine (SatE.assuming (fun _ _ _ h => h) ?_ ht).mono (fun _ h => h) (fun _ _ h => h.2)
      fun _ _ h => h
    intro op hop x s hs _
    have hkept : Kept ((machine P).exec (who p) op x s).2 :=
      machine_store_of hs (hs.exec hop (who p) x)
    exact ⟨hkept, hkept, hs.named op (who p) x⟩
  have hobserved : SatE (observed P who) p
      { ok := fun _ _ _ => True, rely := fun _ s' => Kept s'.1, guar := fun _ s' => Kept s'.1 } t
      (fun s => Kept s.1 ∧ True) (fun _ s => Kept s.1 ∧ True) fun _ s => Kept s.1 ∧ True :=
    hservice.observe (B := fun _ => True) (Prog.uses_of_forall (φ := fun _ => True)
      (fun _ => trivial) _) (fun _ _ _ _ _ _ => trivial) (fun _ _ _ _ => trivial)
      (fun _ _ h => ⟨h, fun _ => trivial⟩) fun _ _ _ _ h => h
  refine (SatE.inl (B := Marked eventId) (D := settled) hobserved (fun _ _ _ _ => trivial) ?_
    ?_).mono ?_ ?_ ?_
  · exact fun s s' hr => ⟨hr.1, fun h id he => hr.2 id (h id he)⟩
  · exact fun s s' hg he => ⟨hg, fun id h => by rw [he]; exact h⟩
  · exact fun st h => ⟨⟨h.1, trivial⟩, h.2⟩
  · exact fun _ st h => ⟨h.1.1, h.2⟩
  · exact fun _ st h => ⟨h.1.1, h.2⟩

/-- A command on the keys of the dispatcher. -/
theorem satE_keys (op : DispatchOp) (eventId : Option String) {Q : DispatchStore → Prop}
    (hQ : ∀ d d', (∀ id, d.dispatched id = true → d'.dispatched id = true) → Q d → Q d')
    (h : ∀ d, Marked eventId d → Q (d.exec op).2) :
    SatE (Dispatchers.world P who) p settled (dispatchRedis op)
      (fun st => Kept st.1.1 ∧ Marked eventId st.2) (fun _ st => Kept st.1.1 ∧ Q st.2)
      fun _ st => Kept st.1.1 := by
  intro x st hst _
  have hmono : ∀ id, st.2.dispatched id = true → (st.2.exec op).2.dispatched id = true := by
    intro id hid
    cases op with
    | claimEvent e =>
      by_cases he : id = e <;> simp [DispatchStore.exec, he, hid]
    | incrSequence => exact hid
  cases hfault : x.fault with
  | none =>
    have hexec : (Dispatchers.world P who).exec p (.inr op) x st =
        (.ok (st.2.exec op).1, st.1, (st.2.exec op).2) := by
      change ((dispatchMachine.exec (who p) op x st.2).1, st.1,
        (dispatchMachine.exec (who p) op x st.2).2) = _
      simp only [dispatchMachine, hfault]
      rfl
    rw [show (Dispatchers.world P who).exec p (Sum.inr op) x st = _ from hexec]
    exact ⟨⟨hst.1, hmono⟩, fun st => Kept st.1.1 ∧ Q st.2, fun s s' hs hr => ⟨hr.1, hQ _ _ hr.2 hs.2⟩,
      ⟨hst.1, h st.2 hst.2⟩, fun _ hs => hs⟩
  | before =>
    have hexec : (Dispatchers.world P who).exec p (.inr op) x st =
        (.error "Redis command failed", st.1, st.2) := by
      change ((dispatchMachine.exec (who p) op x st.2).1, st.1,
        (dispatchMachine.exec (who p) op x st.2).2) = _
      simp only [dispatchMachine, hfault]
      rfl
    rw [show (Dispatchers.world P who).exec p (Sum.inr op) x st = _ from hexec]
    exact ⟨⟨hst.1, fun _ h => h⟩, fun st => Kept st.1.1, fun s s' _ hr => hr.1, hst.1,
      fun _ hs => hs⟩
  | after =>
    have hexec : (Dispatchers.world P who).exec p (.inr op) x st =
        (.error "Redis command failed", st.1, (st.2.exec op).2) := by
      change ((dispatchMachine.exec (who p) op x st.2).1, st.1,
        (dispatchMachine.exec (who p) op x st.2).2) = _
      simp only [dispatchMachine, hfault]
      rfl
    rw [show (Dispatchers.world P who).exec p (Sum.inr op) x st = _ from hexec]
    exact ⟨⟨hst.1, hmono⟩, fun st => Kept st.1.1, fun s s' _ hr => hr.1, hst.1, fun _ hs => hs⟩

/-- The head of a dispatch that returns has claimed its event. -/
theorem satE_targets_settled (requestId : Option String) (e : Event) :
    SatE (Dispatchers.world P who) p settled (dispatcher.targets P config requestId e)
      (fun st => Kept st.1.1)
      (fun _ st => Kept st.1.1 ∧ ∀ eventId, e.Known eventId → st.2.dispatched eventId = true)
      fun _ st => Kept st.1.1 := by
  rw [dispatcher.targets]
  split
  · rename_i hknown
    refine SatE.pure fun st hst => ⟨hst, fun eventId he => ?_⟩
    simp [he.1] at hknown
  split
  · exact SatE.throw fun st hst => hst
  rename_i eventId hfilter
  have hclaims : ∀ d : DispatchStore, Marked (some eventId) d →
      ∀ id, e.Known id → d.dispatched id = true := by
    intro d hd id hid
    have : e.event_id.filter (· ≠ "") = some id := by simp [hid.2.1, hid.2.2]
    exact hd id (hfilter.symm.trans this)
  have hfree : ∀ st : Dispatchers.World, Kept st.1.1 → Kept st.1.1 ∧ Marked none st.2 :=
    fun st h => ⟨h, fun _ he => (by cases he)⟩
  refine SatE.bind (Q := fun _ st => Kept st.1.1 ∧ Marked none st.2) ?_ fun traceId => ?_
  · refine (satE_names (Q := fun _ => True) ?_ none).mono hfree (fun _ _ h => h) fun _ _ h => h.1
    exact names_of_uses (Throws.Uses.bind (uses_redis trivial) fun _ => Throws.uses_pure _)
  refine SatE.bind (Q := fun _ st => Kept st.1.1 ∧ Marked (some eventId) st.2) ?_ fun r => ?_
  · refine satE_keys (.claimEvent eventId) none (fun d d' hd h id he => hd id (h id he)) ?_
    rintro d - id he
    obtain rfl : eventId = id := by simpa using he
    simp [DispatchStore.exec]
  split
  · have hlist : Uses Op.Keeping (webhookRepository.listActiveForEvent P config e.event_type
        matchesSubscription) := by
      refine Throws.Uses.tryCatch ?_ fun _ => Throws.uses_pure _
      refine Throws.Uses.bind (uses_redis trivial) fun ids => ?_
      split
      · exact Throws.uses_pure _
      · exact Throws.Uses.bind (uses_redis trivial) fun _ => Throws.uses_pure _
    refine SatE.bind (Q := fun _ st => Kept st.1.1 ∧ Marked (some eventId) st.2) ?_ fun active => ?_
    · exact (satE_names (names_of_uses hlist) (some eventId)).mono (fun _ h => h) (fun _ _ h => h)
        fun _ _ h => h.1
    dsimp only
    split
    · exact SatE.pure fun st hst => ⟨hst.1, hclaims st.2 hst.2⟩
    refine SatE.bind (Q := fun _ st => Kept st.1.1 ∧ Marked (some eventId) st.2) ?_ fun sequence => ?_
    · exact satE_keys (.incrSequence _) (some eventId) (fun d d' hd h id he => hd id (h id he))
        fun d hd => hd
    refine SatE.bind (Q := fun _ st => Kept st.1.1 ∧ Marked (some eventId) st.2) ?_ fun now => ?_
    · exact (satE_names (names_redis .now trivial) (some eventId)).mono (fun _ h => h)
        (fun _ _ h => h) fun _ _ h => h.1
    · exact SatE.pure fun st hst => ⟨hst.1, hclaims st.2 hst.2⟩
  · exact SatE.pure fun st hst => ⟨hst.1, hclaims st.2 hst.2⟩

variable [DecidableEq δ] [DecidableEq β] {b : Batching}

variable (P config who b) in
/-- **Every history** of dispatches and other calls, whatever fails, leaves webhooks under their own
ids, and the key of the event of each dispatch whose head has returned. -/
theorem settled_run (requestId : δ → Option String) (event : δ → Event) (call : β → OtherCall)
    {s : Store} (hs : Kept s) (d : DispatchStore) (ls : List (Place δ β × Env)) :
    let c := run (Dispatchers.step P config b who)
      (Dispatchers.start P config requestId event call s d) ls
    Kept c.store.1.1 ∧ ∀ i notices, c.head i = .ret (.ok notices) →
      ∀ eventId, (event i).Known eventId → c.store.2.dispatched eventId = true := by
  intro c
  let H : δ → Except Err (List dispatcher.Notice) → Dispatchers.World → Prop := fun i r st =>
    Kept st.1.1 ∧ ∀ notices, r = .ok notices →
      ∀ eventId, (event i).Known eventId → st.2.dispatched eventId = true
  have hcode : ∀ {α : Type} {t : Code α} (p : Place δ β) (st : Dispatchers.World),
      Names (fun _ => True) t → Kept st.1.1 →
      Ready (Dispatchers.world P who) p settled (service t).prog (fun _ _ => True) st := by
    intro α t p st ht hst
    refine ⟨fun st => Kept st.1.1, fun _ _ _ hr => hr.1, hst, ?_⟩
    exact Sat.mono (satE_names ht none) (fun st h => ⟨h, fun _ he => (nomatch he)⟩)
      fun _ _ _ => trivial
  have hrun : Kept c.store.1.1 ∧ c.Safe P who (fun _ => settled) H fun _ _ _ _ => True := by
    refine run_inv_of_step (I := fun c : Dispatchers δ β => Kept c.store.1.1 ∧
      c.Safe P who (fun _ => settled) H fun _ _ _ _ => True) ?_ ⟨hs, ?_, ?_, ?_⟩
    · rintro c l ⟨hkept, hsafe⟩
      have hC : Dispatchers.Compatible fun _ : Place δ β => settled := fun _ _ _ _ _ h => h
      refine ⟨?_, ?_⟩
      · rcases hsafe.guar config b l fun _ _ => trivial with h | h
        · rw [h]
          exact hkept
        · exact h.1
      · obtain ⟨_ | _ | _, x⟩ := l
        · refine hsafe.step_head hC (fun _ _ => trivial) fun n notices notice st hst _ => ?_
          exact hcode _ st (names_of_uses (keeping_deliverToWebhook P config notice)) hst.1
        · exact hsafe.step_delivery hC fun _ _ => trivial
        · exact hsafe.step_other hC fun _ _ => trivial
    · intro i
      refine ⟨fun st => Kept st.1.1, fun _ _ _ hr => hr.1, hs, ?_⟩
      refine Sat.mono (satE_targets_settled (requestId i) (event i)) (fun _ h => h) ?_
      rintro (e | notices) st hst
      · exact ⟨hst, fun _ he => (nomatch he)⟩
      · exact ⟨hst.1, fun _ _ => hst.2⟩
    · exact fun i n code hcode => (nomatch hcode)
    · exact fun j => hcode (.other j) _ (names_otherCall P config (call j)) hs
  refine ⟨hrun.1, fun i notices hi => ?_⟩
  have hready := hrun.2.head i
  rw [hi] at hready
  exact hready.done.2 notices rfl

end Settled

/-! ## 5. The later dispatch -/

/-- An active webhook that an event matches, as it is stored. -/
def Subscribed (P : Platform) (config : Config) (s : Store) (e : Event) (w : Webhook) : Prop :=
  ∃ record, s.webhooks w.id = some record ∧ w = normalize P config record ∧
    record.active ∧ matchesSubscription record.events e.event_type ∧
    matchesWebhookFilters w.filters e.data e.event_type

section Planned

variable {P : Platform} {config : Config} {s : Store} {d : DispatchStore} {e : Event}
  {eventId : String}

/-- A webhook that is listed is stored under its id, which is in the index of the event. -/
theorem stored_of_listed (hs : Kept s) {w : Webhook} (hw : w ∈ listed P config s e.event_type) :
    (s.webhooks w.id).isSome ∧ w.id ≠ "" ∧ w.id ∈ s.eventIndex e.event_type := by
  simp only [listed, List.mem_filter, List.mem_map, List.mem_filterMap, id] at hw
  obtain ⟨⟨record, ⟨_, ⟨id, hid, rfl⟩, hrecord⟩, rfl⟩, -⟩ := hw
  obtain ⟨hkeyed, hne⟩ := hs id record hrecord
  have hnormalize : (normalize P config record).id = id := hkeyed
  rw [hnormalize, hrecord]
  exact ⟨rfl, hne, hid⟩

theorem mem_listed_of_planned {w : Webhook} (hw : w ∈ planned P config s d e eventId) :
    w ∈ listed P config s e.event_type := by
  rw [planned] at hw
  split at hw
  · cases hw
  · exact (List.mem_filter.mp hw).1

/-- Each webhook is planned for once. -/
theorem nodup_planned (hs : Kept s) :
    ((planned P config s d e eventId).map Webhook.id).Nodup := by
  rw [planned]
  split
  · exact List.nodup_nil
  · exact (List.Sublist.map Webhook.id List.filter_sublist).nodup
      (nodup_listed (fun id r hr => (hs id r hr).1) e.event_type)

/-- **Who is planned for**: a subscribed webhook in the index of an event that is not claimed. -/
theorem mem_planned_iff (hs : Kept s) {w : Webhook} (hw : Subscribed P config s e w) :
    (∃ w' ∈ planned P config s d e eventId, w'.id = w.id) ↔
      d.dispatched eventId = false ∧ w.id ∈ s.eventIndex e.event_type := by
  constructor
  · rintro ⟨w', hw', hid⟩
    have hindex := (stored_of_listed hs (mem_listed_of_planned hw')).2.2
    rw [hid] at hindex
    refine ⟨?_, hindex⟩
    cases hd : d.dispatched eventId with
    | false => rfl
    | true => simp [planned, hd] at hw'
  · rintro ⟨hd, hindex⟩
    obtain ⟨record, hrecord, hnormalize, hactive, hmatch, hfilters⟩ := hw
    refine ⟨w, ?_, rfl⟩
    rw [planned, if_neg (by simp [hd]), List.mem_filter]
    refine ⟨?_, hfilters⟩
    simp only [listed, List.mem_filter, List.mem_map, List.mem_filterMap, id]
    refine ⟨⟨record, ⟨some record, ⟨w.id, hindex, hrecord⟩, rfl⟩, hnormalize.symm⟩, ?_⟩
    rw [hnormalize, Bool.and_eq_true]
    exact ⟨hactive, hmatch⟩

end Planned

namespace Again

variable (P : Platform) (config : Config) (s : Store) (d : DispatchStore) (e : Event)
  (eventId : String)

/-- The contract of a place that only waits. -/
def idle : Contract (sig.sum dispatchSig) Env Dispatchers.World where
  ok _ x _ := x.fault = .none
  rely _ _ := True
  guar st st' := st' = st

/-- The contract of the delivery for `q`, beside the keys of the dispatcher. -/
def delivering (q : String × String) : Contract (sig.sum dispatchSig) Env Dispatchers.World where
  ok _ x _ := x.fault = .none
  rely st st' := view q st'.1 = view q st.1
  guar st st' := ∀ q' ≠ q, view q' st'.1 = view q' st.1

/-- What the places of the later dispatch are held to once its head has returned. -/
def terms : Place Unit Empty → Contract (sig.sum dispatchSig) Env Dispatchers.World
  | .delivery _ n => match (planned P config s d e eventId)[n]? with
    | some w => delivering (w.id, eventId)
    | none => idle
  | _ => idle

/-- What the `n`-th delivery leaves. -/
def delivered (n : ℕ) (st : Dispatchers.World) : Prop :=
  ∀ w, (planned P config s d e eventId)[n]? = some w →
    view (w.id, eventId) st.1 = (s.webhooks, true, !s.delivered (w.id, eventId))

/-- Nothing has happened to what is not planned for. -/
def Rest (st : Dispatchers.World) : Prop :=
  ∀ q, (∀ w ∈ planned P config s d e eventId, q ≠ (w.id, eventId)) →
    view q st.1 = (s.webhooks, s.delivered q, false)

/-- The head is at work. -/
structure Heading (who : Place Unit Empty → Caller) (c : Dispatchers Unit Empty) : Prop where
  running : (c.head ()).result? = none
  waiting : ∀ n, c.delivery () n = none
  ready : Ready (Dispatchers.world P who) (.head ()) headContract (c.head ())
    (fun r st => ∃ notices, r = .ok notices ∧
      (notices.map dispatcher.Notice.webhook = planned P config s d e eventId ∧
        ∀ n ∈ notices, n.eventId = eventId) ∧ Unchanged s st.1) c.store

/-- The deliveries are at work. -/
structure Underway (who : Place Unit Empty → Caller) (notices : List dispatcher.Notice)
    (c : Dispatchers Unit Empty) : Prop where
  returned : c.head () = .ret (.ok notices)
  plan : notices.map dispatcher.Notice.webhook = planned P config s d e eventId
  spawned : ∀ n < notices.length, (c.delivery () n).isSome
  safe : c.Safe P who (terms P config s d e eventId) (fun _ r _ => r = .ok notices)
    fun _ n _ => delivered P config s d e eventId n
  rest : Rest P config s d e eventId c.store

variable {P config s d e eventId} {who : Place Unit Empty → Caller} {c : Dispatchers Unit Empty}
  {notices : List dispatcher.Notice} {b : Batching} {x : Env}

theorem compatible_terms (hs : Kept s) : Dispatchers.Compatible (terms P config s d e eventId) := by
  intro p p' hne st st' hg
  match p' with
  | .head _ | .other _ => trivial
  | .delivery () m =>
    rw [terms]
    split
    · rename_i w hw
      change view (w.id, eventId) st'.1 = view (w.id, eventId) st.1
      match p with
      | .head _ | .other _ =>
        obtain rfl : st' = st := hg
        rfl
      | .delivery () n =>
        rw [terms] at hg
        split at hg
        · rename_i w' hw'
          refine hg _ fun he => hne ?_
          -- two deliveries are for two webhooks
          have hid : w'.id = w.id := (congrArg Prod.fst he).symm
          have hnodup : ((planned P config s d e eventId).map Webhook.id).Nodup := nodup_planned hs
          have hlt : n < ((planned P config s d e eventId).map Webhook.id).length := by
            rw [List.length_map]
            exact (List.getElem?_eq_some_iff.mp hw').1
          have hnm : n = m := (List.getElem?_inj hlt hnodup).mp (by
            rw [List.getElem?_map, List.getElem?_map, hw, hw', Option.map_some, Option.map_some, hid])
          rw [hnm]
        · obtain rfl : st' = st := hg
          rfl
    · trivial

/-- A delivery can start from the store that the head leaves. -/
theorem ready_delivery (hs : Kept s) {n : ℕ} {notice : dispatcher.Notice}
    (hnotice : (planned P config s d e eventId)[n]? = some notice.webhook)
    (hid : notice.eventId = eventId) {st : Dispatchers.World} (hst : Unchanged s st.1) :
    Ready (Dispatchers.world P who) (.delivery () n) (terms P config s d e eventId (.delivery () n))
      (service (dispatcher.deliverToWebhook P config notice)).prog
      (fun _ => delivered P config s d e eventId n) st := by
  have hmem := List.mem_of_getElem? hnotice
  obtain ⟨hsome, hne, -⟩ := stored_of_listed hs (mem_listed_of_planned hmem)
  rw [show terms P config s d e eventId (.delivery () n) =
    delivering (notice.webhook.id, eventId) by rw [terms, hnotice]]
  refine ⟨fun st => view (notice.webhook.id, eventId) st.1 =
    (s.webhooks, s.delivered (notice.webhook.id, eventId), false), ?_, ?_, ?_⟩
  · intro st st' h hr
    exact Eq.trans hr h
  · simp [view, hst.webhooks, hst.delivered, hst.created]
  · have hdeliver : SatE (observed P who) (.delivery () n)
        (viewContract (notice.webhook.id, eventId)) (dispatcher.deliverToWebhook P config notice)
        (fun st => view (notice.webhook.id, eventId) st =
          (s.webhooks, s.delivered (notice.webhook.id, eventId), false)) _ _ :=
      satE_deliverToWebhook notice (by rw [hid]) hne hsome _
    have hservice := SatE.inl (D := delivering (notice.webhook.id, eventId)) (B := fun _ => True)
      (N := dispatchMachine.comap who) hdeliver (fun _ _ _ h => h)
      (fun _ _ h => ⟨h, fun _ => trivial⟩) fun _ _ h _ => h
    refine Sat.mono hservice (fun _ h => ⟨h, trivial⟩) ?_
    rintro (_ | _) st ⟨h, -⟩ w hw <;> obtain rfl := Option.some.inj (hnotice.symm.trans hw) <;>
      exact h

/-- The dispatch begins. -/
abbrev begin (P : Platform) (config : Config) (requestId : Option String) (e : Event) (s : Store)
    (d : DispatchStore) : Dispatchers Unit Empty :=
  .start P config (fun _ => requestId) (fun _ => e) (fun j => j.elim) s d

theorem heading_begin (he : e.Known eventId) (requestId : Option String) :
    Heading P config s d e eventId who (begin P config requestId e s d) := by
  refine ⟨?_, fun _ => rfl, fun st => Unchanged s st.1 ∧ st.2 = d, ?_, ⟨⟨rfl, rfl, rfl, rfl⟩, rfl⟩,
    ?_⟩
  · obtain ⟨hknown, hid, hne⟩ := he
    have hfilter : e.event_id.filter (· ≠ "") = some eventId := by simp [hid, hne]
    change (dispatcher.targets P config requestId e).prog.result? = none
    rw [dispatcher.targets, hknown, hfilter]
    rfl
  · rintro st _ h rfl
    exact h
  · refine Sat.mono (satE_targets he requestId) (fun _ h => h) ?_
    rintro (e | notices) st hst
    · exact hst.elim
    · exact ⟨notices, rfl, hst⟩

/-- The head takes a step. -/
theorem Heading.step_head (hs : Kept s) (h : Heading P config s d e eventId who c)
    (hx : x.fault = .none) :
    Heading P config s d e eventId who (c.step P config b who (.head (), x)) ∨
      ∃ notices, Underway P config s d e eventId who notices
        (c.step P config b who (.head (), x)) := by
  obtain ⟨hready, -⟩ := h.ready.advance fun _ => hx
  have hstep : c.step P config b who (.head (), x) =
      { c with
        store := ((c.head ()).act (Dispatchers.world P who) (.head ()) x c.store).2
        head := fun _ => ((c.head ()).act (Dispatchers.world P who) (.head ()) x c.store).1
        delivery := fun _ n => Dispatchers.spawn P config
          ((c.head ()).act (Dispatchers.world P who) (.head ()) x c.store).1 n } := by
    have hone : ∀ {γ : Type} (f : Unit → γ) (a : γ), Function.update f () a = fun _ => a :=
      fun f a => funext fun _ => by simp
    simp [Dispatchers.step, hone, h.waiting]
  rw [hstep]
  revert hready
  cases ((c.head ()).act (Dispatchers.world P who) (.head ()) x c.store).1 with
  | cmd op k => exact fun hready => .inl ⟨rfl, fun _ => rfl, hready⟩
  | ret r =>
    intro hready
    obtain ⟨notices, rfl, ⟨hplanned, hids⟩, hsame⟩ := hready.done
    refine .inr ⟨notices, rfl, hplanned, ?_, ⟨?_, ?_, fun j => j.elim⟩, ?_⟩
    · intro n hn
      simp [Dispatchers.spawn, hn]
    · exact fun _ => ⟨fun _ => True, fun _ _ _ _ => trivial, trivial, fun _ _ => rfl⟩
    · intro _ n code hcode
      obtain ⟨notice, hnotice, rfl⟩ : ∃ notice, notices[n]? = some notice ∧
          (service (dispatcher.deliverToWebhook P config notice)).prog = code := by
        simpa [Dispatchers.spawn] using hcode
      refine ready_delivery hs ?_ (hids notice (List.mem_of_getElem? hnotice)) hsame
      rw [← hplanned, List.getElem?_map, hnotice]
      rfl
    · intro q _
      simp [view, hsame.webhooks, hsame.delivered, hsame.created]

/-- Steps of the deliveries. -/
theorem Underway.step (hs : Kept s) (h : Underway P config s d e eventId who notices c)
    (l : Place Unit Empty × Env) (hl : l.2.fault = .none) :
    Underway P config s d e eventId who notices (c.step P config b who l) := by
  obtain ⟨⟨⟨⟩⟩ | ⟨⟨⟩, n⟩ | j, x⟩ := l
  · -- the head has returned, and everything is spawned
    have hsame : c.step P config b who (.head (), x) = c := by
      have hdelivery : (fun n => (c.delivery () n).or (Dispatchers.spawn P config (c.head ()) n)) =
          c.delivery () := by
        funext n
        by_cases hn : n < notices.length
        · obtain ⟨code, hcode⟩ := Option.isSome_iff_exists.mp (h.spawned n hn)
          rw [hcode]
          rfl
        · simp [Dispatchers.spawn, h.returned, List.getElem?_eq_none (not_lt.mp hn)]
      simp only [Dispatchers.step, h.returned, Prog.act] at hdelivery ⊢
      rw [hdelivery, ← h.returned, Function.update_eq_self, Function.update_eq_self]
    rw [hsame]
    exact h
  · have hok : ∀ op st, (terms P config s d e eventId (.delivery () n)).ok op x st := by
      intro op st
      rw [terms]
      split <;> exact hl
    have hC : Dispatchers.Compatible (terms P config s d e eventId) := compatible_terms hs
    refine ⟨?_, h.plan, fun m hm => ?_, h.safe.step_delivery hC hok, ?_⟩
    · rw [Dispatchers.step_delivery_head]
      exact h.returned
    · exact Dispatchers.step_delivery_isSome (h.spawned m hm)
    · intro q hq
      rcases h.safe.guar config b (.delivery () n, x) hok with hst | hst
      · rw [hst]
        exact h.rest q hq
      · refine Eq.trans ?_ (h.rest q hq)
        change (terms P config s d e eventId (.delivery () n)).guar _ _ at hst
        rw [terms] at hst
        split at hst
        · rename_i w hw
          exact hst q (hq w (List.mem_of_getElem? hw))
        · have hst' : (c.step P config b who (.delivery () n, x)).store = c.store := hst
          rw [hst']
  · exact j.elim

variable (P config d who b) in
/-- **Every run** in which nothing fails: the head is at work, or the deliveries are. -/
theorem run_again (hs : Kept s) (he : e.Known eventId) (requestId : Option String)
    {ls : List (Place Unit Empty × Env)} (hls : ∀ l ∈ ls, l.2.fault = .none) :
    Heading P config s d e eventId who
        (run (Dispatchers.step P config b who) (begin P config requestId e s d) ls) ∨
      ∃ notices, Underway P config s d e eventId who notices
        (run (Dispatchers.step P config b who) (begin P config requestId e s d) ls) := by
  refine run_inv (I := fun c => Heading P config s d e eventId who c ∨
      ∃ notices, Underway P config s d e eventId who notices c) ?_
    (.inl (heading_begin he requestId)) (Along.of_mem hls _)
  rintro c ⟨p, x⟩ (h | ⟨notices, h⟩) hx
  · match p with
    | .head () => exact h.step_head hs hx
    | .delivery () n =>
      have hsame : c.step P config b who (.delivery () n, x) = c := by
        simp [Dispatchers.step, h.waiting]
      rw [hsame]
      exact .inl h
    | .other j => exact j.elim
  · exact .inr ⟨notices, h.step hs _ hx⟩

/-- **What a dispatch that has returned has created**: a record for every webhook that was planned
for and whose key was free. -/
theorem Underway.created_iff (h : Underway P config s d e eventId who notices c)
    (hreturned : (c.reports ()).isSome) (q : String × String) :
    q ∈ c.created ↔
      (∃ w ∈ planned P config s d e eventId, q = (w.id, eventId)) ∧ s.delivered q = false := by
  rw [Dispatchers.isSome_reports h.returned] at hreturned
  by_cases hq : ∃ w ∈ planned P config s d e eventId, q = (w.id, eventId)
  · obtain ⟨w, hw, rfl⟩ := hq
    obtain ⟨n, hn, hget⟩ := List.getElem_of_mem hw
    have hget' : (planned P config s d e eventId)[n]? = some w := by
      rw [List.getElem?_eq_getElem hn, hget]
    have hlen : n < notices.length := by
      rw [← h.plan, List.length_map] at hn
      exact hn
    obtain ⟨r, hr⟩ := Option.isSome_iff_exists.mp (hreturned n hlen)
    obtain ⟨code, hcode, hresult⟩ := Option.bind_eq_some_iff.mp hr
    have hready := h.safe.delivery () n code hcode
    cases code with
    | cmd op k => cases hresult
    | ret r' =>
      have hview := hready.done w hget'
      have hcreated : decide ((w.id, eventId) ∈ c.store.1.2) = !s.delivered (w.id, eventId) :=
        congrArg (fun v => v.2.2) hview
      have hexists : ∃ w' ∈ planned P config s d e eventId,
          (w.id, eventId) = (w'.id, eventId) := ⟨w, hw, rfl⟩
      rw [and_iff_right hexists, ← Bool.not_eq_true', ← hcreated]
      exact decide_eq_true_iff.symm
  · have hview := h.rest q fun w hw he => hq ⟨w, hw, he⟩
    have hcreated : decide (q ∈ c.store.1.2) = false := congrArg (fun v => v.2.2) hview
    rw [decide_eq_false_iff_not] at hcreated
    exact ⟨fun hmem => absurd hmem hcreated, fun hmem => absurd hmem.1 hq⟩

/-- A dispatch in which nothing fails can always go on to its end. -/
theorem exists_returns (hs : Kept s) (he : e.Known eventId) (requestId : Option String)
    {ls : List (Place Unit Empty × Env)} (hls : ∀ l ∈ ls, l.2.fault = .none) :
    ∃ ms : List (Place Unit Empty × Env), (∀ l ∈ ms, l.2.fault = .none) ∧
      ((run (Dispatchers.step P config b who) (begin P config requestId e s d)
        (ls ++ ms)).reports ()).isSome := by
  let x : Env := { now := 0 }
  -- first the head
  obtain ⟨k, hk⟩ := Dispatchers.exists_head_ends P config b who ()
    x (run (Dispatchers.step P config b who) (begin P config requestId e s d) ls)
  have hhead : ∀ l ∈ List.replicate k (Place.head (δ := Unit) (β := Empty) (), x),
      l.2.fault = .none := by
    intro l hl
    rw [List.eq_of_mem_replicate hl]
  have hlabels : ∀ l ∈ ls ++ List.replicate k (Place.head (δ := Unit) (β := Empty) (), x),
      l.2.fault = .none := List.forall_mem_append.mpr ⟨hls, hhead⟩
  obtain h | ⟨notices, h⟩ := run_again P config d who b hs he requestId hlabels
  · rw [run_append] at h
    rw [h.running] at hk
    cases hk
  -- and then the deliveries
  obtain ⟨ms, hms, hsame, hends⟩ := Dispatchers.exists_deliveries_end P config b who () notices.length x _ h.spawned
  refine ⟨List.replicate k (.head (), x) ++ ms, List.forall_mem_append.mpr ⟨hhead, fun l hl => ?_⟩, ?_⟩
  · rw [hms l hl]
  · rw [← List.append_assoc, run_append]
    exact (Dispatchers.isSome_reports (by rw [hsame, h.returned])).mpr hends

/-- **What the later dispatch creates**, once it has returned. -/
theorem again_created_iff (hs : Kept s) (he : e.Known eventId) (requestId : Option String)
    {w : Webhook} (hw : Subscribed P config s e w) {ls : List (Place Unit Empty × Env)}
    (hls : ∀ l ∈ ls, l.2.fault = .none)
    (hreturned : ((run (Dispatchers.step P config b who) (begin P config requestId e s d)
      ls).reports ()).isSome) :
    (w.id, eventId) ∈ (run (Dispatchers.step P config b who) (begin P config requestId e s d)
      ls).created ↔ d.dispatched eventId = false ∧ s.delivered (w.id, eventId) = false ∧
        w.id ∈ s.eventIndex e.event_type := by
  obtain h | ⟨notices, h⟩ := run_again P config d who b hs he requestId hls
  · have hnone := h.running
    rw [Dispatchers.reports, hnone] at hreturned
    cases hreturned
  · rw [h.created_iff hreturned]
    have hplanned : (∃ w' ∈ planned P config s d e eventId, (w.id, eventId) = (w'.id, eventId)) ↔
        ∃ w' ∈ planned P config s d e eventId, w'.id = w.id :=
      exists_congr fun w' => and_congr_right fun _ =>
        ⟨fun h => (congrArg Prod.fst h).symm, fun h => by rw [h]⟩
    rw [hplanned, mem_planned_iff hs hw]
    constructor
    · rintro ⟨⟨hd, hindex⟩, hdelivered⟩
      exact ⟨hd, hdelivered, hindex⟩
    · rintro ⟨hd, hdelivered, hindex⟩
      exact ⟨⟨hd, hindex⟩, hdelivered⟩

end Again

/-! ## 6. Dispatching again -/

/-- **A dispatch after other dispatches.**  Any number of dispatches and other calls of the service
are under way, any of their steps may fail, and from where they leave the stores an event is
dispatched again while nothing fails.  This dispatch can always go on to its end, and once it has
returned it has created the delivery record of a subscribed webhook if and only if neither the key
of the event nor the key of the webhook and the event was claimed before, and the webhook is in the
index of the event.  A dispatch of the event whose head has returned has claimed the key. -/
theorem redispatch_iff {δ β : Type} [DecidableEq δ] [DecidableEq β] (P : Platform) (config : Config)
    (b b' : Batching) (who : Place δ β → Caller) (who' : Place Unit Empty → Caller)
    (requestId : δ → Option String) (event : δ → Event) (call : β → OtherCall) {s : Store}
    (hs : Kept s) (d : DispatchStore) (ls : List (Place δ β × Env)) (requestId' : Option String)
    {e : Event} {eventId : String} (he : e.Known eventId) {w : Webhook} :
    let c := run (Dispatchers.step P config b who)
      (Dispatchers.start P config requestId event call s d) ls
    let later (ms : List (Place Unit Empty × Env)) := run (Dispatchers.step P config b' who')
      (Again.begin P config requestId' e c.store.1.1 c.store.2) ms
    Subscribed P config c.store.1.1 e w →
    (∀ ms : List (Place Unit Empty × Env), (∀ l ∈ ms, l.2.fault = .none) →
      ∃ ms' : List (Place Unit Empty × Env), (∀ l ∈ ms', l.2.fault = .none) ∧
        ((later (ms ++ ms')).reports ()).isSome) ∧
    (∀ ms : List (Place Unit Empty × Env), (∀ l ∈ ms, l.2.fault = .none) →
      ((later ms).reports ()).isSome →
      ((w.id, eventId) ∈ (later ms).created ↔
        c.store.2.dispatched eventId = false ∧ c.store.1.1.delivered (w.id, eventId) = false ∧
          w.id ∈ c.store.1.1.eventIndex e.event_type)) ∧
    ∀ i notices, (event i).Known eventId → c.head i = .ret (.ok notices) →
      c.store.2.dispatched eventId = true := by
  intro c later hw
  obtain ⟨hkept, hclaimed⟩ := settled_run P config who b requestId event
    call hs d ls
  refine ⟨fun ms hms => Again.exists_returns hkept he requestId' hms, fun ms hms hreturned => ?_,
    fun i notices hi hhead => hclaimed i notices hhead eventId hi⟩
  exact Again.again_created_iff hkept he requestId' hw hms hreturned

/-- A store with one webhook, which is in the index of its event. -/
def indexedStore : Store :=
  { sampleStore with
    eventIndex := Function.update Store.init.eventIndex "pool.created"
      ((Store.init.eventIndex "pool.created").sadd "wh_0") }

/-- No keys of the dispatcher. -/
def DispatchStore.init : DispatchStore := ⟨fun _ => false, fun _ => 0⟩

/-- An event of its type. -/
def sampleEvent : Event := ⟨"pool.created", some "evt_1", none⟩

/-- A dispatch of which the lookup of the subscribers fails. -/
def failedLookup : List (Place Unit Empty × Env) :=
  [(.head (), { now := 0 }), (.head (), { now := 0 }), (.head (), { now := 0, fault := .before })]

theorem kept_indexedStore : Kept indexedStore := by
  intro id record hrecord
  by_cases he : id = "wh_0"
  · obtain rfl : sampleRecord = record := by
      simpa [indexedStore, sampleStore, he] using hrecord
    exact ⟨he.symm, by rw [he]; decide⟩
  · simp [indexedStore, sampleStore, Store.init, he] at hrecord

/-- The dispatches of the examples. -/
abbrev sampleDispatch (ls : List (Place Unit Empty × Env)) : Dispatchers Unit Empty :=
  run (Dispatchers.step samplePlatform sampleConfig ⟨5, false⟩ fun _ => server)
    (Again.begin samplePlatform sampleConfig none sampleEvent indexedStore .init) ls

theorem subscribed_sample (ls : List (Place Unit Empty × Env))
    (h : (sampleDispatch ls).store.1.1.webhooks "wh_0" = some sampleRecord) :
    Subscribed samplePlatform sampleConfig (sampleDispatch ls).store.1.1 sampleEvent
      (normalize samplePlatform sampleConfig sampleRecord) := by
  refine ⟨sampleRecord, h, rfl, rfl, ?_, rfl⟩
  decide

/-- The equivalence, after a dispatch that has claimed the key of its event. -/
theorem redispatch_iff_sample :
    let c := sampleDispatch failedLookup
    let later (ms : List (Place Unit Empty × Env)) :=
      run (Dispatchers.step samplePlatform sampleConfig ⟨5, false⟩ fun _ => server)
        (Again.begin samplePlatform sampleConfig none sampleEvent c.store.1.1 c.store.2) ms
    (∀ ms : List (Place Unit Empty × Env), (∀ l ∈ ms, l.2.fault = .none) →
      ∃ ms' : List (Place Unit Empty × Env), (∀ l ∈ ms', l.2.fault = .none) ∧
        ((later (ms ++ ms')).reports ()).isSome) ∧
    (∀ ms : List (Place Unit Empty × Env), (∀ l ∈ ms, l.2.fault = .none) →
      ((later ms).reports ()).isSome →
      (("wh_0", "evt_1") ∈ (later ms).created ↔
        c.store.2.dispatched "evt_1" = false ∧
          c.store.1.1.delivered ("wh_0", "evt_1") = false ∧
          "wh_0" ∈ c.store.1.1.eventIndex "pool.created")) ∧
    ∀ i : Unit, ∀ notices, sampleEvent.Known "evt_1" → c.head i = .ret (.ok notices) →
      c.store.2.dispatched "evt_1" = true :=
  redispatch_iff samplePlatform sampleConfig ⟨5, false⟩ ⟨5, false⟩ (fun _ => server)
    (fun _ => server) (fun _ => none) (fun _ => sampleEvent) (fun j : Empty => j.elim)
    kept_indexedStore .init failedLookup none ⟨by decide, rfl, by decide⟩
    (subscribed_sample failedLookup rfl)

/-- After a dispatch whose lookup failed, the subscribed webhook never gets its delivery. -/
theorem failed_lookup_loses : ¬ ∀ (ls : List (Place Unit Empty × Env)) (w : Webhook),
    let c := sampleDispatch ls
    Subscribed samplePlatform sampleConfig c.store.1.1 sampleEvent w →
    (c.reports ()).isSome → (w.id, "evt_1") ∉ c.created →
    ∃ ms : List (Place Unit Empty × Env), (∀ l ∈ ms, l.2.fault = .none) ∧
      let c' := run (Dispatchers.step samplePlatform sampleConfig ⟨5, false⟩ fun _ => server)
        (Again.begin samplePlatform sampleConfig none sampleEvent c.store.1.1 c.store.2) ms
      (c'.reports ()).isSome ∧ (w.id, "evt_1") ∈ c'.created := by
  intro h
  obtain ⟨ms, hms, hreturned, hcreated⟩ := h failedLookup _ (subscribed_sample failedLookup rfl) rfl
    (by decide +kernel)
  have hkept : Kept (sampleDispatch failedLookup).store.1.1 := kept_indexedStore
  rw [Again.again_created_iff hkept ⟨by decide, rfl, by decide⟩ none
    (subscribed_sample failedLookup rfl) hms hreturned] at hcreated
  exact absurd hcreated.1 (by decide +kernel)

end SmartDrop.Webhooks
