/-
# The world of the webhook service

Redis with the keys of the two repositories and the dispatcher, the memory of every process
(the webhook cache and the delivery metrics), and the traffic with the endpoints.  `Op` lists
the atomic steps that the service takes in it, one for every command, transaction or script it
sends and one for every read of the clock, draw, lookup and request.

A command can fail before or after Redis executed it.  Times to live are left out: a record
stays until it is deleted.
-/
import SmartDrop.Lib.Prog
import SmartDrop.Lib.RedisTypes
import SmartDrop.Webhooks.Schema
import SmartDrop.Webhooks.Ssrf
import Mathlib.Algebra.Order.Ring.Rat

namespace SmartDrop.Webhooks

open Conc JsonText Redis

/-! ## 1. State -/

/-- An entry of `webhookCache`. -/
structure CacheEntry where
  value : Webhook
  expiresAt : ℕ

/-- Delivery counters. -/
structure Counters where
  total : ℕ := 0
  success : ℕ := 0
  failed : ℕ := 0
  totalAttempts : ℕ := 0
  totalLatencyMs : ℕ := 0
deriving DecidableEq

/-- The counters after one more completed delivery. -/
def Counters.add (c : Counters) (success : Bool) (attempts latencyMs : ℕ) : Counters where
  total := c.total + 1
  success := c.success + if success then 1 else 0
  failed := c.failed + if success then 0 else 1
  totalAttempts := c.totalAttempts + attempts
  totalLatencyMs := c.totalLatencyMs + latencyMs

/-- The memory of a process: the webhook cache and `metrics`. -/
structure Process where
  webhookCache : String → Option CacheEntry
  inFlight : RSet String
  deliveries : String → Option Counters
  aggregate : Counters

/-- A process that has just started. -/
def Process.init : Process := ⟨fun _ => none, .empty, fun _ => none, {}⟩

/-- What a `POST` sends. -/
structure Request where
  url : String
  headers : List (String × String)
  body : String
  timeout : ℕ
deriving DecidableEq

/-- What is seen of a delivery on the network: the guard refuses a URL, the guard has resolved
a URL and lets it pass, or a request is made, with the address it was sent to if there was a
connection. -/
inductive Traffic where
  | refused (url : String)
  | passed (url : String) (addresses : List String)
  | posted (request : Request) (address : Option String)
deriving DecidableEq

/-- Who takes a step: the process, and the delivery it is working on. -/
structure Caller where
  proc : ℕ
  delivery : Option String := none
deriving DecidableEq

/-- The keys of the service, the processes, how much randomness has been drawn, and the traffic
so far, the latest first. -/
structure Store where
  webhooks : String → Option WebhookRecord
  webhookIds : ZSet ℕ String
  owners : String → ZSet ℕ String
  eventIndex : String → RSet String
  deliveries : String → Option Delivery
  deliveryIndex : String → ZSet ℕ String
  statusIndex : String → Status → ZSet ℕ String
  retries : ZSet ℚ String
  delivered : String × String → Bool
  deadLetter : List DeadLetter
  aggregate : Counters
  perWebhook : String → Counters
  processes : ℕ → Process
  uuidsDrawn : ℕ
  bytesDrawn : ℕ
  traffic : List (Caller × Traffic)

/-- Nothing stored, and every process freshly started. -/
def Store.init : Store where
  webhooks _ := none
  webhookIds := .empty
  owners _ := .empty
  eventIndex _ := .empty
  deliveries _ := none
  deliveryIndex _ := .empty
  statusIndex _ _ := .empty
  retries := .empty
  delivered _ := false
  deadLetter := []
  aggregate := {}
  perWebhook _ := {}
  processes _ := .init
  uuidsDrawn := 0
  bytesDrawn := 0
  traffic := []

/-! ## 2. Steps -/

/-- The atomic steps of the service. -/
inductive Op where
  | now
  | random
  | randomUUID
  | randomBytes (count : ℕ)
  | getWebhook (id : String)
  | mgetWebhooks (ids : List String)
  | smembersEvent (eventType : String)
  | insertWebhook (record : WebhookRecord) (score : ℕ)
  | sremEvent (eventType id : String)
  | saddEvent (eventType id : String)
  | setWebhook (id : String) (record : WebhookRecord)
  | deliveryIds (webhookId : String)
  | deleteWebhook (id : String) (existing : WebhookRecord) (deliveryIds : List String)
  | getDelivery (id : String)
  | newestDeliveryIds (webhookId : String) (status : Option Status) (stop : ℕ)
  | mgetDeliveries (ids : List String)
  | insertDelivery (record : Delivery) (score : ℕ)
  | updateDelivery (id : String) (existing : Delivery) (patch : DeliveryPatch) (score : ℕ)
  | expireDelivery (id : String)
  | scheduleRetry (id : String) (score : ℚ)
  | popDueRetries (now max : ℕ)
  | claimDelivery (webhookId eventId : String)
  | lpushDeadLetter (entry : DeadLetter)
  | ltrimDeadLetter (keep : ℕ)
  | persistMetrics (webhookId : String) (success : Bool) (attempts latencyMs : ℕ)
  | cachedWebhook (id : String)
  | cacheWebhook (webhook : Webhook)
  | recordDeliveryStart (deliveryId webhookId : String)
  | recordDeliveryEnd (deliveryId webhookId : String) (success : Bool) (attempts latencyMs : ℕ)
  | assertPublicTarget (url : String)
  | post (request : Request)

/-- What a step answers. -/
@[reducible] def Op.Ret : Op → Type
  | .now => ℕ
  | .random => ℚ
  | .randomUUID => String
  | .randomBytes _ => List UInt8
  | .getWebhook _ => Option WebhookRecord
  | .mgetWebhooks _ => List (Option WebhookRecord)
  | .smembersEvent _ => List String
  | .deliveryIds _ => List String
  | .getDelivery _ => Option Delivery
  | .newestDeliveryIds .. => List String
  | .mgetDeliveries _ => List (Option Delivery)
  | .popDueRetries .. => List String
  | .claimDelivery .. => Bool
  | .cachedWebhook _ => Option Webhook
  | .assertPublicTarget _ => Except Thrown Target
  | .post _ => Except Thrown ℕ
  | _ => Unit

/-- The signature: a step may fail. -/
def sig : Sig where
  Op := Op
  Rep op := Except Err op.Ret

/-- How a command can fail: before Redis executed it, or after, its reply being lost. -/
inductive Fault where
  | none
  | before
  | after
deriving DecidableEq

/-- What the environment contributes to a step: the clock (a time value of the language), the
fault, the random number, what the guard's lookup finds, what the lookup of the HTTP client
finds, and the status or error of the exchange. -/
structure Env where
  now : ℕ
  fault : Fault := .none
  random : ℚ := 0
  lookup : Except Thrown (List String) := .ok []
  connect : Except Thrown String := .error ⟨none, "", none⟩
  answer : Except Thrown ℕ := .ok 200
  now_le : now ≤ 8640000000000000 := by decide

def WEBHOOK_CACHE_TTL_MS : ℕ := 60000

def RECENT_DELIVERIES_LIMIT : ℕ := 100

/-- `queueIndexWrite`. -/
def queueIndexWrite (index : ZSet ℕ String) (score : ℕ) (id : String) : ZSet ℕ String :=
  (index.zadd score id).trim RECENT_DELIVERIES_LIMIT

/-- The status indexes of a webhook after the transaction of `update`. -/
def moveStatus (index : Status → ZSet ℕ String) (id : String) (existing : Delivery)
    (patch : DeliveryPatch) (score : ℕ) : Status → ZSet ℕ String :=
  match patch.status with
  | none => index
  | some status =>
    if status = existing.status ∨ existing.webhook_id = "" then index
    else
      let removed := Function.update index existing.status ((index existing.status).zrem id)
      Function.update removed status (queueIndexWrite (removed status) score id)

/-- Change the memory of one process. -/
def Store.onProcess (s : Store) (proc : ℕ) (f : Process → Process) : Store :=
  { s with processes := Function.update s.processes proc (f (s.processes proc)) }

/-- Note something that is seen on the network. -/
def Store.log (s : Store) (caller : Caller) (t : Traffic) : Store :=
  { s with traffic := (caller, t) :: s.traffic }

/-- What a step answers and does. -/
def Store.exec (P : Platform) (caller : Caller) (x : Env) (s : Store) : (op : Op) → op.Ret × Store
  | .now => (x.now, s)
  | .random => (x.random, s)
  | .randomUUID => (P.randomUUID s.uuidsDrawn, { s with uuidsDrawn := s.uuidsDrawn + 1 })
  | .randomBytes count =>
    (P.randomBytes s.bytesDrawn count, { s with bytesDrawn := s.bytesDrawn + 1 })
  | .getWebhook id => (s.webhooks id, s)
  | .mgetWebhooks ids => (ids.map s.webhooks, s)
  | .smembersEvent eventType => ((s.eventIndex eventType).members, s)
  | .insertWebhook record score => ((), { s with
      webhooks := Function.update s.webhooks record.id (some record)
      webhookIds := s.webhookIds.zadd score record.id
      eventIndex := fun e =>
        if e ∈ record.events then (s.eventIndex e).sadd record.id else s.eventIndex e
      owners := match record.owner_ip with
        | none => s.owners
        | some ip => Function.update s.owners ip ((s.owners ip).zadd score record.id) })
  | .sremEvent eventType id => ((), { s with
      eventIndex := Function.update s.eventIndex eventType ((s.eventIndex eventType).srem id) })
  | .saddEvent eventType id => ((), { s with
      eventIndex := Function.update s.eventIndex eventType ((s.eventIndex eventType).sadd id) })
  | .setWebhook id record => ((), { s with
      webhooks := Function.update s.webhooks id (some record) })
  | .deliveryIds webhookId => ((s.deliveryIndex webhookId).zrange, s)
  | .deleteWebhook id existing deliveryIds => ((), { s with
      webhooks := Function.update s.webhooks id none
      webhookIds := s.webhookIds.zrem id
      owners := match existing.owner_ip with
        | none => s.owners
        | some ip => Function.update s.owners ip ((s.owners ip).zrem id)
      eventIndex := fun e =>
        if e ∈ existing.events then (s.eventIndex e).srem id else s.eventIndex e
      deliveries := fun d => if d ∈ deliveryIds then none else s.deliveries d
      retries := s.retries.zremAll deliveryIds
      statusIndex := Function.update s.statusIndex id fun _ => .empty
      deliveryIndex := Function.update s.deliveryIndex id .empty })
  | .getDelivery id => (s.deliveries id, s)
  | .newestDeliveryIds webhookId status stop =>
    (match status with
    | none => (s.deliveryIndex webhookId).zrevrange 0 stop
    | some status => (s.statusIndex webhookId status).zrevrange 0 stop, s)
  | .mgetDeliveries ids => (ids.map s.deliveries, s)
  | .insertDelivery record score => ((), { s with
      deliveries := Function.update s.deliveries record.id (some record)
      deliveryIndex := Function.update s.deliveryIndex record.webhook_id
        (queueIndexWrite (s.deliveryIndex record.webhook_id) score record.id)
      statusIndex := Function.update s.statusIndex record.webhook_id
        (Function.update (s.statusIndex record.webhook_id) record.status
          (queueIndexWrite (s.statusIndex record.webhook_id record.status) score record.id)) })
  | .updateDelivery id existing patch score => ((), { s with
      deliveries := Function.update s.deliveries id (some (existing.patched patch))
      statusIndex := Function.update s.statusIndex existing.webhook_id
        (moveStatus (s.statusIndex existing.webhook_id) id existing patch score) })
  | .expireDelivery _ => ((), s)
  | .scheduleRetry id score => ((), { s with retries := s.retries.zadd score id })
  | .popDueRetries now max =>
    (s.retries.zrangebyscore now max,
      { s with retries := s.retries.zremAll (s.retries.zrangebyscore now max) })
  | .claimDelivery webhookId eventId =>
    (!s.delivered (webhookId, eventId),
      { s with delivered := Function.update s.delivered (webhookId, eventId) true })
  | .lpushDeadLetter entry => ((), { s with deadLetter := entry :: s.deadLetter })
  | .ltrimDeadLetter keep => ((), { s with deadLetter := s.deadLetter.take keep })
  | .persistMetrics webhookId success attempts latencyMs => ((), { s with
      aggregate := s.aggregate.add success attempts latencyMs
      perWebhook := Function.update s.perWebhook webhookId
        ((s.perWebhook webhookId).add success attempts latencyMs) })
  | .cachedWebhook id =>
    match (s.processes caller.proc).webhookCache id with
    | none => (none, s)
    | some entry =>
      if x.now < entry.expiresAt then (some entry.value, s)
      else (none, s.onProcess caller.proc fun p =>
        { p with webhookCache := Function.update p.webhookCache id none })
  | .cacheWebhook webhook => ((), s.onProcess caller.proc fun p =>
      { p with
        webhookCache := Function.update p.webhookCache webhook.id
          (some ⟨webhook, x.now + WEBHOOK_CACHE_TTL_MS⟩) })
  | .recordDeliveryStart deliveryId webhookId => ((), s.onProcess caller.proc fun p =>
      { p with
        inFlight := p.inFlight.sadd deliveryId
        deliveries := Function.update p.deliveries webhookId
          (some ((p.deliveries webhookId).getD {})) })
  | .recordDeliveryEnd deliveryId webhookId success attempts latencyMs =>
    ((), s.onProcess caller.proc fun p =>
      { p with
        inFlight := p.inFlight.srem deliveryId
        deliveries := Function.update p.deliveries webhookId
          (some (((p.deliveries webhookId).getD {}).add success attempts latencyMs))
        aggregate := p.aggregate.add success attempts latencyMs })
  | .assertPublicTarget url =>
    match assertPublicTarget P url x.lookup with
    | .error e => (.error e, s.log caller (.refused url))
    | .ok (target, addresses) => (.ok target, s.log caller (.passed url addresses))
  | .post request =>
    match connectAddress P request.url x.connect with
    | .error e => (.error e, s.log caller (.posted request none))
    | .ok address => (x.answer, s.log caller (.posted request (some address)))

/-- The steps that are not Redis commands, and fail, if at all, in their own way. -/
def Op.isLocal : Op → Bool
  | .now | .random | .randomUUID | .randomBytes _ | .cachedWebhook _ | .cacheWebhook _
  | .recordDeliveryStart .. | .recordDeliveryEnd .. | .assertPublicTarget _ | .post _ => true
  | _ => false

/-- The world, with the failures of Redis. -/
def machine (P : Platform) : Machine sig Caller Env Store where
  exec caller op x s :=
    if op.isLocal then (.ok (s.exec P caller x op).1, (s.exec P caller x op).2)
    else match x.fault with
      | .none => (.ok (s.exec P caller x op).1, (s.exec P caller x op).2)
      | .before => (.error "Redis command failed", s)
      | .after => (.error "Redis command failed", (s.exec P caller x op).2)

/-- A piece of the service. -/
abbrev Code := Throws sig Err

/-- One step. -/
def redis (op : Op) : Code op.Ret := (Prog.call (S := sig) op : Prog sig (Except Err op.Ret))

/-- One step whose failure is only logged. -/
def unchecked (op : Op) : Code Unit :=
  tryCatch (do let _ ← redis op; return ()) fun _ => return ()

/-- The answer of a step that does not fail. -/
theorem machine_exec_ok (P : Platform) {caller : Caller} {op : Op} {x : Env} (s : Store)
    (h : x.fault = .none) :
    (machine P).exec caller op x s = (.ok (s.exec P caller x op).1, (s.exec P caller x op).2) := by
  simp only [machine, h]
  split <;> rfl

/-- A step is taken, or it is a command that fails before Redis executes it. -/
theorem machine_store (P : Platform) (caller : Caller) (op : Op) (x : Env) (s : Store) :
    ((machine P).exec caller op x s).2 =
      if x.fault = .before ∧ op.isLocal = false then s else (s.exec P caller x op).2 := by
  cases hlocal : op.isLocal <;> cases hfault : x.fault <;> simp [machine, hlocal, hfault]

/-- What holds whether a step is taken or not holds after it. -/
theorem machine_store_of {P : Platform} {caller : Caller} {op : Op} {x : Env} {s : Store}
    {Q : Store → Prop} (hs : Q s) (hexec : Q (s.exec P caller x op).2) :
    Q ((machine P).exec caller op x s).2 := by
  rw [machine_store]
  split
  · exact hs
  · exact hexec

/-- Nothing interferes, and no command fails. -/
def calm : Contract sig Env Store := .alone fun _ x _ => x.fault = .none

section Calm

variable {P : Platform} {caller : Caller} {I : Store → Prop}

/-- One step of a run alone in which no command fails. -/
theorem satE_faultless {ok : sig.Op → Env → Store → Prop} {op : Op} {Q : op.Ret → Store → Prop}
    {E : Err → Store → Prop} (hok : ∀ x s, ok op x s → x.fault = .none)
    (h : ∀ x s, ok op x s → I s → Q (s.exec P caller x op).1 (s.exec P caller x op).2) :
    SatE (machine P) caller (.alone ok) (redis op) I Q E := by
  intro x s hs hx
  rw [machine_exec_ok P s (hok x s hx)]
  exact ⟨trivial, Q (s.exec P caller x op).1, fun _ _ hq he => he ▸ hq, h x s hx hs, fun _ hq => hq⟩

/-- One step of a calm run. -/
theorem satE_calm {op : Op} {Q : op.Ret → Store → Prop} {E : Err → Store → Prop}
    (h : ∀ x s, I s → Q (s.exec P caller x op).1 (s.exec P caller x op).2) :
    SatE (machine P) caller calm (redis op) I Q E :=
  satE_faultless (fun _ _ hx => hx) fun x s _ => h x s

/-- One step of a calm run whose failure would only be logged. -/
theorem satE_calm_unchecked {op : Op} {Q : Store → Prop} {E : Err → Store → Prop}
    (h : ∀ x s, I s → Q (s.exec P caller x op).2) :
    SatE (machine P) caller calm (unchecked op) I (fun _ => Q) E := by
  refine SatE.tryCatch (E := fun _ _ => False) ?_ fun e => SatE.pure fun _ hf => hf.elim
  exact SatE.bind (satE_calm (Q := fun _ => Q) h) fun _ => SatE.pure fun _ hq => hq

end Calm

/-- One step of a run alone in which commands may fail. -/
theorem satE_alone {P : Platform} {caller : Caller} {ok : sig.Op → Env → Store → Prop} {op : Op}
    {I : Store → Prop} {Q : op.Ret → Store → Prop} {E : Err → Store → Prop}
    (h : ∀ x s, ok op x s → I s → Q (s.exec P caller x op).1 (s.exec P caller x op).2)
    (hfail : op.isLocal = false → ∀ e x s, ok op x s → I s → E e s ∧ E e (s.exec P caller x op).2) :
    SatE (machine P) caller (.alone ok) (redis op) I Q E := by
  intro x s hs hx
  have hok := h x s hx hs
  simp only [machine]
  split
  · exact ⟨trivial, _, fun _ _ hq he => he ▸ hq, hok, fun _ hq => hq⟩
  · rename_i hlocal
    have hfails := fun e => hfail (by simpa using hlocal) e x s hx hs
    split
    · exact ⟨trivial, _, fun _ _ hq he => he ▸ hq, hok, fun _ hq => hq⟩
    · exact ⟨trivial, _, fun _ _ hq he => he ▸ hq, (hfails _).1, fun _ hq => hq⟩
    · exact ⟨trivial, _, fun _ _ hq he => he ▸ hq, (hfails _).2, fun _ hq => hq⟩

/-- Nothing interferes, and anything may fail. -/
def solo : Contract sig Env Store := .alone fun _ _ _ => True

section Solo

variable {P : Platform} {caller : Caller} {op : Op} {I : Store → Prop} {Q : op.Ret → Store → Prop}

/-- One step of a run alone. -/
theorem satE_solo {E : Err → Store → Prop}
    (h : ∀ x s, I s → Q (s.exec P caller x op).1 (s.exec P caller x op).2)
    (hfail : ∀ e x s, I s → E e s ∧ E e (s.exec P caller x op).2) :
    SatE (machine P) caller solo (redis op) I Q E :=
  satE_alone (fun x s _ => h x s) fun _ e x s _ => hfail e x s

/-- One step of a run alone that is no Redis command. -/
theorem satE_solo_local {E : Err → Store → Prop} (hlocal : op.isLocal)
    (h : ∀ x s, I s → Q (s.exec P caller x op).1 (s.exec P caller x op).2) :
    SatE (machine P) caller solo (redis op) I Q E :=
  satE_alone (fun x s _ => h x s) fun hnot => absurd hlocal (by simp [hnot])

end Solo

/-! ## 3. What one step changes -/

/-- The rounds that have been made for a delivery: requests and refusals. -/
def Store.rounds (s : Store) (deliveryId : String) : ℕ :=
  s.traffic.countP fun t => t.1.delivery = some deliveryId &&
    match t.2 with
    | .passed .. => false
    | _ => true

end SmartDrop.Webhooks
