/-
# Dispatching an event

`dispatch` of `services/webhookDispatcher.js`.  It claims the event id with `SET NX`, lists the
webhooks that subscribe to the event and pass its filters, draws a sequence number, and delivers
to them batch by batch, the deliveries of one batch at the same time.

The two keys that only `dispatch` uses have commands of their own beside those of the webhook
service.  A dispatcher is first the program that ends with the notices to deliver (`targets`),
and then one program for each (`deliverToWebhook`).  A delivery of a later batch waits for the
earlier batches (`Dispatchers.mayRun`); the limit of deliveries in flight in one process, which
only makes deliveries wait longer, is left out.
-/
import SmartDrop.Lib.JsText
import SmartDrop.Lib.Lift
import SmartDrop.Webhooks.Dispatcher
import SmartDrop.Webhooks.Subscriptions

namespace SmartDrop.Webhooks

open Conc JsonText Redis

/-! ## 1. Filters -/

/-- `toUpperCase()` of a character, as far as what comes out are letters of ASCII; a character of
which that is not so is left as it is. -/
def upperLetters (c : Char) : List Char :=
  match c with
  | 'ß' => ['S', 'S']
  | 'ı' => ['I']
  | 'ſ' => ['S']
  | 'ﬀ' => ['F', 'F']
  | 'ﬁ' => ['F', 'I']
  | 'ﬂ' => ['F', 'L']
  | 'ﬃ' => ['F', 'F', 'I']
  | 'ﬄ' => ['F', 'F', 'L']
  | 'ﬅ' => ['S', 'T']
  | 'ﬆ' => ['S', 'T']
  | c => [JsText.upper c]

/-- `text.toUpperCase()`, to be compared with an asset code. -/
def toUpperCase (text : String) : String := String.ofList (text.toList.flatMap upperLetters)

/-- An event type that a filter names, or whose category it names. -/
def passesEventType (filter eventType : String) : Bool :=
  filter == eventType ||
    (".*".toList.isSuffixOf filter.toList && filter.toList.dropLast.isPrefixOf eventType.toList)

/-- `matchesWebhookFilters`. -/
def matchesWebhookFilters (filters : Option Filters) (data : Option Json) (eventType : String) :
    Bool :=
  match filters, data with
  | none, _ => true
  | some filters, some (.obj fields) => passes filters (.obj fields)
  | some filters, some (.arr elements) => passes filters (.arr elements)
  | some _, _ => false
where
  passes (filters : Filters) (data : Json) : Bool :=
    (match filters.asset with
      | none => true
      | some asset => match data.get? "asset" with
        | some (.str text) => toUpperCase text == asset
        | _ => false) &&
    (match filters.pool_id with
      | none => true
      | some poolId => Json.isStr (data.get? "pool_id") poolId) &&
    (match filters.event_type with
      | none => true
      | some filter => passesEventType filter eventType)

/-! ## 2. The keys of the dispatcher -/

/-- What `dispatch` is given; an `event_id` that is no text is `none`. -/
structure Event where
  event_type : String
  event_id : Option String
  data : Option Json

/-- `webhook:dispatched:<event id>` and `seq:<resource id>`. -/
structure DispatchStore where
  dispatched : String → Bool
  sequences : String → ℕ

/-- `SET NX` of the first key, and `INCR` of the second. -/
inductive DispatchOp where
  | claimEvent (eventId : String)
  | incrSequence (resourceId : String)

/-- What they answer. -/
@[reducible] def DispatchOp.Ret : DispatchOp → Type
  | .claimEvent _ => Bool
  | .incrSequence _ => ℕ

/-- The signature: a command may fail. -/
def dispatchSig : Sig where
  Op := DispatchOp
  Rep op := Except Err op.Ret

/-- What a command answers and does. -/
def DispatchStore.exec (s : DispatchStore) : (op : DispatchOp) → op.Ret × DispatchStore
  | .claimEvent eventId =>
    (!s.dispatched eventId, { s with dispatched := Function.update s.dispatched eventId true })
  | .incrSequence resourceId =>
    (s.sequences resourceId + 1,
      { s with sequences := Function.update s.sequences resourceId (s.sequences resourceId + 1) })

/-- Redis, with its failures. -/
def dispatchMachine : Machine dispatchSig Caller Env DispatchStore where
  exec _ op x s :=
    match x.fault with
    | .none => (.ok (s.exec op).1, (s.exec op).2)
    | .before => (.error "Redis command failed", s)
    | .after => (.error "Redis command failed", (s.exec op).2)

/-- A piece of `dispatch`. -/
abbrev DispatchCode := Throws (sig.sum dispatchSig) Err

/-- A piece of the webhook service. -/
def service {α : Type} (code : Code α) : DispatchCode α := Throws.inl code

/-- One command on the keys of the dispatcher. -/
def dispatchRedis (op : DispatchOp) : DispatchCode op.Ret :=
  (Prog.call (S := sig.sum dispatchSig) (.inr op) :
    Prog (sig.sum dispatchSig) (Except Err op.Ret))

/-! ## 3. The head of a dispatch -/

namespace dispatcher

variable (P : Platform) (config : Config)

/-- `data?.pool_id || data?.asset || eventType`, as part of a key. -/
def resourceId (e : Event) : String :=
  let field (key : String) := e.data.bind fun data => data.get? key
  match field "pool_id", field "asset" with
  | poolId, asset =>
    if Json.truthy poolId then fieldText poolId
    else if Json.truthy asset then fieldText asset
    else e.event_type

/-- The payload of every delivery of an event. -/
def payloadFor (e : Event) (eventId : String) (sequence occurredAt : ℕ) : Json :=
  .obj [("event", .str e.event_type), ("event_id", .str eventId),
    ("occurred_at", .str (P.toISOString occurredAt)), ("sequence", Json.ofNat sequence),
    ("data", if Json.truthy e.data then e.data.getD (.obj []) else .obj [])]

/-- The request id of what is run by `withDeliveryTrace`. -/
def traced (requestId : Option String) (traceId : String) : String :=
  (requestId.filter fun id => id ≠ "" ∧ id ≠ "system").getD traceId

/-- `dispatch`, up to the deliveries: what is to be delivered to whom. -/
def targets (requestId : Option String) (e : Event) : DispatchCode (List Notice) := do
  if !isKnownEvent e.event_type then return []
  match e.event_id.filter (· ≠ "") with
  | none => throw "event_id is required to dispatch a webhook event"
  | some eventId =>
    let traceId ← service deliveryRepository.generateTraceId
    if ← dispatchRedis (.claimEvent eventId) then
      let active ← service (webhookRepository.listActiveForEvent P config e.event_type
        matchesSubscription)
      let targets := active.filter fun w => matchesWebhookFilters w.filters e.data e.event_type
      if targets.isEmpty then return []
      let sequence ← dispatchRedis (.incrSequence (resourceId e))
      let occurredAt ← service (redis .now)
      return targets.map fun webhook => {
        webhook
        eventType := e.event_type
        eventId
        payload := payloadFor P e eventId sequence occurredAt
        sequence := some sequence
        requestId := some (traced requestId traceId) }
    else return []

/-- What `dispatch` reports of a delivery. -/
structure DispatchResult where
  webhook_id : String
  delivery : Option Delivery
  error : Option Err

/-- The report of a delivery that has ended. -/
def report (webhookId : String) : Except Err (Option Delivery) → DispatchResult
  | .ok delivery => ⟨webhookId, delivery, none⟩
  | .error message => ⟨webhookId, none, some message⟩

/-- `sendTest`. -/
def sendTest (requestId : Option String) (webhookId : String) : Code (Option Delivery) := do
  match ← webhookRepository.findById P config webhookId with
  | none => return none
  | some webhook =>
    match ← redis (.assertPublicTarget webhook.url) with
    | .error err => throw err.message
    | .ok _ =>
      let now ← redis .now
      let occurredAt ← redis .now
      let eventId := "evt_test_" ++ String.ofList (Nat.toDigits 10 now)
      deliverToWebhook P config {
        webhook
        eventType := "pool.assets_locked"
        eventId
        payload := .obj [("event", .str "pool.assets_locked"), ("event_id", .str eventId),
          ("occurred_at", .str (P.toISOString occurredAt)),
          ("data", .obj [("test", .bool true),
            ("message", .str "This is a test delivery from SmartDrop")])]
        sequence := none
        requestId }

end dispatcher

/-! ## 4. Dispatchers at work

Any number of dispatches and of other calls of the service are under way, on any processes. -/

/-- The calls that are made beside the dispatches. -/
inductive OtherCall where
  | webhook (call : RepoCall)
  | test (requestId : Option String) (webhookId : String)
  | retries

/-- The program of a call, without its result. -/
def OtherCall.code (P : Platform) (config : Config) : OtherCall → Code Unit
  | .webhook call => call.code P config
  | .test requestId webhookId => do
    let _ ← dispatcher.sendTest P config requestId webhookId
  | .retries => retryWorker.tick P config

/-- What takes steps: the head of the dispatch `i`, its `n`-th delivery, or another call. -/
inductive Place (δ β : Type) where
  | head (i : δ)
  | delivery (i : δ) (n : ℕ)
  | other (j : β)
deriving DecidableEq

/-- `DISPATCH_CONCURRENCY` and `ORDERED_DELIVERY`. -/
structure Batching where
  concurrency : ℕ
  ordered : Bool

/-- The store, with the webhook and event of every delivery record created so far, and what each
place has still to do.  A delivery is `none` until the head of its dispatch has returned. -/
structure Dispatchers (δ β : Type) where
  store : (Store × List (String × String)) × DispatchStore
  head : δ → Prog (sig.sum dispatchSig) (Except Err (List dispatcher.Notice))
  delivery : δ → ℕ → Option (Prog (sig.sum dispatchSig) (Except Err (Option Delivery)))
  other : β → Prog (sig.sum dispatchSig) (Except Err Unit)

namespace Dispatchers

variable {δ β : Type}

/-- The webhook and the event of a record that is created. -/
def noteCreated : Op → Env → Store → List (String × String) → List (String × String)
  | .insertDelivery record _, x, _, created =>
    if x.fault = .before then created else created ++ [(record.webhook_id, record.event_id)]
  | _, _, _, created => created

/-- The world of the dispatchers; `who` is the process a place runs in. -/
def world (P : Platform) (who : Place δ β → Caller) :
    Machine (sig.sum dispatchSig) (Place δ β) Env ((Store × List (String × String)) × DispatchStore) :=
  (((machine P).comap who).observe fun _ op x s h => noteCreated op x s h).sum
    (dispatchMachine.comap who)

/-- How many deliveries end before the `n`-th one starts: those of the earlier batches, or all
earlier ones. -/
def Batching.before (b : Batching) (n : ℕ) : ℕ :=
  if b.ordered then n else n / b.concurrency * b.concurrency

/-- A delivery waits for those before it. -/
def mayRun (b : Batching) (c : Dispatchers δ β) (i : δ) (n : ℕ) : Prop :=
  ∀ m < Batching.before b n, ((c.delivery i m).bind Prog.result?).isSome

instance (b : Batching) (c : Dispatchers δ β) (i : δ) (n : ℕ) : Decidable (c.mayRun b i n) :=
  Nat.decidableBallLT _ _

/-- The `n`-th delivery of a dispatch, once its head has returned. -/
def spawn (P : Platform) (config : Config)
    (head : Prog (sig.sum dispatchSig) (Except Err (List dispatcher.Notice))) (n : ℕ) :
    Option (Prog (sig.sum dispatchSig) (Except Err (Option Delivery))) :=
  match head.result? with
  | some (.ok notices) => notices[n]?.map fun notice =>
    (service (dispatcher.deliverToWebhook P config notice)).prog
  | _ => none

variable [DecidableEq δ] [DecidableEq β]

/-- One place issues its next command. -/
def step (P : Platform) (config : Config) (b : Batching) (who : Place δ β → Caller)
    (c : Dispatchers δ β) (l : Place δ β × Env) : Dispatchers δ β :=
  match l.1 with
  | .head i =>
    let m := (c.head i).act (world P who) l.1 l.2 c.store
    { c with
      store := m.2
      head := Function.update c.head i m.1
      delivery := Function.update c.delivery i fun n =>
        (c.delivery i n).or (spawn P config m.1 n) }
  | .delivery i n =>
    match c.delivery i n with
    | none => c
    | some code =>
      if c.mayRun b i n then
        let m := code.act (world P who) l.1 l.2 c.store
        { c with
          store := m.2
          delivery := Function.update c.delivery i
            (Function.update (c.delivery i) n (some m.1)) }
      else c
  | .other j =>
    let m := (c.other j).act (world P who) l.1 l.2 c.store
    { c with store := m.2, other := Function.update c.other j m.1 }

/-- The calls begin, from any store. -/
def start (P : Platform) (config : Config) (requestId : δ → Option String) (event : δ → Event)
    (call : β → OtherCall) (s : Store) (d : DispatchStore) : Dispatchers δ β where
  store := ((s, []), d)
  head i := (dispatcher.targets P config (requestId i) (event i)).prog
  delivery _ _ := none
  other j := (service ((call j).code P config)).prog

/-- The webhook and the event of every delivery record that was created, in order. -/
def created (c : Dispatchers δ β) : List (String × String) := c.store.1.2

/-- What a dispatch returns, once its deliveries have ended. -/
def reports (c : Dispatchers δ β) (i : δ) : Option (List dispatcher.DispatchResult) :=
  match (c.head i).result? with
  | some (.ok notices) => notices.zipIdx.mapM fun (notice, n) =>
    ((c.delivery i n).bind Prog.result?).map (dispatcher.report notice.webhook.id)
  | _ => none

end Dispatchers

end SmartDrop.Webhooks
