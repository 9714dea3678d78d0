/-
# Replies under an idempotency key

`services/idempotency.js`, the middleware of `POST /webhooks` and `POST /airdrops`.  A request
that carries an `Idempotency-Key` is answered with the stored reply if there is one.  Otherwise
the route's handler runs, and a success is stored under the key for a day; the reply does not
wait for the write.

What the handler answers is given by the environment, as are the clock and the failures of
Redis, which the module swallows.
-/
import SmartDrop.Lib.Json
import SmartDrop.Lib.Run
import SmartDrop.Lib.RedisTypes

namespace SmartDrop.Idempotency

open Conc JsonText Redis

/-! ## 1. Requests and replies -/

/-- The routes that use the middleware, as its `resourceType` names them. -/
inductive ResourceType where
  | webhook
  | airdrop
deriving DecidableEq

/-- A request: who sends it (the API key or the client), to which route, and its
`Idempotency-Key` header. -/
structure Request where
  caller : String
  resourceType : ResourceType
  idempotencyKey : Option String
deriving DecidableEq

/-- A status code and a body. -/
structure Reply where
  statusCode : ℕ
  body : Json

/-- The codes that the middleware takes as a success. -/
def Reply.isSuccess (r : Reply) : Bool := 200 ≤ r.statusCode && r.statusCode < 300

/-- What is stored under a key. -/
structure Record where
  statusCode : ℕ
  body : Json
  timestamp : String

/-- The reply that a record is replayed as. -/
def Record.reply (r : Record) : Reply := ⟨r.statusCode, r.body⟩

/-! ## 2. Redis, the handler and the client -/

/-- A record with the request that stored it, which Redis does not keep. -/
structure Entry (τ : Type) where
  author : τ
  record : Record

/-- The records, and what has become of each request: the reply that the client got, whether
the lookup found nothing, what the handler answered, whether that was stored. -/
structure Store (τ : Type) where
  records : String → Option (Timed (Entry τ))
  sent : τ → Option Reply
  missed : τ → Bool
  made : τ → Option Reply
  stored : τ → Bool

/-- The message of a failed command. -/
abbrev Err := String

/-- The atomic steps. -/
inductive Op where
  | now
  | get (key : String)
  | setex (key : String) (ttlSeconds : ℕ) (record : Record)
  | next (resourceType : ResourceType)
  | json (reply : Reply)

/-- Their replies. -/
abbrev Op.Ret : Op → Type
  | .now => ℕ
  | .get _ => Except Err (Option Record)
  | .setex .. => Except Err Unit
  | .next _ => Reply
  | .json _ => Unit

abbrev sig : Sig := ⟨Op, Op.Ret⟩

/-- What the environment answers at a step: the time, whether Redis fails, and what the
handler replies. -/
structure Input where
  time : ℕ
  fails : Bool
  reply : Reply

/-- What a step answers and does. -/
def Store.exec {τ : Type} [DecidableEq τ] (s : Store τ) (i : τ) (x : Input) :
    (op : Op) → op.Ret × Store τ
  | .now => (x.time, s)
  | .get key =>
    if x.fails then (.error "Redis command failed", { s with
      missed := Function.update s.missed i true })
    else match Timed.readAt x.time (s.records key) with
      | none => (.ok none, { s with missed := Function.update s.missed i true })
      | some e => (.ok (some e.record), s)
  | .setex key ttlSeconds record =>
    if x.fails then (.error "Redis command failed", s)
    else (.ok (), { s with
      records := Function.update s.records key
        (some ⟨⟨i, record⟩, some (x.time + ttlSeconds * 1000)⟩)
      stored := Function.update s.stored i true })
  | .next _ => (x.reply, { s with made := Function.update s.made i (some x.reply) })
  | .json reply => ((), { s with sent := Function.update s.sent i (some reply) })

/-- The machine of the requests `τ`. -/
def machine (τ : Type) [DecidableEq τ] : Machine sig τ Input (Store τ) where
  exec i op x s := s.exec i x op

/-- A piece of the code. -/
abbrev Code := Prog sig

/-- One step. -/
def step (op : Op) : Code op.Ret := Prog.call (S := sig) op

/-! ## 3. The middleware -/

/-- `IDEMPOTENCY_KEY_PREFIX`. -/
def IDEMPOTENCY_KEY_PREFIX : String := "idempotency:"

/-- `IDEMPOTENCY_TTL_SECONDS`. -/
def IDEMPOTENCY_TTL_SECONDS : ℕ := 24 * 60 * 60

/-- `getIdempotencyResponse`: a failed command is a miss. -/
def getIdempotencyResponse (key : String) : Code (Option Record) := do
  if key = "" then return none
  match ← step (.get (IDEMPOTENCY_KEY_PREFIX ++ key)) with
  | .ok cached => return cached
  | .error _ => return none

/-- `storeIdempotencyResponse` up to its first `await`; what it returns is the rest of it. -/
def storeIdempotencyResponse (toISOString : ℕ → String) (key : String) (reply : Reply) :
    Code (Code Unit) := do
  if key = "" then return (pure ())
  let timestamp ← step .now
  return do
    let _ ← step (.setex (IDEMPOTENCY_KEY_PREFIX ++ key) IDEMPOTENCY_TTL_SECONDS
      ⟨reply.statusCode, reply.body, toISOString timestamp⟩)
    return ()

/-- The `res.json` that the middleware puts in place: the reply is sent without waiting for
the record to be written. -/
def resJson (toISOString : ℕ → String) (idempotencyKey : String) (reply : Reply) :
    Code Unit := do
  let pending ← if idempotencyKey ≠ "" && reply.isSuccess then
      storeIdempotencyResponse toISOString idempotencyKey reply
    else pure (pure ())
  step (.json reply)
  pending

/-- The handler of the route, and its reply. -/
def handle (toISOString : ℕ → String) (resourceType : ResourceType) (idempotencyKey : String) :
    Code Unit := do
  let reply ← step (.next resourceType)
  resJson toISOString idempotencyKey reply

/-- `idempotencyMiddleware` and the route behind it.  A header is a text, and an empty one counts
as none, so neither of the two checks on its form ever refuses a request. -/
def idempotencyMiddleware (toISOString : ℕ → String) (req : Request) : Code Unit := do
  let idempotencyKey := req.idempotencyKey.getD ""
  if idempotencyKey = "" then handle toISOString req.resourceType idempotencyKey
  else
    match ← getIdempotencyResponse idempotencyKey with
    | some cached => step (.json cached.reply)
    | none => handle toISOString req.resourceType idempotencyKey

/-! ## 4. Any number of requests -/

/-- The records, and what each request has still to do. -/
abbrev Requests (τ : Type) := Pool sig Unit τ (Store τ)

/-- Nothing is stored, and no request has begun. -/
def Store.init {τ : Type} : Store τ :=
  ⟨fun _ => none, fun _ => none, fun _ => false, fun _ => none, fun _ => false⟩

/-- Every request is about to begin. -/
def begin {τ : Type} (toISOString : ℕ → String) (requests : τ → Request) : Requests τ :=
  ⟨.init, fun i => idempotencyMiddleware toISOString (requests i)⟩

end SmartDrop.Idempotency
