/-
# Webhooks and deliveries

The records of `repositories/webhookRepository.js` and `repositories/deliveryRepository.js`, the
patches that are spread over them, and the event types of `services/webhookEvents.js`.  Times
are milliseconds.  Records are typed as the two modules write them; a field that is patched is
an option whose `none` stands for "not in the patch".
-/
import SmartDrop.Lib.Json
import SmartDrop.Webhooks.Crypto

namespace SmartDrop.Webhooks

open JsonText

/-! ## 1. Events -/

def POOL_EVENTS : List String :=
  ["pool.created", "pool.assets_locked", "pool.assets_unlocked", "pool.rewards_distributed",
    "pool.closed"]

def PRICE_EVENTS : List String := ["price.alert"]

def AIRDROP_EVENTS : List String := ["airdrop.failed"]

def ALL_EVENTS : List String := POOL_EVENTS ++ PRICE_EVENTS ++ AIRDROP_EVENTS

def WILDCARD : String := "*"

def MAX_EXPLICIT_SUBSCRIPTIONS : ℕ := 25

/-- `isKnownEvent`. -/
def isKnownEvent (eventType : String) : Bool := ALL_EVENTS.contains eventType

/-- `isValidSubscription`. -/
def isValidSubscription (events : List String) : Bool :=
  if events.isEmpty then false
  else if events = [WILDCARD] then true
  else if events.contains WILDCARD then false
  else if MAX_EXPLICIT_SUBSCRIPTIONS < events.length then false
  else events.all fun e => e == WILDCARD || ALL_EVENTS.contains e

/-- `matchesSubscription`. -/
def matchesSubscription (subscribedEvents : List String) (eventType : String) : Bool :=
  if subscribedEvents.isEmpty then false
  else if subscribedEvents.contains WILDCARD then true
  else subscribedEvents.contains eventType

theorem matchesSubscription_iff {events : List String} {e : String} :
    matchesSubscription events e ↔ WILDCARD ∈ events ∨ e ∈ events := by
  rw [matchesSubscription]
  split
  · rename_i h
    simp [List.isEmpty_iff.mp h]
  · split
    · rename_i h
      simp [List.contains_iff_mem.mp h]
    · rename_i h
      simpa using fun hw => absurd (List.contains_iff_mem.mpr hw) h

/-! ## 2. Webhooks -/

/-- The filters of a webhook. -/
structure Filters where
  asset : Option String := none
  pool_id : Option String := none
  event_type : Option String := none
deriving DecidableEq

/-- A stored webhook; its secret is encrypted, or a legacy plaintext. -/
structure WebhookRecord where
  id : String
  url : String
  events : List String
  secret : String
  active : Bool
  description : Option String
  filters : Option Filters
  owner_ip : Option String
  created_at : ℕ
  updated_at : ℕ
deriving DecidableEq

/-- A webhook as the repository returns it. -/
structure Webhook where
  id : String
  url : String
  events : List String
  secret : Option String
  active : Bool
  description : Option String
  filters : Option Filters
  created_at : ℕ
  updated_at : ℕ
deriving DecidableEq

/-- `normalize`. -/
def normalize (P : Platform) (config : Config) (record : WebhookRecord) : Webhook where
  id := record.id
  url := record.url
  events := record.events
  secret := decryptRecordSecret P config record.secret
  active := record.active
  description := record.description.filter (· ≠ "")
  filters := record.filters
  created_at := record.created_at
  updated_at := record.updated_at

/-- What `create` is given. -/
structure NewWebhook where
  url : String
  events : List String
  secret : String
  description : Option String := none
  filters : Option Filters := none
  owner_ip : Option String := none

/-- What `update` is given. -/
structure WebhookPatch where
  url : Option String := none
  events : Option (List String) := none
  secret : Option String := none
  active : Option Bool := none
  description : Option String := none
  filters : Option Filters := none

/-! ## 3. Deliveries -/

/-- The statuses of a delivery. -/
inductive Status where
  | pending
  | success
  | failed
deriving DecidableEq

/-- A stored delivery. -/
structure Delivery where
  id : String
  webhook_id : String
  event_id : String
  event_type : String
  status : Status
  attempts : ℕ
  last_error : Option String
  last_attempt_at : Option ℕ
  next_retry_at : Option ℕ
  response_status : Option ℕ
  trace_id : Option String
  request_id : Option String
  created_at : ℕ
  payload : Option Json
  sequence : Option ℕ

/-- What `deliveryRepository.create` is given. -/
structure NewDelivery where
  webhook_id : String
  event_id : String
  event_type : String
  trace_id : Option String := none
  request_id : Option String := none

/-- The fields that a patch of a delivery may set. -/
structure DeliveryPatch where
  status : Option Status := none
  attempts : Option ℕ := none
  last_error : Option (Option String) := none
  last_attempt_at : Option (Option ℕ) := none
  next_retry_at : Option (Option ℕ) := none
  response_status : Option (Option ℕ) := none
  trace_id : Option String := none
  payload : Option Json := none
  sequence : Option (Option ℕ) := none

/-- `{ ...existing, ...patch, id: existing.id }`. -/
def Delivery.patched (existing : Delivery) (patch : DeliveryPatch) : Delivery :=
  { existing with
    status := patch.status.getD existing.status
    attempts := patch.attempts.getD existing.attempts
    last_error := patch.last_error.getD existing.last_error
    last_attempt_at := patch.last_attempt_at.getD existing.last_attempt_at
    next_retry_at := patch.next_retry_at.getD existing.next_retry_at
    response_status := patch.response_status.getD existing.response_status
    trace_id := patch.trace_id <|> existing.trace_id
    payload := patch.payload <|> existing.payload
    sequence := patch.sequence.getD existing.sequence }

/-- An entry of the dead letter queue. -/
structure DeadLetter where
  delivery_id : String
  webhook_id : String
  event_type : String
  event_id : String
  error : String
  response_status : Option ℕ
  attempts : ℕ
  failed_at : ℕ
  trace_id : String
  request_id : Option String

end SmartDrop.Webhooks
