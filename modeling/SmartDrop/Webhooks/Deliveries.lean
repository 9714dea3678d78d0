/-
# The delivery repository

`repositories/deliveryRepository.js`, with `services/dataRetention.js` as far as it is called
here.  `create` and `update` write the record and its index entries in one transaction; `update`
has read the record before, so what it writes can be older than what it replaces.  The retention
policy only sets a time to live, and its failures are caught.
-/
import SmartDrop.Webhooks.Repository

namespace SmartDrop.Webhooks

open Conc Redis

variable (P : Platform) (config : Config)

namespace deliveryRepository

/-- `generateId`. -/
def generateId : Code String := return "dlv_" ++ (← redis .randomUUID)

/-- `generateTraceId`. -/
def generateTraceId : Code String := return "trace_" ++ (← redis .randomUUID)

/-- `applyDeliveryRetention`. -/
def applyDeliveryRetention (deliveryId : String) : Code Unit :=
  unchecked (.expireDelivery deliveryId)

/-- The record that `create` stores. -/
def newRecord (d : NewDelivery) (id traceId : String) (now : ℕ) : Delivery where
  id
  webhook_id := d.webhook_id
  event_id := d.event_id
  event_type := d.event_type
  status := .pending
  attempts := 0
  last_error := none
  last_attempt_at := none
  next_retry_at := none
  response_status := none
  trace_id := some traceId
  request_id := d.request_id.filter (· ≠ "")
  created_at := now
  payload := none
  sequence := none

/-- `create` up to the id of the new delivery. -/
def prepare (d : NewDelivery) : Code String := do
  if d.webhook_id = "" then throw "deliveryRepository.create: webhook_id is required"
  else match ← webhookRepository.findById P config d.webhook_id with
    | none =>
      throw ("deliveryRepository.create: webhook '" ++ d.webhook_id ++ "' does not exist")
    | some _ => generateId

/-- `create` from the id of the new delivery on, up to its transaction. -/
def insertAs (d : NewDelivery) (id : String) : Code Delivery := do
  let now ← redis .now
  let traceId ← match d.trace_id.filter (· ≠ "") with
    | some traceId => pure traceId
    | none => generateTraceId
  redis (.insertDelivery (newRecord d id traceId now) now)
  return newRecord d id traceId now

/-- `create`. -/
def create (d : NewDelivery) : Code Delivery := do
  let id ← prepare P config d
  let record ← insertAs d id
  applyDeliveryRetention record.id
  return record

/-- `findById`: a failed read is a missing delivery. -/
def findById (id : String) : Code (Option Delivery) :=
  tryCatch (redis (.getDelivery id)) fun _ => return none

/-- `Date.parse(existing.created_at) || Date.now()`. -/
def indexScore (existing : Delivery) : Code ℕ :=
  if existing.created_at ≠ 0 then return existing.created_at else redis .now

/-- `update`. -/
def update (id : String) (patch : DeliveryPatch) : Code (Option Delivery) := do
  match ← redis (.getDelivery id) with
  | none => return none
  | some existing =>
    let score ← indexScore existing
    redis (.updateDelivery id existing patch score)
    applyDeliveryRetention id
    return some (existing.patched patch)

/-- `listByWebhook`, for a limit that is a whole number: a failed read is an empty list. -/
def listByWebhook (webhookId : String) (limit : ℕ) (status : Option Status) : Code (List Delivery) :=
  tryCatch (do
    if limit = 0 then return []
    let ids ← redis (.newestDeliveryIds webhookId status (limit - 1))
    if ids.isEmpty then return []
    let records ← redis (.mgetDeliveries ids)
    return records.filterMap id) fun _ => return []

/-- `scheduleRetry`. -/
def scheduleRetry (deliveryId : String) (nextRetryAtMs : ℚ) : Code Unit :=
  redis (.scheduleRetry deliveryId nextRetryAtMs)

/-- `popDueRetries`. -/
def popDueRetries (nowMs max : ℕ) : Code (List String) := redis (.popDueRetries nowMs max)

end deliveryRepository

end SmartDrop.Webhooks
