/-
# The dispatcher and the retry worker

`services/webhookDispatcher.js` and the tick of `jobs/webhookRetryWorker.js`: one attempt at a
delivery from the load of its record to the write of its outcome, the first attempt of a new
delivery, and the attempts at those that are due again.

`getWebhookForAttempt` keeps the promise of a read in its cache while the read is under way; here
the entry appears with the webhook that was read, and a second attempt that would have waited for
the promise can be scheduled after that.
-/
import SmartDrop.Webhooks.Deliveries

namespace SmartDrop.Webhooks

open Conc JsonText Redis deliveryRepository

variable (P : Platform) (config : Config)

namespace dispatcher

def USER_AGENT : String := "SmartDrop-Webhooks/1.0"

/-! ## 1. Parts of an attempt -/

/-- `getWebhookForAttempt`. -/
def getWebhookForAttempt (webhookId : String) : Code (Option Webhook) := do
  match ← redis (.cachedWebhook webhookId) with
  | some webhook => return some webhook
  | none =>
    match ← webhookRepository.findById P config webhookId with
    | none => return none
    | some webhook =>
      redis (.cacheWebhook webhook)
      return some webhook

/-- `backoffMs`. -/
def backoffMs (attemptsCompleted : ℕ) (random : ℚ) : ℚ :=
  let deterministicDelay := config.retryBaseMs * config.retryFactor ^ (attemptsCompleted - 1)
  let half := deterministicDelay / 2
  half + random * half

/-- `shouldRetry`. -/
def shouldRetry (responseStatus : Option ℕ) (networkError : Bool) : Bool :=
  networkError ||
    match responseStatus with
    | none => true
    | some status => (500 ≤ status && status < 600) || status = 408 || status = 429

/-- `buildHeaders`. -/
def buildHeaders (secret : Option String) (body eventType deliveryId : String)
    (requestId : Option String) (sequence : Option ℕ) : Code (List (String × String)) := do
  let now ← redis .now
  let nonce ← redis (.randomBytes 16)
  match sign P now nonce secret body with
  | .error e => throw e
  | .ok signature =>
    return [("Content-Type", "application/json"), ("User-Agent", USER_AGENT),
        ("X-SmartDrop-Event", eventType), ("X-SmartDrop-Delivery", deliveryId),
        ("X-SmartDrop-Signature", signature)] ++
      (match sequence with
        | none => []
        | some n => [("X-SmartDrop-Sequence", String.ofList (Nat.toDigits 10 n))]) ++
      (match requestId.filter (· ≠ "") with
        | none => []
        | some id => [("X-Request-Id", id)])

/-- The payload of an attempt: the stored one, or one made from the record. -/
def payloadOf (delivery : Delivery) : Json :=
  let fallback := Json.obj [("event", .str delivery.event_type), ("event_id", .str delivery.event_id),
    ("delivery_id", .str delivery.id), ("occurred_at", .str (P.toISOString delivery.created_at))]
  if Json.truthy delivery.payload then delivery.payload.getD fallback else fallback

/-- `encryptPayload`, drawing its initialisation vector; what it throws is only logged. -/
def encryptBody (body : String) (secret : Option String) : Code (Option String) := do
  let iv ← redis (.randomBytes 12)
  return (encryptPayload P iv body secret).toOption

/-- What came back of a round. -/
structure Outcome where
  responseStatus : Option ℕ := none
  networkError : Option String := none

/-- The error message that an exception becomes. -/
def networkErrorOf (err : Thrown) : String :=
  if err.code = some "ETIMEDOUT" then "webhook request timeout"
  else if err.message = "" then "network error" else err.message

/-- One round: the guard, and `postOnce` if it lets the URL pass.  The target that the guard
returns is not used. -/
def makeRound (webhook : Webhook) (headers : List (String × String)) (body : String) :
    Code Outcome := do
  match ← redis (.assertPublicTarget webhook.url) with
  | .error err => return { networkError := some (networkErrorOf err) }
  | .ok _ =>
    match ← redis (.post ⟨webhook.url, headers, body, config.timeoutMs⟩) with
    | .error err => return { networkError := some (networkErrorOf err) }
    | .ok status => return { responseStatus := some status }

/-- `recordDeliveryEnd`. -/
def recordDeliveryEnd (deliveryId webhookId : String) (success : Bool) (attempts latencyMs : ℕ) :
    Code Unit := do
  redis (.recordDeliveryEnd deliveryId webhookId success attempts latencyMs)
  unchecked (.persistMetrics webhookId success attempts latencyMs)

/-- A permanently failed delivery goes to the dead letter queue, which is capped; a failure to
do so is only logged. -/
def enqueueDeadLetter (entry : DeadLetter) : Code Unit :=
  tryCatch (do
    redis (.lpushDeadLetter entry)
    redis (.ltrimDeadLetter 10000)) fun _ => return ()

/-! ## 2. The attempt -/

/-- The outcome was a success status. -/
def Outcome.succeeded (o : Outcome) : Bool :=
  match o.responseStatus with
  | none => false
  | some status => 200 ≤ status && status < 300

/-- The error message of an outcome. -/
def Outcome.errorMessage (o : Outcome) : String :=
  match o.networkError.filter (· ≠ "") with
  | some e => e
  | none => "HTTP " ++ match o.responseStatus with
    | none => "null"
    | some status => String.ofList (Nat.toDigits 10 status)

/-- The patch that records an outcome. -/
def outcomePatch (status : Status) (attempts now : ℕ) (next_retry_at : Option ℕ)
    (last_error : Option String) (o : Outcome) : DeliveryPatch where
  status := some status
  attempts := some attempts
  last_attempt_at := some (some now)
  next_retry_at := some next_retry_at
  last_error := some last_error
  response_status := some o.responseStatus

/-- A transient failure: the id is queued before the record is written. -/
def retryLater (deliveryId : String) (delivery : Delivery) (attempts now : ℕ) (o : Outcome) :
    Code (Option Delivery) := do
  let random ← redis .random
  let delayMs := backoffMs config attempts random
  let nextRetryAt ← redis .now
  let scheduledAt ← redis .now
  scheduleRetry delivery.id (scheduledAt + delayMs)
  deliveryRepository.update deliveryId
    (outcomePatch .pending attempts now (some ⌊(nextRetryAt + delayMs : ℚ)⌋₊) (some o.errorMessage) o)

/-- A permanent failure. -/
def giveUp (deliveryId : String) (delivery : Delivery) (webhook : Webhook) (traceId : String)
    (attempts now : ℕ) (o : Outcome) : Code (Option Delivery) := do
  enqueueDeadLetter {
    delivery_id := delivery.id
    webhook_id := webhook.id
    event_type := delivery.event_type
    event_id := delivery.event_id
    error := o.errorMessage
    response_status := o.responseStatus
    attempts
    failed_at := now
    trace_id := traceId
    request_id := delivery.request_id }
  deliveryRepository.update deliveryId (outcomePatch .failed attempts now none (some o.errorMessage) o)

/-- From the outcome of a round to the record. -/
def recordOutcome (deliveryId : String) (delivery : Delivery) (webhook : Webhook) (traceId : String)
    (latencyMs now : ℕ) (o : Outcome) : Code (Option Delivery) := do
  let attempts := delivery.attempts + 1
  if o.succeeded then
    recordDeliveryEnd deliveryId webhook.id true attempts latencyMs
    deliveryRepository.update deliveryId (outcomePatch .success attempts now none none o)
  else if shouldRetry o.responseStatus o.networkError.isSome && attempts < config.maxAttempts then
    recordDeliveryEnd deliveryId webhook.id false attempts latencyMs
    retryLater config deliveryId delivery attempts now o
  else
    recordDeliveryEnd deliveryId webhook.id false attempts latencyMs
    giveUp deliveryId delivery webhook traceId attempts now o

/-- The headers that are sent: an encrypted body is announced. -/
def sentHeaders (headers : List (String × String)) (encryptedPayload : Option String) :
    List (String × String) :=
  match encryptedPayload with
  | none => headers
  | some _ => headers ++ [("X-Webhook-Encrypted", "aes-256-gcm")]

/-- The attempt once the webhook is known to be active: the plaintext is signed, and the
encryption of it is sent. -/
def attemptActive (deliveryId : String) (delivery : Delivery) (webhook : Webhook) (traceId : String)
    (sequence : Option ℕ) : Code (Option Delivery) := do
  let body := stringify (payloadOf P delivery)
  let encryptedPayload ← encryptBody P body webhook.secret
  let headers ← buildHeaders P webhook.secret body delivery.event_type delivery.id
    delivery.request_id (sequence <|> delivery.sequence)
  let started ← redis .now
  redis (.recordDeliveryStart deliveryId webhook.id)
  let outcome ← makeRound config webhook (sentHeaders headers encryptedPayload)
    (encryptedPayload.getD body)
  let now ← redis .now
  let ended ← redis .now
  recordOutcome config deliveryId delivery webhook traceId (ended - started) now outcome

/-- The outcome of an attempt whose webhook is gone or inactive: no round is made. -/
def markInactive (deliveryId : String) : Code (Option Delivery) := do
  let now ← redis .now
  deliveryRepository.update deliveryId {
    status := some .failed
    last_error := some (some "webhook missing or inactive")
    last_attempt_at := some (some now)
    next_retry_at := some none }

/-- The trace id of a delivery, which is stored if the record has none. -/
def ensureTrace (deliveryId : String) (delivery : Delivery) : Code String :=
  match delivery.trace_id.filter (· ≠ "") with
  | some traceId => return traceId
  | none => do
    let traceId ← generateTraceId
    let _ ← deliveryRepository.update deliveryId { trace_id := some traceId }
    return traceId

/-- `attempt` once the record is loaded and not a success. -/
def attemptLoaded (deliveryId : String) (delivery : Delivery) (sequence : Option ℕ) :
    Code (Option Delivery) := do
  let traceId ← ensureTrace deliveryId delivery
  match ← getWebhookForAttempt P config delivery.webhook_id with
  | none => markInactive deliveryId
  | some webhook =>
    if webhook.active then attemptActive P config deliveryId delivery webhook traceId sequence
    else markInactive deliveryId

/-- `attempt`. -/
def attempt (deliveryId : String) (sequence : Option ℕ) : Code (Option Delivery) := do
  match ← deliveryRepository.findById deliveryId with
  | none => return none
  | some delivery =>
    if delivery.status = .success then return some delivery
    else attemptLoaded P config deliveryId delivery sequence

/-! ## 3. New deliveries -/

/-- What `deliverToWebhook` is given, with the id of the request it serves. -/
structure Notice where
  webhook : Webhook
  eventType : String
  eventId : String
  payload : Json
  sequence : Option ℕ
  requestId : Option String

/-- The delivery that a notice asks for. -/
def Notice.newDelivery (n : Notice) : NewDelivery where
  webhook_id := n.webhook.id
  event_id := n.eventId
  event_type := n.eventType
  request_id := n.requestId.filter (· ≠ "system")

/-- `deliverToWebhook`: the event is claimed for the webhook, at most once. -/
def deliverToWebhook (n : Notice) : Code (Option Delivery) := do
  redis (.cacheWebhook n.webhook)
  if ← redis (.claimDelivery n.webhook.id n.eventId) then
    let delivery ← create P config n.newDelivery
    let _ ← deliveryRepository.update delivery.id
      { payload := some n.payload, sequence := some n.sequence }
    attempt P config delivery.id n.sequence
  else return none

end dispatcher

/-! ## 4. The retry worker -/

namespace retryWorker

/-- The retries that are due. -/
def due : Code (List String) := do
  let now ← redis .now
  popDueRetries now config.retryBatchSize

/-- The loop of `tick`: an attempt that throws does not stop it. -/
def attemptAll : List String → Code Unit
  | [] => return ()
  | id :: ids => do
    tryCatch (do let _ ← dispatcher.attempt P config id none) fun _ => return ()
    attemptAll ids

/-- The body of `tick`, which is not entered while an earlier tick is running. -/
def tick : Code Unit :=
  tryCatch (do attemptAll P config (← due config)) fun _ => return ()

end retryWorker

end SmartDrop.Webhooks
