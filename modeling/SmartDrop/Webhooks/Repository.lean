/-
# The webhook repository

`repositories/webhookRepository.js`, function by function.  `create` and `remove` write in one
transaction; `update` reads the record, moves the id between the event indexes one command at a
time (nobody waits for these, so their failures are lost), and then writes the record.
-/
import SmartDrop.Webhooks.Store

namespace SmartDrop.Webhooks

open Conc Redis

variable (P : Platform) (config : Config)

namespace webhookRepository

/-- `generateId`. -/
def generateId : Code String := return "wh_" ++ (← redis .randomUUID)

/-- `encryptSecret`, drawing its initialisation vector. -/
def encryptSecretNow (secret : String) : Code String := do
  let iv ← redis (.randomBytes 12)
  match encryptSecret P config iv secret with
  | .error e => throw e
  | .ok packed => return packed

/-- The record that `create` stores. -/
def newRecord (w : NewWebhook) (id secret : String) (now : ℕ) : WebhookRecord where
  id
  url := w.url
  events := w.events
  secret
  active := true
  description := w.description.filter (· ≠ "")
  filters := w.filters
  owner_ip := w.owner_ip.filter (· ≠ "")
  created_at := now
  updated_at := now

/-- The checks of `create` on a URL. -/
def checkUrl (url : String) : Except Err Unit :=
  if url = "" then .error "webhookRepository.create: url is required"
  else match P.parseURL url with
    | none => .error "webhookRepository.create: url must be a valid URL"
    | some parsed =>
      if parsed.protocol ≠ "http:" ∧ parsed.protocol ≠ "https:" then
        .error "webhookRepository.create: url must use http or https protocol"
      else if isPrivateTarget parsed.hostname then
        .error ("webhookRepository.create: url must not target a private or internal network " ++
          "address")
      else .ok ()

/-- `create`. -/
def create (w : NewWebhook) : Code Webhook := do
  match checkUrl P w.url with
  | .error e => throw e
  | .ok () =>
    let id ← generateId
    let now ← redis .now
    let secret ← encryptSecretNow P config w.secret
    redis (.insertWebhook (newRecord w id secret now) now)
    return normalize P config (newRecord w id secret now)

/-- `findById`: a failed read is a missing webhook. -/
def findById (id : String) : Code (Option Webhook) :=
  tryCatch (do
    let record ← redis (.getWebhook id)
    return record.map (normalize P config)) fun _ => return none

/-- `listActiveForEvent`: a failed read is an empty list. -/
def listActiveForEvent (eventType : String) (matcher : List String → String → Bool) :
    Code (List Webhook) :=
  tryCatch (do
    let ids ← redis (.smembersEvent eventType)
    if ids.isEmpty then return []
    let records ← redis (.mgetWebhooks ids)
    return ((records.filterMap id).map (normalize P config)).filter fun w =>
      w.active && matcher w.events eventType) fun _ => return []

/-- `removeEventIndexes`, outside a transaction. -/
def removeEventIndexes (webhookId : String) : List String → Code Unit
  | [] => return ()
  | evt :: events => do
    unchecked (.sremEvent evt webhookId)
    removeEventIndexes webhookId events

/-- `addEventIndexes`, outside a transaction. -/
def addEventIndexes (webhookId : String) : List String → Code Unit
  | [] => return ()
  | evt :: events => do
    unchecked (.saddEvent evt webhookId)
    addEventIndexes webhookId events

/-- The secret that `update` stores. -/
def nextSecret (existing : WebhookRecord) (patch : WebhookPatch) : Code String :=
  match patch.secret.filter (· ≠ "") with
  | some secret => encryptSecretNow P config secret
  | none => return patch.secret.getD existing.secret

/-- The record that `update` stores. -/
def patched (existing : WebhookRecord) (patch : WebhookPatch) (secret : String) (now : ℕ) :
    WebhookRecord :=
  { existing with
    url := patch.url.getD existing.url
    events := patch.events.getD existing.events
    secret
    active := patch.active.getD existing.active
    description := patch.description <|> existing.description
    filters := patch.filters <|> existing.filters
    updated_at := now }

/-- Move a webhook to the indexes of its new events. -/
def reindex (id : String) (existing : WebhookRecord) : Option (List String) → Code Unit
  | none => return ()
  | some events => do
    removeEventIndexes id existing.events
    addEventIndexes id events

/-- `update`. -/
def update (id : String) (patch : WebhookPatch) : Code (Option Webhook) := do
  match ← redis (.getWebhook id) with
  | none => return none
  | some existing =>
    let secret ← nextSecret P config existing patch
    let now ← redis .now
    reindex id existing patch.events
    redis (.setWebhook id (patched existing patch secret now))
    return some (normalize P config (patched existing patch secret now))

/-- `remove`. -/
def remove (id : String) : Code (Option Webhook) := do
  match ← redis (.getWebhook id) with
  | none => return none
  | some existing =>
    let deliveryIds ← redis (.deliveryIds id)
    redis (.deleteWebhook id existing deliveryIds)
    return some (normalize P config existing)

end webhookRepository

end SmartDrop.Webhooks
