/-
# The event store

`indexer/eventStore.js`: the cursor of the indexer, moved by a script that compares and sets;
the raw events and their id set; and what is derived from them, an airdrop's projection, its
recipients and each recipient's claims.  Every function is the program of Redis commands it
issues.

What the projections hold is JSON, spread and patched field by field as the source does.  The
key of an airdrop's recipients is a hash, or still the list of an older version.
-/
import SmartDrop.Indexer.Parser
import SmartDrop.Lib.Prog
import SmartDrop.Lib.RedisTypes
import Mathlib.Data.Nat.Notation
import Mathlib.Order.Basic

namespace SmartDrop.Indexer

open Conc JsonText Redis

/-! ## 1. Redis -/

/-- What a recipients key holds: nothing, a JSON list from before the hash, or the hash. -/
inductive RecipientsKey where
  | absent
  | list (entries : List Json)
  | hash (entries : List (String × Json))

/-- The keys of the indexer. -/
structure Store where
  lastLedger : Option ℕ
  events : String → Option ParsedEvent
  eventIds : RSet String
  airdrops : String → Option Json
  airdropIds : RSet String
  recipients : String → RecipientsKey
  claims : String → List Json

/-- The empty database. -/
def Store.init : Store :=
  ⟨none, fun _ => none, .empty, fun _ => none, .empty, fun _ => .absent, fun _ => []⟩

/-- The atomic steps of the store. -/
inductive Op where
  | getLastLedger
  | advanceLastLedger (expected : Option ℕ) (next : ℕ)
  | setEvent (event : ParsedEvent)
  | saddEvent (id : String)
  | saveEvent (event : ParsedEvent)
  | getAirdrop (airdropId : String)
  | putAirdrop (airdropId : String) (record : Json)
  | recipientsType (airdropId : String)
  | getRecipientsList (airdropId : String)
  | delRecipients (airdropId : String)
  | hget (airdropId recipient : String)
  | hset (airdropId recipient : String) (record : Json)
  | getClaims (recipient : String)
  | setClaims (recipient : String) (claims : List Json)

/-- What a step answers. -/
@[reducible] def Op.Ret : Op → Type
  | .getLastLedger => Option ℕ
  | .advanceLastLedger .. => Bool
  | .setEvent _ => Unit
  | .saddEvent _ => Unit
  | .saveEvent _ => Unit
  | .getAirdrop _ => Option Json
  | .putAirdrop .. => Unit
  | .recipientsType _ => String
  | .getRecipientsList _ => List Json
  | .delRecipients _ => Unit
  | .hget .. => Option Json
  | .hset .. => Unit
  | .getClaims _ => List Json
  | .setClaims .. => Unit

/-- The message of a failed command. -/
abbrev Err := String

/-- The signature: a step may fail. -/
def sig : Sig where
  Op := Op
  Rep op := Except Err op.Ret

/-- `ADVANCE_LAST_LEDGER_LUA` allows the write: the cursor is still what the caller read, and
does not go back. -/
def advances (cursor expected : Option ℕ) (next : ℕ) : Bool :=
  cursor = expected && cursor.all fun c => c ≤ next

/-- The `TYPE` of a recipients key. -/
def RecipientsKey.type : RecipientsKey → String
  | .absent => "none"
  | .list _ => "string"
  | .hash _ => "hash"

/-- What a step answers and does. -/
def Store.exec (s : Store) : (op : Op) → Except Err op.Ret × Store
  | .getLastLedger => (.ok s.lastLedger, s)
  | .advanceLastLedger expected next =>
    if advances s.lastLedger expected next then (.ok true, { s with lastLedger := some next })
    else (.ok false, s)
  | .setEvent event =>
    (.ok (), { s with events := Function.update s.events event.id (some event) })
  | .saddEvent id => (.ok (), { s with eventIds := s.eventIds.sadd id })
  | .saveEvent event => (.ok (), { s with
      events := Function.update s.events event.id (some event)
      eventIds := s.eventIds.sadd event.id })
  | .getAirdrop airdropId => (.ok (s.airdrops airdropId), s)
  | .putAirdrop airdropId record => (.ok (), { s with
      airdrops := Function.update s.airdrops airdropId (some record)
      airdropIds := s.airdropIds.sadd airdropId })
  | .recipientsType airdropId => (.ok (s.recipients airdropId).type, s)
  | .getRecipientsList airdropId =>
    match s.recipients airdropId with
    | .absent => (.ok [], s)
    | .list entries => (.ok entries, s)
    | .hash _ => (.error "WRONGTYPE", s)
  | .delRecipients airdropId =>
    (.ok (), { s with recipients := Function.update s.recipients airdropId .absent })
  | .hget airdropId recipient =>
    match s.recipients airdropId with
    | .absent => (.ok none, s)
    | .list _ => (.error "WRONGTYPE", s)
    | .hash entries => (.ok ((Json.obj entries).get? recipient), s)
  | .hset airdropId recipient record =>
    match s.recipients airdropId with
    | .absent => (.ok (), { s with
        recipients := Function.update s.recipients airdropId (.hash [(recipient, record)]) })
    | .list _ => (.error "WRONGTYPE", s)
    | .hash entries => (.ok (), { s with
        recipients := Function.update s.recipients airdropId
          (.hash (Json.setField entries recipient record)) })
  | .getClaims recipient => (.ok (s.claims recipient), s)
  | .setClaims recipient claims =>
    (.ok (), { s with claims := Function.update s.claims recipient claims })

/-- How a command can fail besides: before Redis executed it, or after, its reply being lost. -/
inductive Fault where
  | none
  | before
  | after
deriving DecidableEq

/-- Redis, with its failures.  Any number of threads may call it. -/
def machine (τ : Type) : Machine sig τ Fault Store where
  exec _ op fault s := match fault with
    | .none => s.exec op
    | .before => (.error "Redis command failed", s)
    | .after => (.error "Redis command failed", (s.exec op).2)

/-- A piece of the store's code. -/
abbrev Code := Throws sig Err

/-- One step. -/
def redis (op : Op) : Code op.Ret := (Prog.call (S := sig) op : Prog sig (Except Err op.Ret))

/-! ## 2. The cursor -/

/-- `getLastLedger(null)`. -/
def getLastLedger : Code (Option ℕ) := redis .getLastLedger

/-- `advanceLastLedger`. -/
def advanceLastLedger (expectedLedger : Option ℕ) (nextLedger : ℕ) : Code Bool :=
  redis (.advanceLastLedger expectedLedger nextLedger)

/-! ## 3. The projections -/

/-- `a ?? b ?? … ?? null`. -/
def orNull (values : List (Option Json)) : Json :=
  (values.filterMap id |>.find? fun v => isPresent (some v)).getD .null

/-- A text that may be missing. -/
def ofText : Option String → Json
  | none => .null
  | some s => .str s

/-- `getAirdropId`. -/
def getAirdropId (event : ParsedEvent) : Option Json := event.data.get? "airdrop_id"

/-- `getRecipient`. -/
def getRecipient (event : ParsedEvent) : Option Json := event.data.get? "recipient"

/-- The data that an `airdrop_created` event has to have. -/
def hasCreatedData (event : ParsedEvent) : Bool :=
  Json.truthy (event.data.get? "creator") && Json.truthy (event.data.get? "token") &&
    isPresent (event.data.get? "total_amount") && isPresent (event.data.get? "expiry_ledger")

/-- The projection of an airdrop after an event. -/
def nextAirdrop (existing : Json) (event : ParsedEvent) : Json :=
  let next := existing.spread [
    ("updated_ledger", .ofNat event.ledger),
    ("updated_at", ofText event.ledger_closed_at)]
  match event.event_name with
  | .airdrop_created => next.spread [
      ("status", .str "created"),
      ("creator", orNull [event.data.get? "creator", existing.get? "creator"]),
      ("token", orNull [event.data.get? "token", existing.get? "token"]),
      ("total_amount", orNull [event.data.get? "total_amount", existing.get? "total_amount"]),
      ("expiry_ledger", orNull [event.data.get? "expiry_ledger", existing.get? "expiry_ledger"]),
      ("created_ledger", .ofNat event.ledger),
      ("created_at", ofText event.ledger_closed_at)]
  | .token_claimed => next.spread [
      ("status", .str (if Json.isStr (existing.get? "status") "expired" then "expired"
        else "active"))]
  | .airdrop_expired => next.spread [
      ("status", .str "expired"),
      ("unclaimed_amount", orNull [event.data.get? "unclaimed_amount"]),
      ("expired_ledger", .ofNat event.ledger),
      ("expired_at", ofText event.ledger_closed_at)]
  | .recipient_added => next

/-- `upsertAirdrop`. -/
def upsertAirdrop (event : ParsedEvent) : Code Unit := do
  match getAirdropId event with
  | none => return ()
  | some airdropId =>
    if !Json.truthy (some airdropId) then return ()
    if event.event_name = .airdrop_created && !hasCreatedData event then return ()
    let stored ← redis (.getAirdrop (templateText airdropId))
    let existing := stored.getD (.obj [("airdrop_id", airdropId)])
    redis (.putAirdrop (templateText airdropId) (nextAirdrop existing event))

/-- The entries of an old list that name a recipient, each moved into the hash. -/
def moveEntries (airdropId : String) : List Json → Code Unit
  | [] => return ()
  | entry :: rest => do
    if Json.truthy (entry.get? "recipient") then
      redis (.hset airdropId (fieldText (entry.get? "recipient")) entry)
    moveEntries airdropId rest

/-- `migrateRecipientsListToHashIfNeeded`. -/
def migrateRecipientsListToHashIfNeeded (airdropId : String) : Code Unit := do
  let type ← redis (.recipientsType airdropId)
  if type ≠ "string" then return ()
  let list ← redis (.getRecipientsList airdropId)
  redis (.delRecipients airdropId)
  moveEntries airdropId list

/-- A recipient's record after an event. -/
def nextRecipient (existing airdropId : Json) (event : ParsedEvent) : Json :=
  let next := existing.spread [
    ("airdrop_id", airdropId),
    ("amount", orNull [event.data.get? "amount", existing.get? "amount"]),
    ("updated_ledger", .ofNat event.ledger),
    ("updated_at", ofText event.ledger_closed_at)]
  match event.event_name with
  | .recipient_added => next.spread [
      ("status", if Json.truthy (existing.get? "status") then (existing.get? "status").getD .null
        else .str "pending"),
      ("added_ledger", .ofNat event.ledger)]
  | .token_claimed => next.spread [
      ("status", .str "claimed"),
      ("claimed_ledger", orNull [event.data.get? "ledger", some (.ofNat event.ledger)]),
      ("claimed_at", ofText event.ledger_closed_at)]
  | _ => next

/-- `upsertRecipient`. -/
def upsertRecipient (event : ParsedEvent) : Code Unit := do
  match getAirdropId event, getRecipient event with
  | some airdropId, some recipient =>
    if !Json.truthy (some airdropId) || !Json.truthy (some recipient) then return ()
    migrateRecipientsListToHashIfNeeded (templateText airdropId)
    let existingRaw ← redis (.hget (templateText airdropId) (templateText recipient))
    let existing := existingRaw.getD (.obj [("recipient", recipient)])
    redis (.hset (templateText airdropId) (templateText recipient)
      (nextRecipient existing airdropId event))
  | _, _ => return ()

/-- The key by which a claim is told from others. -/
def dedupKey (eventId airdropId : Option Json) : String :=
  fieldText eventId ++ ":" ++ fieldText airdropId

/-- `appendClaim`. -/
def appendClaim (event : ParsedEvent) : Code Unit := do
  match getRecipient event, getAirdropId event with
  | some recipient, some airdropId =>
    if event.event_name ≠ .token_claimed || !Json.truthy (some recipient) ||
        !Json.truthy (some airdropId) then return ()
    let claims ← redis (.getClaims (templateText recipient))
    if claims.any fun claim => dedupKey (claim.get? "event_id") (claim.get? "airdrop_id") ==
        dedupKey (some (.str event.id)) (some airdropId) then return ()
    redis (.setClaims (templateText recipient) (claims ++ [.obj [
      ("event_id", .str event.id),
      ("airdrop_id", airdropId),
      ("recipient", recipient),
      ("amount", orNull [event.data.get? "amount"]),
      ("ledger", orNull [event.data.get? "ledger", some (.ofNat event.ledger)]),
      ("claimed_at", ofText event.ledger_closed_at)]]))
  | _, _ => return ()

/-! ## 4. Saving -/

/-- What an event changes besides its own record. -/
def project (event : ParsedEvent) : Code Unit := do
  upsertAirdrop event
  upsertRecipient event
  if event.event_name = .token_claimed then appendClaim event

/-- `saveEvent`. -/
def saveEvent (event : ParsedEvent) : Code Unit := do
  redis (.saveEvent event)
  project event

/-- The pipeline of `saveEvents`: the commands of one event after the other. -/
def saveRecords : List ParsedEvent → Code Unit
  | [] => return ()
  | event :: rest => do
    redis (.setEvent event)
    redis (.saddEvent event.id)
    saveRecords rest

/-- The loop of `saveEvents`. -/
def projectAll : List ParsedEvent → Code Unit
  | [] => return ()
  | event :: rest => do
    project event
    projectAll rest

/-- `saveEvents`. -/
def saveEvents (events : List ParsedEvent) : Code Unit := do
  saveRecords events
  projectAll events

end SmartDrop.Indexer
