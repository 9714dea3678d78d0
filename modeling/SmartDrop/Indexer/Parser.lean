/-
# Parsing contract events

`indexer/eventParser.js`.  The values of an event arrive as `ScVal`s of the Stellar SDK, which
decodes them; from there on they are JSON.  An event is recognised by the first of its topics
that names a known event; one without such a topic is dropped.
-/
import SmartDrop.Lib.JsonRoundTrip

namespace SmartDrop.Indexer

open JsonText

/-! ## 1. Events -/

/-- The event names of `EVENT_FIELDS`. -/
inductive EventName where
  | airdrop_created
  | recipient_added
  | token_claimed
  | airdrop_expired
deriving DecidableEq

/-- The text of a name. -/
def EventName.text : EventName → String
  | .airdrop_created => "airdrop_created"
  | .recipient_added => "recipient_added"
  | .token_claimed => "token_claimed"
  | .airdrop_expired => "airdrop_expired"

/-- `EVENT_FIELDS`. -/
def EVENT_FIELDS : EventName → List String
  | .airdrop_created => ["airdrop_id", "creator", "token", "total_amount", "expiry_ledger"]
  | .recipient_added => ["airdrop_id", "recipient", "amount"]
  | .token_claimed => ["airdrop_id", "recipient", "amount", "ledger"]
  | .airdrop_expired => ["airdrop_id", "unclaimed_amount"]

/-- `EVENT_NAMES`. -/
def EVENT_NAMES : List EventName :=
  [.airdrop_created, .recipient_added, .token_claimed, .airdrop_expired]

/-- An event as the RPC returns it. -/
structure RawEvent (ScVal : Type) where
  id : Option String
  type : String
  ledger : ℕ
  ledgerClosedAt : Option String
  pagingToken : Option String
  contractId : Option String
  inSuccessfulContractCall : Option Bool
  topic : List ScVal
  value : Option ScVal

/-- A parsed event. -/
structure ParsedEvent where
  id : String
  event_name : EventName
  type : String
  ledger : ℕ
  ledger_closed_at : Option String
  paging_token : Option String
  contract_id : Option String
  in_successful_contract_call : Bool
  data : Json
  decodedTopics : List Json
  decodedValue : Json
  rawTopics : List String
  rawValue : Option String
  indexed_at : ℕ

/-- What the parser is given: the SDK's decoding and encoding of a value, the JSON text of the
topics, and SHA-256.  `decode` is `toJsonSafe(scValToNative(v))`. -/
structure Codec where
  ScVal : Type
  decode : ScVal → Json
  xdrBase64 : ScVal → String
  topicText : List ScVal → String
  sha256 : String → String

/-! ## 2. The parser -/

variable (C : Codec)

/-- `decodeScVal`. -/
def decodeScVal : Option C.ScVal → Json
  | none => .null
  | some v => C.decode v

/-- `normalizeEventName`. -/
def normalizeEventName : Json → Option EventName
  | .str s => EVENT_NAMES.find? fun n => n.text == s
  | _ => none

/-- `value[index] ?? null`. -/
def elementOrNull (values : List Json) (index : ℕ) : Json := values[index]?.getD .null

/-- `dataFromValue`. -/
def dataFromValue (eventName : EventName) (value : Json) (topicHintCount : ℕ) : Json :=
  match value with
  | .arr values =>
    let fields := EVENT_FIELDS eventName
    let valueFields := if 0 < topicHintCount ∧ values.length < fields.length then
      fields.drop (fields.length - values.length) else fields
    .obj (valueFields.zipIdx.map fun f => (f.1, elementOrNull values f.2))
  | value => value

/-- The fields of `{ ...data }`: a string spreads into its characters, a number or a boolean
into nothing. -/
def spreadFields : Json → List (String × Json)
  | .obj fields => fields
  | .str s => s.toList.zipIdx.map fun c => (toString c.2, .str (String.singleton c.1))
  | .arr xs => xs.zipIdx.map fun x => (toString x.2, x.1)
  | _ => []

/-- `v != null`. -/
def isPresent : Option Json → Bool
  | none | some .null => false
  | some _ => true

/-- A topic that stands for a field which the data does not have. -/
def hint (fields : List (String × Json)) (key : String) (topic : Option Json) :
    List (String × Json) :=
  if isPresent ((Json.obj fields).get? key) || !isPresent topic then fields
  else Json.setField fields key (topic.getD .null)

/-- `mergeTopicHints`. -/
def mergeTopicHints (eventName : EventName) (data : Json) (topics : List Json) : Json :=
  let topicHints := (topics.dropWhile fun t => !Json.isStr (some t) eventName.text).drop 1
  let merged := hint (spreadFields data) "airdrop_id" topicHints[0]?
  .obj (hint merged "recipient" topicHints[1]?)

/-- `eventId`. -/
def eventId (event : RawEvent C.ScVal) : String :=
  match event.id with
  | some id => if id ≠ "" then id else fallback
  | none => fallback
where
  fallback : String := C.sha256 (toString event.ledger ++ ":" ++
    event.pagingToken.getD "undefined" ++ ":" ++ C.topicText event.topic)

/-- The name an event is recognised by: the first topic that is one. -/
def eventName (event : RawEvent C.ScVal) : Option EventName :=
  (event.topic.map C.decode).findSome? normalizeEventName

/-- The record of an event that is recognised by `eventName`. -/
def recordOf (now : ℕ) (event : RawEvent C.ScVal) (eventName : EventName) : ParsedEvent :=
  let nativeTopics := event.topic.map C.decode
  let decodedValue := decodeScVal C event.value
  let afterName := (nativeTopics.dropWhile fun t => !Json.isStr (some t) eventName.text).drop 1
  { id := eventId C event
    event_name := eventName
    type := event.type
    ledger := event.ledger
    ledger_closed_at := event.ledgerClosedAt.filter (· ≠ "")
    paging_token := event.pagingToken.filter (· ≠ "")
    contract_id := event.contractId.filter (· ≠ "")
    in_successful_contract_call := event.inSuccessfulContractCall ≠ some false
    data := mergeTopicHints eventName
      (dataFromValue eventName decodedValue afterName.length) nativeTopics
    decodedTopics := nativeTopics
    decodedValue
    rawTopics := event.topic.map C.xdrBase64
    rawValue := event.value.map C.xdrBase64
    indexed_at := now }

/-- `parseContractEvent`, at time `now`. -/
def parseContractEvent (now : ℕ) (event : RawEvent C.ScVal) : Option ParsedEvent :=
  (eventName C event).map (recordOf C now event)

/-- An event is RECOGNISED when the parser does not drop it. -/
def Recognised (event : RawEvent C.ScVal) : Prop := eventName C event ≠ none

variable {C} {event : RawEvent C.ScVal} {p : ParsedEvent} {now : ℕ}

/-- What the poller reads of a parsed event. -/
theorem parseContractEvent_spec (h : parseContractEvent C now event = some p) :
    p.id = eventId C event ∧ p.ledger = event.ledger := by
  obtain ⟨name, -, rfl⟩ := Option.map_eq_some_iff.mp h
  exact ⟨rfl, rfl⟩

theorem recognised_iff : Recognised C event ↔ ∃ p, parseContractEvent C now event = some p := by
  cases h : eventName C event <;> simp [Recognised, parseContractEvent, h]

end SmartDrop.Indexer
