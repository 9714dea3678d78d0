/-
# Price alerts

`services/alerts.js`: the functions that write alerts, each as the program of commands it issues.
An alert is a record, an entry of the sorted set `alerts:ids` and a member of the set of its asset's
alerts; `create` and `remove` are transactions.  `evaluateForAsset` reads the alerts of an asset and
delivers those that are triggered, and then removes an alert or writes back the record that it has
read.

Any number of calls run one command at a time, in as many threads.  A command can fail, before or
after it took effect: a delivery too, whose answer may be lost.  Every step takes time.
-/
import SmartDrop.Lib.Binary64
import SmartDrop.Lib.JsText
import SmartDrop.Lib.RedisTypes
import SmartDrop.Lib.Run

namespace SmartDrop.Alerts

open Binary64 Conc Redis

/-! ## 1. Alerts -/

/-- The types of an alert. -/
inductive AlertType where
  | above
  | below
  | change_pct
deriving DecidableEq

/-- A stored alert.  Times are milliseconds. -/
structure Alert where
  id : String
  asset : String
  type : AlertType
  threshold_usd : Double
  webhook_url : String
  webhook_secret : String
  repeats : Bool
  owner_ip : Option String
  created_at : ℕ
  last_fired_at : Option ℕ
  baseline_price : Option Double
deriving DecidableEq

/-- The body of a creation. -/
structure CreateBody where
  asset : String
  type : AlertType
  threshold_usd : Double
  webhook_url : String
  webhook_secret : String
  repeats : Option Bool
  owner_ip : Option String

/-- What is delivered. -/
structure Payload where
  event : String
  alert_id : String
  asset : String
  type : AlertType
  threshold_usd : Double
  actual_price_usd : Double
  triggered_at : ℕ
deriving DecidableEq

/-- `COOLDOWN_MS`. -/
def COOLDOWN_MS : ℕ := 5 * 60 * 1000

/-- `asset.toUpperCase()`, of the letters and digits that an asset code has. -/
def toUpperCase (asset : String) : String := String.ofList (asset.toList.map JsText.upper)

/-- `assetIdsKey`. -/
def assetIdsKey (asset : String) : String := "alerts:asset:" ++ toUpperCase asset

/-- `assetCooldownKey`. -/
def assetCooldownKey (asset : String) : String := "alert:cooldown:" ++ toUpperCase asset

/-- `isTriggered`.  A quotient by zero is infinite, or not a number. -/
def isTriggered (alert : Alert) (priceUsd : Double) : Bool :=
  match alert.type with
  | .above => alert.threshold_usd.val < priceUsd.val
  | .below => priceUsd.val < alert.threshold_usd.val
  | .change_pct =>
    match alert.baseline_price with
    | none => false
    | some baseline_price =>
      if baseline_price.val = 0 then priceUsd.val ≠ 0
      else
        let quotient := nearest (nearest (priceUsd.val - baseline_price.val) / baseline_price.val)
        alert.threshold_usd.val ≤ nearest (|quotient| * 100)

/-! ## 2. The database and the endpoints -/

/-- What the service is given: the first sixteen digits of the UUID that each call draws, never the
same for two calls. -/
structure Platform (τ : Type) where
  randomUUID : τ → String
  uuid_inj : Function.Injective randomUUID

/-- A delivery that an endpoint has received. -/
structure Delivery where
  webhook_url : String
  payload : Payload
  time : ℕ
deriving DecidableEq

/-- The keys `alert:<id>`, `alerts:ids`, `alerts:asset:<asset>` and `alert:cooldown:<asset>`, the clock
and what the endpoints have received, the latest first.  `created` is a record, which no command
reads: whether there has been an alert with an id. -/
structure Store where
  records : String → Option Alert
  ids : ZSet ℕ String
  assets : String → RSet String
  cooldowns : String → Option ℕ
  now : ℕ
  deliveries : List Delivery
  created : String → Bool

/-- The empty database. -/
def Store.init : Store where
  records _ := none
  ids := .empty
  assets _ := .empty
  cooldowns _ := none
  now := 0
  deliveries := []
  created _ := false

/-- The atomic steps of the service. -/
inductive Op where
  | now
  | randomUUID
  | price (asset : String)
  | insert (alert : Alert) (score : ℕ)
  | get (id : String)
  | delete (id asset : String)
  | smembers (key : String)
  | deliver (webhook_url webhook_secret : String) (payload : Payload)
  | getCooldown (key : String)
  | set (id : String) (alert : Alert)
  | setCooldown (key : String) (time : ℕ)

/-- What a step answers. -/
@[reducible] def Op.Ret : Op → Type
  | .now => ℕ
  | .randomUUID => String
  | .price _ => Option Double
  | .insert .. => Unit
  | .get _ => Option Alert
  | .delete .. => Unit
  | .smembers _ => List String
  | .deliver .. => Unit
  | .getCooldown _ => Option ℕ
  | .set .. => Unit
  | .setCooldown .. => Unit

/-- A message that a failed command throws. -/
abbrev Err := String

/-- The signature: a step may fail. -/
def sig : Sig where
  Op := Op
  Rep op := Except Err op.Ret

/-- How a command can fail: before it was executed, or after, its reply being lost. -/
inductive Fault where
  | none
  | before
  | after
deriving DecidableEq

/-- The time that a step takes, its fault, and the price in the cache. -/
structure Env where
  elapsed : ℕ := 0
  fault : Fault := .none
  price : Option Double := Option.none

section Machine

variable {τ : Type} (P : Platform τ)

/-- What a step of a thread answers and does when it is executed. -/
def Store.exec (i : τ) (price : Option Double) (s : Store) : (op : Op) → op.Ret × Store
  | .now => (s.now, s)
  | .randomUUID => (P.randomUUID i, s)
  | .price _ => (price, s)
  | .insert alert score => ((), { s with
      records := Function.update s.records alert.id (some alert)
      ids := s.ids.zadd score alert.id
      assets := Function.update s.assets (assetIdsKey alert.asset)
        ((s.assets (assetIdsKey alert.asset)).sadd alert.id)
      created := Function.update s.created alert.id true })
  | .get id => (s.records id, s)
  | .delete id asset => ((), { s with
      records := Function.update s.records id none
      ids := s.ids.zrem id
      assets := Function.update s.assets (assetIdsKey asset) ((s.assets (assetIdsKey asset)).srem id) })
  | .smembers key => ((s.assets key).members, s)
  | .deliver webhook_url _ payload =>
    ((), { s with deliveries := ⟨webhook_url, payload, s.now⟩ :: s.deliveries })
  | .getCooldown key => (s.cooldowns key, s)
  | .set id alert => ((), { s with records := Function.update s.records id (some alert) })
  | .setCooldown key time =>
    ((), { s with cooldowns := Function.update s.cooldowns key (some time) })

/-- The steps that are not commands, and cannot fail. -/
def Op.isLocal : Op → Bool
  | .now | .randomUUID => true
  | _ => false

/-- Time passes. -/
def Store.wait (s : Store) (elapsed : ℕ) : Store := { s with now := s.now + elapsed }

/-- The command is executed, as far as its fault goes. -/
def executes (op : Op) (x : Env) : Bool := op.isLocal || x.fault ≠ .before

/-- Redis and the endpoints, with their failures. -/
def machine : Machine sig τ Env Store where
  exec i op x s :=
    let s := s.wait x.elapsed
    let r := s.exec P i x.price op
    (if op.isLocal || x.fault = .none then .ok r.1 else .error "command failed",
      if executes op x then r.2 else s)

end Machine

/-- A piece of the service. -/
abbrev Code := Throws sig Err

/-- One step. -/
def command (op : Op) : Code op.Ret := (Prog.call (S := sig) op : Prog sig (Except Err op.Ret))

/-! ## 3. The service -/

/-- The id of an alert. -/
def alertId (uuid : String) : String := "alrt_" ++ uuid

/-- `generateId`. -/
def generateId : Code String := return alertId (← command .randomUUID)

/-- The price that a new alert is compared with. -/
def baselinePrice (data : CreateBody) : Code (Option Double) := do
  match data.type with
  | .change_pct =>
    let cached ← command (.price (toUpperCase data.asset))
    return cached.filter fun price => price.val ≠ 0
  | _ => return none

/-- The record that `create` writes. -/
def CreateBody.alert (data : CreateBody) (id : String) (created_at : ℕ)
    (baseline_price : Option Double) : Alert where
  id
  asset := toUpperCase data.asset
  type := data.type
  threshold_usd := data.threshold_usd
  webhook_url := data.webhook_url
  webhook_secret := data.webhook_secret
  repeats := data.repeats = some true
  owner_ip := data.owner_ip.filter (· ≠ "")
  created_at
  last_fired_at := none
  baseline_price

/-- `create`. -/
def create (data : CreateBody) : Code Alert := do
  let id ← generateId
  let baselinePrice ← baselinePrice data
  let created_at ← command .now
  let score ← command .now
  command (.insert (data.alert id created_at baselinePrice) score)
  return data.alert id created_at baselinePrice

/-- `remove`. -/
def remove (id : String) : Code (Option Alert) := do
  match ← command (.get id) with
  | none => return none
  | some existing =>
    command (.delete id existing.asset)
    return some existing

/-- `fire`. -/
def fire (alert : Alert) (priceUsd : Double) : Code Unit := do
  let triggered_at ← command .now
  command (.deliver alert.webhook_url alert.webhook_secret
    ⟨"price.alert", alert.id, alert.asset, alert.type, alert.threshold_usd, priceUsd, triggered_at⟩)

/-- The record that is written back once an alert has been delivered. -/
def Alert.fired (alert : Alert) (priceUsd : Double) (now : ℕ) : Alert :=
  { alert with
    last_fired_at := some now
    baseline_price := if alert.type = .change_pct then some priceUsd else alert.baseline_price }

/-- What follows a delivery. -/
def afterFire (id : String) (alert : Alert) (priceUsd : Double) : Code Unit := do
  if !alert.repeats then
    let _ ← remove id
    return ()
  else
    let now ← command .now
    command (.set id (alert.fired priceUsd now))
    command (.setCooldown (assetCooldownKey alert.asset) now)

/-- Whether a time that is kept with an alert or its asset is less than `COOLDOWN_MS` ago. -/
def isCooling (time : Option ℕ) : Code Bool := do
  match time with
  | none => return false
  | some time => return (← command .now) < time + COOLDOWN_MS

/-- Whether a repeating alert, or its asset, has been delivered less than `COOLDOWN_MS` ago. -/
def onCooldown (alert : Alert) : Code Bool := do
  if !alert.repeats then return false
  if ← isCooling alert.last_fired_at then return true
  isCooling (← command (.getCooldown (assetCooldownKey alert.asset)))

/-- The body of the loop of `evaluateForAssetInner`. -/
def evaluate (asset : String) (priceUsd : Double) (id : String) : Code Unit := do
  match ← command (.get id) with
  | none => return ()
  | some alert =>
    if alert.asset ≠ toUpperCase asset then return ()
    if !isTriggered alert priceUsd then return ()
    if ← onCooldown alert then return ()
    fire alert priceUsd
    afterFire id alert priceUsd

/-- The loop of `evaluateForAssetInner`. -/
def evaluateEach (asset : String) (priceUsd : Double) : List String → Code Unit
  | [] => return ()
  | id :: ids => do
    evaluate asset priceUsd id
    evaluateEach asset priceUsd ids

/-- `evaluateForAssetInner`. -/
def evaluateForAssetInner (asset : String) (priceUsd : Double) : Code Unit := do
  let ids ← command (.smembers (assetIdsKey asset))
  evaluateEach asset priceUsd ids

/-- `evaluateForAsset`.  Its timeout ends the wait for the pass and not the pass. -/
def evaluateForAsset (asset : String) (priceUsd : Double) : Code Unit :=
  tryCatch (evaluateForAssetInner asset priceUsd) fun _ => return ()

/-! ## 4. The concurrent system -/

/-- The calls that write alerts. -/
inductive Call where
  | create (data : CreateBody)
  | remove (id : String)
  | evaluateForAsset (asset : String) (priceUsd : Double)

/-- The program of a call. -/
def Call.code : Call → Code (Option Alert)
  | .create data => do
    let alert ← Alerts.create data
    return some alert
  | .remove id => Alerts.remove id
  | .evaluateForAsset asset priceUsd => do
    Alerts.evaluateForAsset asset priceUsd
    return none

/-- A database and what each thread has still to do. -/
abbrev System (τ : Type) := Pool sig (Except Err (Option Alert)) τ Store

/-- Every thread is about to make its call. -/
def start {τ : Type} (calls : τ → Call) : System τ := ⟨.init, fun i => (calls i).code.prog⟩

/-- The rule of one command that may throw, for a machine that may keep a record too. -/
theorem satE_command {τ σ : Type} {M : Machine sig τ Env σ} {i : τ} {C : Contract sig Env σ} {op : Op}
    {P : σ → Prop} {Q : op.Ret → σ → Prop} (hst : ∀ r, Stable C.rely (Q r))
    (h : ∀ x s, P s → C.ok op x s → C.guar s (M.exec i op x s).2 ∧
      ∀ r, (M.exec i op x s).1 = .ok r → Q r (M.exec i op x s).2) :
    SatE M i C (command op) P Q fun _ _ => True := by
  intro x s hs hok
  obtain ⟨hg, hq⟩ := h x s hs hok
  refine ⟨hg, fun s' => ∀ r, (M.exec i op x s).1 = .ok r → Q r s', ?_, hq, ?_⟩
  · intro s₁ s₂ h₁ hr r he
    exact hst r (h₁ r he) hr
  · intro s' hs'
    cases hr : (M.exec i op x s).1 with
    | error e => trivial
    | ok r => exact hs' r hr

end SmartDrop.Alerts
