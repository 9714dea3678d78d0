/-
# The price subscription manager

`ws/PriceSubscriptionManager.js`: which sockets are connected, from which addresses, and which
assets each has subscribed to.  `_assetSubscribers` mirrors the asset sets of the clients, and
`_connectionsByIp` counts the sockets of an address.

A handler that throws leaves what it has changed so far.  What is sent to a socket is the result of
a handler, and a socket whose `terminate` throws is a choice of the environment.  The gauge, the log,
the statistics of a drain and the prices themselves are left out.
-/
import SmartDrop.Lib.JsMap
import SmartDrop.Lib.JsNumber
import SmartDrop.Lib.Json
import SmartDrop.Lib.RedisTypes

namespace SmartDrop.Ws

open JsonText
open Redis (RSet)

/-! ## 1. Texts -/

mutual

/-- `String(value)`, which throws for an object with a `toString` of its own: it is no function, and
neither is there another way to a primitive value. -/
def stringOf : Json → Option String
  | .null => some "null"
  | .bool b => some (toString b)
  | .num n => some (String.ofList (JsNumber.write (JsNumber.read n.chars)))
  | .str s => some s
  | .arr xs => (elementStrings xs).map ",".intercalate
  | .obj fields => if fields.any (·.1 == "toString") then none else some "[object Object]"

/-- The elements of an array as `join` writes them. -/
def elementStrings : List Json → Option (List String)
  | [] => some []
  | .null :: xs => (elementStrings xs).map ("" :: ·)
  | x :: xs => (stringOf x).bind fun s => (elementStrings xs).map (s :: ·)

end

/-- What `String` throws. -/
def NOT_PRIMITIVE : String := "Cannot convert object to primitive value"

/-- The value of a header. -/
inductive Header where
  | text (value : String)
  | list (values : List String)

/-- The request that a socket was opened with. -/
structure Request where
  forwardedFor : Option Header
  remoteAddress : Option String

/-- `value.split(',')[0].trim()`. -/
def firstPart (value : String) : String :=
  JsText.trim (String.ofList (value.toList.takeWhile (· ≠ ',')))

/-- `_getClientIp`. -/
def getClientIp (req : Request) : String :=
  match req.forwardedFor with
  | some (.list (value :: _)) => firstPart value
  | some (.text value) => firstPart value
  | _ => (req.remoteAddress.filter (· ≠ "")).getD "unknown"

/-- `ip.replace(/^::ffff:/, '')`. -/
def withoutMapping (ip : String) : String :=
  if "::ffff:".toList.isPrefixOf ip.toList then String.ofList (ip.toList.drop 7) else ip

/-! ## 2. The manager -/

def MAX_ASSETS_PER_CLIENT : ℕ := 5

def MAX_MISSED_PINGS : ℕ := 3

/-- `MAX_CONNECTIONS` and `MAX_CONNECTIONS_PER_IP`. -/
structure Config where
  maxConnections : ℕ
  maxConnectionsPerIp : ℕ

/-- The entry of a socket. -/
structure Client where
  assets : RSet String
  missedPings : ℕ

/-- A manager of sockets `ω`.  `drains` are the sockets that each drain so far has frozen. -/
structure Manager (ω : Type) where
  clients : JsMap ω Client
  clientIpBySocket : JsMap ω String
  connectionsByIp : JsMap String ℕ
  assetSubscribers : JsMap String (RSet ω)
  pingTimer : Bool
  draining : Bool
  drains : List (List ω)

namespace Manager

variable {ω : Type}

/-- `new PriceSubscriptionManager()`. -/
def new : Manager ω := ⟨.empty, .empty, .empty, .empty, false, false, []⟩

variable [DecidableEq ω] (config : Config) (m : Manager ω) (ws : ω)

/-- `add`: whether the socket is registered. -/
def add (req : Request) : Bool × Manager ω :=
  if m.draining then (false, m)
  else
    let clientIp := withoutMapping (getClientIp req)
    let currentByIp := (m.connectionsByIp.get? clientIp).getD 0
    if config.maxConnections ≤ m.clients.size || config.maxConnectionsPerIp ≤ currentByIp then
      (false, m)
    else (true, { m with
      clients := m.clients.set ws ⟨.empty, 0⟩
      clientIpBySocket := m.clientIpBySocket.set ws clientIp
      connectionsByIp := m.connectionsByIp.set clientIp (currentByIp + 1) })

/-- One asset of `_removeFromAssetIndex`. -/
def unindex (index : JsMap String (RSet ω)) (ws : ω) (asset : String) : JsMap String (RSet ω) :=
  match index.get? asset with
  | none => index
  | some subs =>
    if (subs.srem ws).members = [] then index.delete asset else index.set asset (subs.srem ws)

/-- `_removeFromAssetIndex`. -/
def removeFromAssetIndex (index : JsMap String (RSet ω)) (ws : ω) (assets : List String) :
    JsMap String (RSet ω) :=
  assets.foldl (fun index asset => unindex index ws asset) index

/-- One asset of `_addToAssetIndex`. -/
def index (index : JsMap String (RSet ω)) (ws : ω) (asset : String) : JsMap String (RSet ω) :=
  index.set asset (((index.get? asset).getD .empty).sadd ws)

/-- `_addToAssetIndex`. -/
def addToAssetIndex (index : JsMap String (RSet ω)) (ws : ω) (assets : List String) :
    JsMap String (RSet ω) :=
  assets.foldl (fun index asset => Manager.index index ws asset) index

/-- One connection less from an address. -/
def countDown (connectionsByIp : JsMap String ℕ) (clientIp : String) : JsMap String ℕ :=
  let nextCount := ((connectionsByIp.get? clientIp).filter (· ≠ 0)).getD 1 - 1
  if nextCount = 0 then connectionsByIp.delete clientIp else connectionsByIp.set clientIp nextCount

/-- `_remove`. -/
def remove : Manager ω :=
  match m.clients.get? ws with
  | none => m
  | some client =>
    let clientIp := ((m.clientIpBySocket.get? ws).filter (· ≠ "")).getD "unknown"
    { m with
      assetSubscribers := removeFromAssetIndex m.assetSubscribers ws client.assets.members
      clients := m.clients.delete ws
      clientIpBySocket := m.clientIpBySocket.delete ws
      connectionsByIp := countDown m.connectionsByIp clientIp }

/-! ## 3. Messages -/

/-- A message to a socket. -/
def errorMessage (message : String) : Json := .obj [("type", .str "error"), ("message", .str message)]

/-- The message that lists the assets of a socket. -/
def assetsMessage (type : String) (assets : RSet String) : Json :=
  .obj [("type", .str type), ("assets", .arr (assets.members.map .str))]

/-- The loop of a subscription: the assets afterwards, and those that were added unless it throws. -/
def subscribeLoop (assets : RSet String) : List Json → RSet String × Option (List String)
  | [] => (assets, some [])
  | a :: requested =>
    if MAX_ASSETS_PER_CLIENT ≤ assets.members.length then (assets, some [])
    else match stringOf a with
      | none => (assets, none)
      | some key =>
        if key ∈ assets then subscribeLoop assets requested
        else
          let rest := subscribeLoop (assets.sadd key) requested
          (rest.1, rest.2.map (key :: ·))

/-- The elements of `msg.assets`, if it is an array. -/
def elementsOf : Option Json → List Json
  | some (.arr xs) => xs
  | _ => []

/-- The manager with the entry of a socket changed. -/
def setClient (client : Client) : Manager ω := { m with clients := m.clients.set ws client }

/-- `subscribe`: what is sent, or thrown. -/
def subscribe (client : Client) (requested : List Json) : Except String Json × Manager ω :=
  let loop := subscribeLoop client.assets requested
  let client' : Client := { client with assets := loop.1 }
  match loop.2 with
  | none => (.error NOT_PRIMITIVE, m.setClient ws client')
  | some added =>
    (.ok (if added.isEmpty && MAX_ASSETS_PER_CLIENT ≤ loop.1.members.length && !requested.isEmpty then
        errorMessage ("Subscription cap reached (" ++ toString MAX_ASSETS_PER_CLIENT ++ " max)")
      else assetsMessage "subscribed" loop.1),
      { m.setClient ws client' with
        assetSubscribers := addToAssetIndex m.assetSubscribers ws added })

/-- `unsubscribe`: what is sent, or thrown. -/
def unsubscribe (client : Client) (toRemove : List Json) : Except String Json × Manager ω :=
  match toRemove.mapM stringOf with
  | none => (.error NOT_PRIMITIVE, m)
  | some keys =>
    let assets := keys.foldl RSet.srem client.assets
    (.ok (assetsMessage "unsubscribed" assets),
      { m.setClient ws { client with assets } with
        assetSubscribers := removeFromAssetIndex m.assetSubscribers ws keys })

/-- `_handleMessage`, for a text that is `none` if it is no JSON: what is sent, if anything, or
thrown. -/
def handleMessage (raw : Option Json) : Except String (Option Json) × Manager ω :=
  match raw with
  | none => (.ok (some (errorMessage "Invalid JSON")), m)
  | some msg =>
    match m.clients.get? ws with
    | none => (.ok none, m)
    | some client =>
      match msg with
      | .null => (.error "Cannot read properties of null (reading 'action')", m)
      | msg =>
        if Json.isStr (msg.get? "action") "subscribe" then
          let r := m.subscribe ws client (elementsOf (msg.get? "assets"))
          (r.1.map some, r.2)
        else if Json.isStr (msg.get? "action") "unsubscribe" then
          let r := m.unsubscribe ws client (elementsOf (msg.get? "assets"))
          (r.1.map some, r.2)
        else if Json.isStr (msg.get? "action") "pong" then
          (.ok none, m.setClient ws { client with missedPings := 0 })
        else match (msg.get? "action").elim (some "undefined") stringOf with
          | none => (.error NOT_PRIMITIVE, m)
          | some action => (.ok (some (errorMessage ("Unknown action: " ++ action))), m)

/-! ## 4. Heartbeat and drain -/

/-- The sockets that have missed too many pings. -/
def timedOut : List ω :=
  (m.clients.entries.filter fun e => MAX_MISSED_PINGS ≤ e.2.missedPings).map Prod.fst

/-- A ping to every other socket. -/
def pinged : Manager ω :=
  { m with clients := m.clients.mapValues fun _ client =>
      if MAX_MISSED_PINGS ≤ client.missedPings then client
      else { client with missedPings := client.missedPings + 1 } }

/-- The sockets before the first one whose `terminate` throws. -/
def terminated (throws : ω → Bool) (sockets : List ω) : List ω := sockets.takeWhile fun ws => !throws ws

/-- The sockets are removed one after the other. -/
def removeAll (sockets : List ω) : Manager ω := sockets.foldl Manager.remove m

/-- The callback of `startHeartbeat`'s timer. -/
def heartbeat (throws : ω → Bool) : Manager ω :=
  if m.pingTimer then m.pinged.removeAll (terminated throws m.timedOut) else m

/-- `drain`, up to its timers. -/
def drain : Manager ω :=
  { m with pingTimer := false, draining := true, drains := m.drains ++ [m.clients.keys] }

/-- The deadline of the `n`-th drain.  What `terminate` throws is caught. -/
def deadline (n : ℕ) : Manager ω := m.removeAll (m.drains.getD n [])

/-! ## 5. Events -/

/-- What happens to a manager.  Between the warning of a drain and its deadline only close frames are
sent. -/
inductive Event (ω : Type) where
  | add (ws : ω) (req : Request)
  | message (ws : ω) (raw : Option Json)
  | close (ws : ω)
  | error (ws : ω)
  | startHeartbeat
  | heartbeat (throws : ω → Bool)
  | drain
  | deadline (n : ℕ)

/-- The manager after an event. -/
def step (m : Manager ω) : Event ω → Manager ω
  | .add ws req => (m.add config ws req).2
  | .message ws raw => (m.handleMessage ws raw).2
  | .close ws => m.remove ws
  | .error ws => m.remove ws
  | .startHeartbeat => { m with pingTimer := true }
  | .heartbeat throws => m.heartbeat throws
  | .drain => m.drain
  | .deadline n => m.deadline n

end Manager

end SmartDrop.Ws
