/-
# The API key store

`services/apiKeys.js` with the part of `services/cache.js` it goes through.  A key is kept in
three places: its record (`api_key:<id>`, JSON text), a hash entry that leads from the key's
SHA-256 to its id (`api_key_hash:<hash>`) and the list of ids (`api_keys`).  Redis stores
strings; `cache.get` reads them with `JSON.parse` and takes a text that does not parse as a
miss.  The store is written through `MULTI`, with texts the module makes itself.

Records stay `Json` values, since the code spreads and patches them field by field.
-/
import SmartDrop.Lib.Prog
import SmartDrop.Lib.RedisTypes
import SmartDrop.Lib.JsonRoundTrip
import Mathlib.Algebra.Order.Floor.Ring
import Mathlib.Data.Rat.Floor
import Mathlib.Order.Basic
import Mathlib.Data.String.Basic

namespace SmartDrop.ApiKeys

open Conc Redis JsonText

/-! ## 1. What the module is given -/

/-- The parts of the platform the module calls: `crypto` and the text form of dates.
`randomKey n` is the text of the `n`-th `crypto.randomBytes(32)`, `randomUUID n` the `n`-th
UUID without its dashes.  No UUID comes twice, and no two keys have one SHA-256. -/
structure Platform where
  sha256 : String → String
  toISOString : ℕ → String
  dateParse : String → Option ℕ
  randomKey : ℕ → String
  randomUUID : ℕ → String
  hash_inj : Function.Injective fun n => sha256 (randomKey n)
  uuid_inj : Function.Injective randomUUID

/-- The configuration it reads: `config.auth` and `config.apiKeyRateLimit`. -/
structure Config where
  adminApiKey : String
  apiKeyRotationGraceSeconds : ℚ
  tiers : List (String × ℕ)
  defaultTier : String

/-! ## 2. Redis, as the module uses it -/

/-- The strings of the database, the sorted set `api_keys`, and how much randomness has been
drawn so far. -/
structure Store where
  strings : String → Option String
  ids : ZSet ℕ String
  keysDrawn : ℕ
  uuidsDrawn : ℕ

/-- The database before the first key. -/
def Store.init : Store := ⟨fun _ => none, .empty, 0, 0⟩

/-- What the module puts in a `MULTI`; `zadd` and `zrem` are on `IDS_KEY`. -/
inductive Command where
  | set (key value : String)
  | del (key : String)
  | zadd (score : ℕ) (id : String)
  | zrem (id : String)

/-- One command of a transaction. -/
def Command.apply (s : Store) : Command → Store
  | .set key value => { s with strings := Function.update s.strings key (some value) }
  | .del key => { s with strings := Function.update s.strings key none }
  | .zadd score id => { s with ids := s.ids.zadd score id }
  | .zrem id => { s with ids := s.ids.zrem id }

/-- The atomic steps of the module. -/
inductive Op where
  | now
  | randomBytes
  | randomUUID
  | get (key : String)
  | mget (keys : List String)
  | zrevrange
  | multi (cmds : List Command)

/-- Their replies. -/
def sig : Sig where
  Op := Op
  Rep
    | .now => ℕ
    | .randomBytes => String
    | .randomUUID => String
    | .get _ => Option String
    | .mget _ => List (Option String)
    | .zrevrange => List String
    | .multi _ => Unit

/-- Redis, the clock (the environment's answer at a step) and the random source. -/
def machine (P : Platform) : Machine sig Unit ℕ Store where
  exec _ op t s := match op with
    | .now => (t, s)
    | .randomBytes => (P.randomKey s.keysDrawn, { s with keysDrawn := s.keysDrawn + 1 })
    | .randomUUID => (P.randomUUID s.uuidsDrawn, { s with uuidsDrawn := s.uuidsDrawn + 1 })
    | .get key => (s.strings key, s)
    | .mget keys => (keys.map s.strings, s)
    | .zrevrange => (s.ids.zrange.reverse, s)
    | .multi cmds => ((), cmds.foldl Command.apply s)

/-- A piece of the module's code. -/
abbrev Code := Prog sig

/-- `Date.now()`. -/
def dateNow : Code ℕ := Prog.call (S := sig) .now

/-- `generateApiKey`: the text of `crypto.randomBytes(32)`. -/
def generateApiKey : Code String := Prog.call (S := sig) .randomBytes

/-- `crypto.randomUUID()`, without its dashes. -/
def randomUUID : Code String := Prog.call (S := sig) .randomUUID

/-- A transaction. -/
def multiExec (cmds : List Command) : Code Unit := Prog.call (S := sig) (.multi cmds)

/-! ## 3. The cache layer -/

namespace Cache

/-- What `get` makes of the text it read: a missing, empty or unreadable one is `null`. -/
def decode (data : Option String) : Option Json :=
  match data with
  | none => none
  | some text => if text = "" then none else parse text

/-- `cache.get`. -/
def get (key : String) : Code (Option Json) := do
  let data ← Prog.call (S := sig) (.get key)
  return decode data

/-- `cache.mget`. -/
def mget (keys : List String) : Code (List (Option Json)) := do
  if keys.isEmpty then return []
  let raw ← Prog.call (S := sig) (.mget keys)
  return raw.map decode

/-- `cache.set` without a TTL. -/
def set (key : String) (value : Json) : Code Unit :=
  multiExec [.set key (stringify value)]

end Cache

/-! ## 4. The module -/

/-- `keyPath`. -/
def keyPath (id : String) : String := "api_key:" ++ id

/-- `hashPath`. -/
def hashPath (hash : String) : String := "api_key_hash:" ++ hash

/-- `keyId`: the id made of a UUID. -/
def keyId (uuid : String) : String := "key_" ++ uuid

/-- `sanitize`: a record without its hash. -/
def sanitize : Json → Json
  | .obj fields => .obj (fields.filter fun f => f.1 ≠ "key_hash")
  | v => v

/-- The first characters of a key, shown to its owner. -/
def keyPrefix (apiKey : String) : String := String.ofList (apiKey.toList.take 8)

/-- `getKey`. -/
def getKey (id : String) : Code (Option Json) := Cache.get (keyPath id)

/-- `normalizeTier`. -/
def normalizeTier (cfg : Config) (tier : Option String) : String :=
  match tier with
  | some t => if cfg.tiers.any (fun e => e.1 == t) then t else cfg.defaultTier
  | none => cfg.defaultTier

/-- `Date.parse` of a field; `none` is `NaN`, also for a value that is not a string. -/
def parseDate (P : Platform) : Option Json → Option ℕ
  | some (.str s) => P.dateParse s
  | _ => none

/-- `listKeys`. -/
def listKeys (P : Platform) : Code (List Json) := do
  let ids ← Prog.call (S := sig) .zrevrange
  if ids.isEmpty then return []
  let records ← Cache.mget (ids.map keyPath)
  let now ← dateNow
  return (records.filterMap id |>.filter fun record =>
    !Json.truthy (record.get? "expires_at") ||
      (parseDate P (record.get? "expires_at")).any fun t => now < t).map sanitize

/-- What `createKey` returns. -/
structure Created where
  apiKey : String
  id : String
  key : Json

/-- `createKey`. -/
def createKey (P : Platform) (cfg : Config) (label : String) (scopes : List String)
    (tier : Option String) : Code Created := do
  let apiKey ← generateApiKey
  let hashed := P.sha256 apiKey
  let now ← dateNow
  let uuid ← randomUUID
  let id := keyId uuid
  let record := Json.obj [
    ("id", .str id),
    ("label", .str label),
    ("key_prefix", .str (keyPrefix apiKey)),
    ("key_hash", .str hashed),
    ("scopes", .arr (scopes.map .str)),
    ("tier", .str (normalizeTier cfg tier)),
    ("created_at", .str (P.toISOString now)),
    ("last_used_at", .null)]
  let score ← dateNow
  multiExec [
    .set (keyPath id) (stringify record),
    .set (hashPath hashed) id,
    .zadd score id]
  return { apiKey, id, key := sanitize record }

/-- `revokeKey`. -/
def revokeKey (id : String) : Code (Option Json) := do
  match ← getKey id with
  | none => return none
  | some record =>
    multiExec [
      .del (keyPath id),
      .del (hashPath (fieldText (record.get? "key_hash"))),
      .zrem id]
    return some (sanitize record)

/-- `touch`. -/
def touch (P : Platform) (record : Json) : Code Json := do
  let now ← dateNow
  let updated := record.spread [("last_used_at", .str (P.toISOString now))]
  Cache.set (keyPath (fieldText (record.get? "id"))) updated
  return sanitize updated

/-- The options of `rotateKey`; a grace period that is not a finite number is left out. -/
structure RotateOptions where
  tier : Option String
  gracePeriodSeconds : Option ℚ

/-- The grace period of a rotation: the caller's or the configured one, never negative. -/
def graceSeconds (cfg : Config) (options : RotateOptions) : ℚ :=
  max 0 (options.gracePeriodSeconds.getD cfg.apiKeyRotationGraceSeconds)

/-- The time at which a grace period that starts at `now` ends. -/
def graceEnd (cfg : Config) (options : RotateOptions) (now : ℕ) : ℕ :=
  ⌊(now : ℚ) + graceSeconds cfg options * 1000⌋.toNat

/-- What `rotateKey` returns. -/
structure Rotated where
  apiKey : String
  id : String
  key : Json
  rotatedFrom : Json
  previousKeyExpiresAt : Option String

/-- The record of a key's replacement. -/
def rotatedRecord (P : Platform) (cfg : Config) (options : RotateOptions) (oldRecord : Json)
    (apiKey id hashed : String) (now : ℕ) : Json :=
  Json.ofFields [
    ("id", some (.str id)),
    ("label", oldRecord.get? "label"),
    ("key_prefix", some (.str (keyPrefix apiKey))),
    ("key_hash", some (.str hashed)),
    ("scopes", oldRecord.get? "scopes"),
    ("tier", if options.tier.any (· ≠ "") then some (.str (normalizeTier cfg options.tier))
      else oldRecord.get? "tier"),
    ("created_at", some (.str (P.toISOString now))),
    ("rotated_at", some (.str (P.toISOString now))),
    ("rotated_from", oldRecord.get? "id"),
    ("rotation_count", some (.ofNat (((oldRecord.get? "rotation_count").bind Json.toNat?).getD 0 + 1))),
    ("last_used_at", some .null)]

/-- `rotateKey`. -/
def rotateKey (P : Platform) (cfg : Config) (id : String) (options : RotateOptions) :
    Code (Option Rotated) := do
  match ← getKey id with
  | none => return none
  | some oldRecord =>
    let apiKey ← generateApiKey
    let hashed := P.sha256 apiKey
    let now ← dateNow
    let uuid ← randomUUID
    let newId := keyId uuid
    let newRecord := rotatedRecord P cfg options oldRecord apiKey newId hashed now
    let score ← dateNow
    let issue : List Command := [
      .set (keyPath newId) (stringify newRecord),
      .set (hashPath hashed) newId,
      .zadd score newId]
    if 0 < graceSeconds cfg options then
      let start ← dateNow
      let expiresAt := P.toISOString (graceEnd cfg options start)
      let retiredRecord := oldRecord.spread [
        ("revoked_at", .str (P.toISOString now)),
        ("expires_at", .str expiresAt),
        ("rotated_to", .str newId)]
      let retired ← dateNow
      multiExec (issue ++ [
        .set (keyPath id) (stringify retiredRecord),
        .zadd retired id])
      return some ⟨apiKey, newId, sanitize newRecord, sanitize oldRecord, some expiresAt⟩
    else
      multiExec (issue ++ [
        .del (keyPath id),
        .del (hashPath (fieldText (oldRecord.get? "key_hash"))),
        .zrem id])
      return some ⟨apiKey, newId, sanitize newRecord, sanitize oldRecord, none⟩

/-- The bootstrap admin key, compared by its digest. -/
def isAdminKey (P : Platform) (cfg : Config) (apiKey : String) : Bool :=
  cfg.adminApiKey ≠ "" && P.sha256 apiKey == P.sha256 cfg.adminApiKey

/-- `validateApiKey` after the hash lookup: `id` is what the hash entry held. -/
def validateFound (P : Platform) (cfg : Config) (hashed : String) (id : Option Json) :
    Code (Option Json) := do
  match id with
  | none => return none
  | some id =>
    if !Json.truthy (some id) then return none
    match ← getKey (templateText id) with
    | none => return none
    | some record =>
      if !Json.isStr (record.get? "key_hash") hashed then return none
      let now ← if Json.truthy (record.get? "expires_at") then dateNow else pure 0
      if Json.truthy (record.get? "expires_at") &&
          (parseDate P (record.get? "expires_at")).any fun t => t ≤ now then
        multiExec [
          .del (keyPath (fieldText (record.get? "id"))),
          .del (hashPath (fieldText (record.get? "key_hash"))),
          .zrem (fieldText (record.get? "id"))]
        return none
      let record := if Json.truthy (record.get? "tier") then record
        else record.spread [("tier", .str cfg.defaultTier)]
      return some (← touch P record)

/-- `validateApiKey`. -/
def validateApiKey (P : Platform) (cfg : Config) (apiKey : String) : Code (Option Json) := do
  if apiKey = "" then return none
  if isAdminKey P cfg apiKey then
    let now ← dateNow
    return some (.obj [
      ("id", .str "admin"),
      ("label", .str "Bootstrap admin key"),
      ("key_prefix", .str (keyPrefix apiKey)),
      ("scopes", .arr [.str "admin"]),
      ("tier", .str "admin"),
      ("created_at", .null),
      ("last_used_at", .str (P.toISOString now))])
  let hashed := P.sha256 apiKey
  let id ← Cache.get (hashPath hashed)
  validateFound P cfg hashed id

end SmartDrop.ApiKeys
