/-
# Sessions

`auth/session.js`.  A session is a JSON record with a time to live (`session:<id>`); its id is
also in the sorted set of active sessions and in the set of its user's sessions, which is where
`invalidateAllUserSessions` finds it.  `validateSession` reads the record, decides, and writes
it back with its idle expiry moved, at most once in the throttle window.

Dates are texts; one that does not parse is `NaN`, modelled as `none`.
-/
import SmartDrop.Lib.Prog
import SmartDrop.Lib.RedisTypes
import Mathlib.Data.String.Basic

namespace SmartDrop.Sessions

open Conc Redis

/-! ## 1. Data -/

/-- What the module is given: the text form of dates, and UUIDs without their dashes. -/
structure Platform where
  dateParse : String → Option ℕ
  toISOString : ℕ → String
  randomUUID : ℕ → String

/-- The configuration, in seconds. -/
structure Config where
  ABSOLUTE_LIFETIME_SECONDS : ℕ := 24 * 60 * 60
  IDLE_TIMEOUT_SECONDS : ℕ := 30 * 60
  ACTIVITY_THROTTLE_SECONDS : ℕ := 60
  CLOCK_SKEW_SECONDS : ℕ := 60

/-- The record of a session; a legacy one lacks the expiry fields. -/
structure Session where
  id : String
  user_id : String
  active : Option Bool
  created_at : Option String
  last_activity_at : Option String
  last_validated_at : Option String
  absolute_expires_at : Option String
  idle_expires_at : Option String
  ip_address : Option String
  user_agent : Option String
deriving DecidableEq

/-- A message that is thrown. -/
abbrev Err := String

/-! ## 2. Redis, as the module uses it -/

/-- The records, the index of active sessions by expiry, the sessions of every user, and how
many UUIDs have been drawn. -/
structure Store where
  sessions : String → Option (Timed Session)
  active : ZSet ℕ String
  userSessions : String → RSet String
  uuidsDrawn : ℕ

def Store.init : Store := ⟨fun _ => none, .empty, fun _ => .empty, 0⟩

/-- The atomic steps of the module.  `multiForget` is the transaction that takes some ids out of
the active index and deletes the set of a user. -/
inductive Op where
  | now
  | randomUUID
  | getSession (id : String)
  | setSession (id : String) (record : Session) (ttlSeconds : ℕ)
  | delSession (id : String)
  | zaddActive (score : ℕ) (id : String)
  | zremActive (id : String)
  | saddUser (userId id : String)
  | sremUser (userId id : String)
  | smembersUser (userId : String)
  | multiForget (ids : List String) (userId : String)

/-- Their replies. -/
abbrev Op.Ret : Op → Type
  | .now => ℕ
  | .randomUUID => String
  | .getSession _ => Option Session
  | .smembersUser _ => List String
  | .setSession .. | .delSession _ | .zaddActive .. | .zremActive _ | .saddUser .. | .sremUser ..
  | .multiForget .. => Unit

abbrev sig : Sig := ⟨Op, Op.Ret⟩

/-- What a step replies and does at the time `now`. -/
def Store.exec (P : Platform) (now : ℕ) (s : Store) : (op : Op) → op.Ret × Store
  | .now => (now, s)
  | .randomUUID => (P.randomUUID s.uuidsDrawn, { s with uuidsDrawn := s.uuidsDrawn + 1 })
  | .getSession id => (Timed.readAt now (s.sessions id), s)
  | .setSession id record ttlSeconds =>
    ((), { s with
      sessions := Function.update s.sessions id (some ⟨record, some (now + ttlSeconds * 1000)⟩) })
  | .delSession id => ((), { s with sessions := Function.update s.sessions id none })
  | .zaddActive score id => ((), { s with active := s.active.zadd score id })
  | .zremActive id => ((), { s with active := s.active.zrem id })
  | .saddUser userId id => ((), { s with
      userSessions := Function.update s.userSessions userId ((s.userSessions userId).sadd id) })
  | .sremUser userId id => ((), { s with
      userSessions := Function.update s.userSessions userId ((s.userSessions userId).srem id) })
  | .smembersUser userId => ((s.userSessions userId).members, s)
  | .multiForget ids userId => ((), { s with
      active := s.active.zremAll ids
      userSessions := Function.update s.userSessions userId .empty })

/-- Redis, the clock and the random source. -/
def machine (P : Platform) : Machine sig Unit ℕ Store where
  exec _ op now s := s.exec P now op

/-- A piece of the module's code. -/
abbrev Code := Throws sig Err

def redis (op : Op) : Code op.Ret := Throws.call (S := sig) op

/-! ## 3. The module -/

variable (P : Platform) (config : Config)

/-- A text that is there and not empty. -/
def given (text : Option String) : Option String := text.filter (· ≠ "")

/-- `Date.parse` of a field. -/
def parseDate (text : Option String) : Option ℕ := text.bind P.dateParse

/-- The expiry boundaries of a session in milliseconds. -/
structure Timestamps where
  createdAtMs : ℕ
  lastActivityMs : ℕ
  absoluteExpiresAtMs : Option ℕ
  idleExpiresAtMs : Option ℕ

/-- `Date.parse(created_at) || Date.now()`. -/
def createdAt (record : Session) : Code ℕ :=
  match (parseDate P record.created_at).filter (· ≠ 0) with
  | some t => pure t
  | none => redis .now

/-- `getSessionTimestamps`. -/
def getSessionTimestamps (record : Session) : Code Timestamps := do
  let createdAtMs ← createdAt P record
  let lastActivityMs := ((parseDate P (given record.last_activity_at <|>
    record.last_validated_at)).filter (· ≠ 0)).getD createdAtMs
  return {
    createdAtMs
    lastActivityMs
    absoluteExpiresAtMs := match given record.absolute_expires_at with
      | some text => P.dateParse text
      | none => some (createdAtMs + config.ABSOLUTE_LIFETIME_SECONDS * 1000)
    idleExpiresAtMs := match given record.idle_expires_at with
      | some text => P.dateParse text
      | none => some (lastActivityMs + config.IDLE_TIMEOUT_SECONDS * 1000) }

/-- A time is past a boundary by more than the leeway; nothing is past `NaN`. -/
def isPast (nowMs : ℕ) (boundary : Option ℕ) : Bool :=
  boundary.any fun t => t + config.CLOCK_SKEW_SECONDS * 1000 < nowMs

/-- `isSessionExpired`. -/
def isSessionExpired (record : Session) (nowMs : ℕ) : Code Bool := do
  if record.active = some false then return true
  let t ← getSessionTimestamps P config record
  return isPast config nowMs t.absoluteExpiresAtMs || isPast config nowMs t.idleExpiresAtMs

/-- The time to live of a session that expires at `t`. -/
def ttlUntil (t nowMs : ℕ) : ℕ := max 1 ((t - nowMs + 999) / 1000)

/-- `createSession`. -/
def createSession (userId : String) (ipAddress userAgent : Option String) : Code Session := do
  if userId = "" then throw "createSession: userId is required"
  let nowMs : ℕ ← redis .now
  let absoluteExpiresAtMs := nowMs + config.ABSOLUTE_LIFETIME_SECONDS * 1000
  let idleExpiresAtMs := nowMs + config.IDLE_TIMEOUT_SECONDS * 1000
  let uuid ← redis .randomUUID
  let record : Session := {
    id := "sess_" ++ uuid
    user_id := userId
    active := some true
    created_at := some (P.toISOString nowMs)
    last_activity_at := some (P.toISOString nowMs)
    last_validated_at := none
    absolute_expires_at := some (P.toISOString absoluteExpiresAtMs)
    idle_expires_at := some (P.toISOString idleExpiresAtMs)
    ip_address := given ipAddress
    user_agent := given userAgent }
  redis (.setSession record.id record (ttlUntil absoluteExpiresAtMs nowMs))
  redis (.zaddActive (min absoluteExpiresAtMs idleExpiresAtMs) record.id)
  redis (.saddUser userId record.id)
  return record

/-- `invalidateSession`. -/
def invalidateSession (sessionId : String) : Code Bool := do
  if sessionId = "" then return false
  let record ← redis (.getSession sessionId)
  redis (.delSession sessionId)
  redis (.zremActive sessionId)
  match record with
  | none => return true
  | some record =>
    unless record.user_id = "" do redis (.sremUser record.user_id sessionId)
    return true

/-- The record of a session that was active at `nowMs`; a boundary that is `NaN` has no text. -/
def touched (record : Session) (nowMs absoluteExpiresAtMs newIdleExpiresAtMs : ℕ) : Session :=
  { record with
    last_activity_at := some (P.toISOString nowMs)
    idle_expires_at := some (P.toISOString newIdleExpiresAtMs)
    absolute_expires_at :=
      given record.absolute_expires_at <|> some (P.toISOString absoluteExpiresAtMs) }

/-- The part of `validateSession` that writes the activity of an unexpired session. -/
def refreshSession (sessionId : String) (record : Session) (nowMs : ℕ) : Code Session := do
  let t ← getSessionTimestamps P config record
  if nowMs < t.lastActivityMs + config.ACTIVITY_THROTTLE_SECONDS * 1000 then return record
  match t.absoluteExpiresAtMs with
  | none => throw "Invalid time value"
  | some absoluteExpiresAtMs =>
    let newIdleExpiresAtMs := min (nowMs + config.IDLE_TIMEOUT_SECONDS * 1000) absoluteExpiresAtMs
    let updatedRecord := touched P record nowMs absoluteExpiresAtMs newIdleExpiresAtMs
    redis (.setSession sessionId updatedRecord (ttlUntil newIdleExpiresAtMs nowMs))
    redis (.zaddActive newIdleExpiresAtMs sessionId)
    return updatedRecord

/-- The options of `validateSession`. -/
structure ValidateOptions where
  touch : Bool := true
  now : Option ℕ := none

/-- The time that a call of `validateSession` works with. -/
def clock (options : ValidateOptions) : Code ℕ :=
  match options.now with
  | some t => pure t
  | none => redis .now

/-- `validateSession`. -/
def validateSession (sessionId : String) (options : ValidateOptions) : Code (Option Session) := do
  let nowMs ← clock options
  if sessionId = "" then return none
  match ← redis (.getSession sessionId) with
  | none => return none
  | some record =>
    let expired ← isSessionExpired P config record nowMs
    if expired then
      let _ ← invalidateSession sessionId
      return none
    if !options.touch then return some record
    let session ← refreshSession P config sessionId record nowMs
    return some session

/-- Delete some sessions, one after the other. -/
def delSessions : List String → Code Unit
  | [] => pure ()
  | id :: ids => do
    redis (.delSession id)
    delSessions ids

/-- `invalidateAllUserSessions`. -/
def invalidateAllUserSessions (userId : String) : Code ℕ := do
  if userId = "" then return 0
  let sessionIds ← redis (.smembersUser userId)
  if sessionIds = [] then return 0
  delSessions sessionIds
  redis (.multiForget sessionIds userId)
  return sessionIds.length

end SmartDrop.Sessions
