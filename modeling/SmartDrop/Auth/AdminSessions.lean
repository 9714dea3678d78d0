/-
# Admin sessions

`services/adminSession.js`.  The record of a session says when it expires, and `validateSession` moves
that; the index of active sessions has each of them with the score that it got when it was created.
Cleanup and listing go by the scores, so they are right about the sessions that are alive only up to the
limit that was the first of each (`firstLimit`): `faithful_iff`.

`createSession` never gets to its index writes, because it names `ADMINS_KEY`, which is not declared.
What is looked at here are sessions that are indexed by these writes all the same (`Label.create`).
Calls follow each other, each at one time.
-/
import SmartDrop.Auth.SessionLifetime
import SmartDrop.Lib.Run

namespace SmartDrop.AdminSessions

open Conc Redis
open Sessions (Platform given parseDate)

/-! ## 1. Data -/

/-- The configuration, in seconds. -/
structure Config where
  SESSION_ABSOLUTE_LIFETIME_SECONDS : ℕ := 12 * 60 * 60
  SESSION_IDLE_TIMEOUT_SECONDS : ℕ := 30 * 60
  SESSION_ACTIVITY_THROTTLE_SECONDS : ℕ := 60
  CLOCK_SKEW_SECONDS : ℕ := 60

/-- The record of a session.  `active` is `none` where it is missing. -/
structure Session where
  id : String
  admin_id : String
  active : Option Bool
  created_at : Option String
  expires_at : Option String
  absolute_expires_at : Option String
  idle_expires_at : Option String
  last_validated_at : Option String
  last_activity_at : Option String
  ip_address : Option String
  user_agent : Option String
deriving DecidableEq

/-- An index: a sorted set that expires. -/
abbrev Index := Option (Timed (ZSet ℕ String))

/-- The clock, the records, the index of each admin and the one of all, and when each session was created
last. -/
structure System where
  now : ℕ
  sessions : String → Option (Timed Session)
  adminSessions : String → Index
  active : Index
  created : String → Option ℕ

/-- At the beginning. -/
def System.init : System := ⟨0, fun _ => none, fun _ => none, none, fun _ => none⟩

namespace Index

variable (now : ℕ) (index : Index)

/-- What is read of an index. -/
def read : ZSet ℕ String := (Timed.readAt now index).getD .empty

/-- `ZADD`, of a key that keeps its time to live. -/
def zadd (score : ℕ) (id : String) : Index :=
  some ⟨(read now index).zadd score id, (index.filter fun e => e.LiveAt now).bind (·.expiresAt)⟩

/-- `EXPIRE`. -/
def expire (seconds : ℕ) : Index :=
  (index.filter fun e => e.LiveAt now).map fun e => ⟨e.value, some (now + seconds * 1000)⟩

/-- `ZREM` of some members.  A set without a member is gone. -/
def zrem (ids : List String) : Index :=
  (index.filter fun e => e.LiveAt now ∧ (e.value.zremAll ids).entries ≠ []).map fun e =>
    ⟨e.value.zremAll ids, e.expiresAt⟩

end Index

/-! ## 2. The module -/

variable (P : Platform) (config : Config)

/-- `Date.parse(record.created_at) || nowMs`. -/
def createdAtMs (record : Session) (nowMs : ℕ) : ℕ :=
  ((parseDate P record.created_at).filter (· ≠ 0)).getD nowMs

/-- `Date.parse(record.last_activity_at || record.last_validated_at) || createdAtMs`. -/
def lastActivityMs (record : Session) (nowMs : ℕ) : ℕ :=
  ((parseDate P (given record.last_activity_at <|> record.last_validated_at)).filter (· ≠ 0)).getD
    (createdAtMs P record nowMs)

/-- The absolute limit of a session; `none` is `NaN`. -/
def absoluteExpiresAtMs (record : Session) (nowMs : ℕ) : Option ℕ :=
  match given record.absolute_expires_at with
  | some text => P.dateParse text
  | none =>
    match given record.expires_at with
    | some text => P.dateParse text
    | none => some (createdAtMs P record nowMs + config.SESSION_ABSOLUTE_LIFETIME_SECONDS * 1000)

/-- The idle limit of a session. -/
def idleExpiresAtMs (record : Session) (nowMs : ℕ) : Option ℕ :=
  match given record.idle_expires_at with
  | some text => P.dateParse text
  | none => some (lastActivityMs P record nowMs + config.SESSION_IDLE_TIMEOUT_SECONDS * 1000)

/-- `isExpired`. -/
def isExpired (record : Session) (nowMs : ℕ) : Bool :=
  let leewayMs := config.CLOCK_SKEW_SECONDS * 1000
  if record.active = some false then true
  else
    match absoluteExpiresAtMs P config record nowMs with
    | none => true
    | some absolute =>
      if absolute + leewayMs < nowMs then true
      else (idleExpiresAtMs P config record nowMs).any fun idle => idle + leewayMs < nowMs

namespace System

variable (s : System)

/-- `cache.get` of a session. -/
def getRecord (id : String) : Option Session := Timed.readAt s.now (s.sessions id)

/-- `cache.set` of a session. -/
def setRecord (id : String) (record : Session) (ttlSeconds : ℕ) : System :=
  { s with
    sessions := Function.update s.sessions id (some ⟨record, some (s.now + ttlSeconds * 1000)⟩) }

/-- `cache.del` of some sessions. -/
def delRecords (ids : List String) : System :=
  { s with sessions := fun id => if id ∈ ids then none else s.sessions id }

/-- The record of a new session. -/
def newSession (id adminId : String) (ipAddress userAgent : Option String) : Session where
  id := id
  admin_id := adminId
  active := some true
  created_at := some (P.toISOString s.now)
  expires_at := some (P.toISOString (s.now + config.SESSION_ABSOLUTE_LIFETIME_SECONDS * 1000))
  absolute_expires_at :=
    some (P.toISOString (s.now + config.SESSION_ABSOLUTE_LIFETIME_SECONDS * 1000))
  idle_expires_at := some (P.toISOString (s.now + config.SESSION_IDLE_TIMEOUT_SECONDS * 1000))
  last_validated_at := some (P.toISOString s.now)
  last_activity_at := some (P.toISOString s.now)
  ip_address := given ipAddress
  user_agent := given userAgent

/-- The score of a session that is created at `now`. -/
def effectiveExpiryMs (now : ℕ) : ℕ :=
  min (now + config.SESSION_ABSOLUTE_LIFETIME_SECONDS * 1000)
    (now + config.SESSION_IDLE_TIMEOUT_SECONDS * 1000)

/-- The time to live of what `createSession` writes. -/
def ttlSeconds : ℕ := max 1 config.SESSION_ABSOLUTE_LIFETIME_SECONDS

/-- `createSession`, whose id is drawn.  The commands that it queues are dropped when it throws. -/
def createSession (id adminId : String) (ipAddress userAgent : Option String) :
    Except String Session × System :=
  if adminId = "" then (.error "adminSession.createSession: adminId is required", s)
  else
    (.error "ADMINS_KEY is not defined",
      s.setRecord id (s.newSession P config id adminId ipAddress userAgent) (ttlSeconds config))

/-- The index writes that `createSession` queues. -/
def indexWrites (id adminId : String) : System :=
  let score := effectiveExpiryMs config s.now
  { s with
    adminSessions := Function.update s.adminSessions adminId
      (((s.adminSessions adminId).zadd s.now score id).expire s.now (ttlSeconds config))
    active := (s.active.zadd s.now score id).expire s.now (ttlSeconds config) }

/-- `removeFromIndexes`, of the sessions that are listed with their admins. -/
def removeFromIndexes (record : Session) : System :=
  { s with
    adminSessions := Function.update s.adminSessions record.admin_id
      ((s.adminSessions record.admin_id).zrem s.now [record.id])
    active := s.active.zrem s.now [record.id] }

/-- The record of a session that was used at `nowMs`. -/
def refreshed (record : Session) (nowMs absolute newIdleExpiresAtMs : ℕ) : Session :=
  { record with
    last_validated_at := some (P.toISOString nowMs)
    last_activity_at := some (P.toISOString nowMs)
    idle_expires_at := some (P.toISOString newIdleExpiresAtMs)
    absolute_expires_at := given record.absolute_expires_at <|> some (P.toISOString absolute) }

/-- `validateSession`. -/
def validateSession (sessionId : String) : Option Session × System :=
  if sessionId = "" then (none, s)
  else
    match s.getRecord sessionId with
    | none => (none, s)
    | some record =>
      if isExpired P config record s.now then
        (none, (s.removeFromIndexes record).delRecords [sessionId])
      else
        match absoluteExpiresAtMs P config record s.now with
        -- a session whose absolute limit is `NaN` is expired
        | none => (none, s)
        | some absolute =>
          if s.now < lastActivityMs P record s.now + config.SESSION_ACTIVITY_THROTTLE_SECONDS * 1000
          then (some record, s)
          else
            let newIdleExpiresAtMs := min (s.now + config.SESSION_IDLE_TIMEOUT_SECONDS * 1000) absolute
            let record := refreshed P record s.now absolute newIdleExpiresAtMs
            (some record,
              s.setRecord sessionId record (Sessions.ttlUntil newIdleExpiresAtMs s.now))

/-- The ids that a cleanup takes. -/
def expiredIds (limit : ℕ) : List String := (s.active.read s.now).zrangebyscore s.now limit

/-- `cleanupExpiredSessions`, with `{ cleaned, checked }`. -/
def cleanupExpiredSessions (limit : ℕ) : (ℕ × ℕ) × System :=
  let ids := s.expiredIds limit
  if ids = [] then ((0, 0), s)
  else
    let owned (adminId : String) (id : String) : Bool :=
      (s.getRecord id).any fun record => record.admin_id = adminId ∧ adminId ≠ ""
    ((ids.length, ids.length), { s with
      active := s.active.zrem s.now ids
      adminSessions := fun adminId =>
        (s.adminSessions adminId).zrem s.now (ids.filter (owned adminId)) }.delRecords ids)

/-- How many sessions a call of `getAllActiveSessions` looks at. -/
def pageSize (limit : ℕ) : ℕ := max 1 (min limit 1000)

/-- `getAllActiveSessions`. -/
def getAllActiveSessions (limit offset : ℕ) : List Session :=
  let ids := (s.active.read s.now).zrangebyscoreFrom s.now offset (pageSize limit)
  (ids.filterMap s.getRecord).filter fun record => !isExpired P config record s.now

end System

/-- What can happen: time passes, a session is created and indexed, or a function is called. -/
inductive Label where
  | tick (ms : ℕ)
  | create (id adminId : String) (ipAddress userAgent : Option String)
  | validate (sessionId : String)
  | cleanup (limit : ℕ)
  | list (limit : ℕ)

/-- One step. -/
def step (s : System) : Label → System
  | .tick ms => { s with now := s.now + ms }
  | .create id adminId ipAddress userAgent =>
    if adminId = "" then s
    else
      { (s.createSession P config id adminId ipAddress userAgent).2.indexWrites config id adminId with
        created := Function.update s.created id (some s.now) }
  | .validate sessionId => (s.validateSession P config sessionId).2
  | .cleanup limit => (s.cleanupExpiredSessions limit).2
  | .list _ => s

/-! ## 3. What the index is for -/

/-- The session can be read and is not expired. -/
def Live (s : System) (id : String) : Prop :=
  (s.getRecord id).any (fun record => !isExpired P config record s.now) = true

instance (s : System) (id : String) : Decidable (Live P config s id) :=
  inferInstanceAs (Decidable (_ = true))

/-- The limit that a session has when it is created. -/
def firstLimit (s : System) (id : String) : ℕ :=
  System.effectiveExpiryMs config ((s.created id).getD 0)

/-- A cleanup gets to the session: it is in the index, and fewer than `limit` are before it. -/
def Reached (s : System) (limit : ℕ) (id : String) : Prop :=
  id ∈ s.active.read s.now ∧ (s.active.read s.now).zrank id < limit

/-- One page has the whole index. -/
def LargeEnough (s : System) (limit : ℕ) : Prop :=
  (s.active.read s.now).zcard ≤ System.pageSize limit

/-- A cleanup leaves the sessions that are alive alone, and a listing has each of them once. -/
def Faithful (s : System) : Label → Prop
  | .cleanup limit => ∀ id, Live P config s id → Live P config (s.cleanupExpiredSessions limit).2 id
  | .list limit => LargeEnough s limit → ∀ id, Live P config s id →
      ((s.getAllActiveSessions P config limit 0).map (·.id)).count id = 1
  | _ => True

/-- No session is alive beyond its first limit where a cleanup gets to it, or a listing looks for it. -/
def Punctual (s : System) : Label → Prop
  | .cleanup limit => ∀ id, Live P config s id → Reached s limit id → s.now < firstLimit config s id
  | .list limit => LargeEnough s limit → ∀ id, Live P config s id → s.now ≤ firstLimit config s id
  | _ => True

/-- The session is in the index with its first limit, and the index does not expire before that. -/
def Entered (s : System) (id : String) : Prop :=
  ∃ e, s.active = some e ∧ (firstLimit config s id, id) ∈ e.value.entries ∧
    ∀ t ∈ e.expiresAt, firstLimit config s id ≤ t

/-- What always holds: the scores are first limits, and a session that is stored has its entry until that
limit is past. -/
structure Indexed (s : System) : Prop where
  score : ∀ e, s.active = some e → ∀ entry ∈ e.value.entries, entry.1 = firstLimit config s entry.2
  stored : ∀ id e, s.sessions id = some e →
    e.value.id = id ∧ (s.now ≤ firstLimit config s id → Entered config s id)
  created : ∀ id, (s.created id).getD 0 ≤ s.now

/-! ## 4. The index -/

section Index

variable {now : ℕ} {index : Index} {e : Timed (ZSet ℕ String)}

theorem read_of_live (h : e.LiveAt now) : Index.read now (some e) = e.value := by
  simp [Index.read, Timed.readAt, Option.filter, h]

theorem liveAt_of_le {limit : ℕ} (hlimit : ∀ t ∈ e.expiresAt, limit ≤ t) (hnow : now ≤ limit) :
    e.LiveAt now := by
  unfold Timed.LiveAt
  split
  · trivial
  · rename_i t ht
    exact hnow.trans (hlimit t ht)

/-- What is read of an index is what is in it. -/
theorem mem_read {entry : ℕ × String} (h : entry ∈ (index.read now).entries) :
    ∃ e, index = some e ∧ e.LiveAt now ∧ entry ∈ e.value.entries := by
  unfold Index.read at h
  cases hread : Timed.readAt now index with
  | none =>
    rw [hread] at h
    exact absurd h List.not_mem_nil
  | some z =>
    rw [hread] at h
    obtain ⟨e, he, hlive, rfl⟩ := Timed.readAt_eq_some.mp hread
    exact ⟨e, he, hlive, h⟩

/-- What is left of an index after a `ZREM`. -/
theorem zrem_eq_some {ids : List String} {e' : Timed (ZSet ℕ String)} (h : index.zrem now ids = some e') :
    ∃ e, index = some e ∧ e' = ⟨e.value.zremAll ids, e.expiresAt⟩ := by
  obtain ⟨e, he, rfl⟩ := Option.map_eq_some_iff.mp h
  exact ⟨e, (Option.filter_eq_some_iff.mp he).1, rfl⟩

/-- A `ZREM` leaves an index with an entry that is not removed. -/
theorem zrem_of_mem {ids : List String} (hlive : e.LiveAt now) {entry : ℕ × String}
    (hmem : entry ∈ e.value.entries) (hnot : entry.2 ∉ ids) :
    Index.zrem now (some e) ids = some ⟨e.value.zremAll ids, e.expiresAt⟩ := by
  have hleft : (e.value.zremAll ids).entries ≠ [] :=
    List.ne_nil_of_mem (ZSet.mem_entries_zremAll.mpr ⟨hmem, hnot⟩)
  simp [Index.zrem, hlive, hleft]

/-- A `ZADD` and an `EXPIRE` together. -/
theorem expire_zadd (now : ℕ) (index : Index) (score seconds : ℕ) (id : String) :
    (index.zadd now score id).expire now seconds =
      some ⟨(index.read now).zadd score id, some (now + seconds * 1000)⟩ := by
  have hlive : Timed.LiveAt ⟨(index.read now).zadd score id,
      (index.filter fun e => e.LiveAt now).bind (·.expiresAt)⟩ now := by
    unfold Timed.LiveAt
    split
    · trivial
    · rename_i t ht
      obtain ⟨e, he, hexpires⟩ := Option.bind_eq_some_iff.mp ht
      have hnow : e.LiveAt now := of_decide_eq_true (Option.filter_eq_some_iff.mp he).2
      simpa only [Timed.LiveAt, hexpires] using hnow
  unfold Index.expire Index.zadd
  rw [Option.filter_some, if_pos (decide_eq_true hlive)]
  rfl

end Index

/-! ## 5. What one step keeps -/

section Steps

variable {P config} {s : System} {id : String}

theorem indexed_init : Indexed config .init where
  score _ he := by cases he
  stored _ _ he := by cases he
  created _ := Nat.le_refl 0

theorem Indexed.tick (h : Indexed config s) (ms : ℕ) : Indexed config { s with now := s.now + ms } where
  score := h.score
  stored id e he := by
    obtain ⟨hid, hentered⟩ := h.stored id e he
    exact ⟨hid, fun hnow => hentered ((Nat.le_add_right _ _).trans hnow)⟩
  created id := (h.created id).trans (Nat.le_add_right _ _)

/-- A session of the same id is stored anew. -/
theorem Indexed.setRecord (h : Indexed config s) {record : Session} (hid : record.id = id)
    (hold : ∃ e, s.sessions id = some e) (ttlSeconds : ℕ) :
    Indexed config (s.setRecord id record ttlSeconds) where
  score := h.score
  stored id' e he := by
    by_cases heq : id' = id
    · subst heq
      obtain ⟨old, hold⟩ := hold
      obtain rfl := Option.some.inj ((Function.update_self id' _ s.sessions).symm.trans he)
      exact ⟨hid, (h.stored id' old hold).2⟩
    · simp only [System.setRecord, Function.update_of_ne heq] at he
      exact h.stored id' e he
  created := h.created

/-- Some sessions are deleted, and taken out of the index. -/
theorem Indexed.forget (h : Indexed config s) (ids : List String) (adminSessions : String → Index) :
    Indexed config
      ({ s with active := s.active.zrem s.now ids, adminSessions }.delRecords ids) where
  score e he entry hentry := by
    obtain ⟨old, hold, rfl⟩ := zrem_eq_some he
    exact h.score old hold entry (ZSet.mem_entries_zremAll.mp hentry).1
  stored id e he := by
    simp only [System.delRecords] at he
    split at he
    · cases he
    rename_i hnot
    obtain ⟨hid, hentered⟩ := h.stored id e he
    refine ⟨hid, fun hnow => ?_⟩
    obtain ⟨z, hz, hmem, hexpires⟩ := hentered hnow
    refine ⟨⟨z.value.zremAll ids, z.expiresAt⟩, ?_, ?_, hexpires⟩
    · have hkept := zrem_of_mem (liveAt_of_le hexpires hnow) hmem hnot
      rw [← hz] at hkept
      exact hkept
    · exact ZSet.mem_entries_zremAll.mpr ⟨hmem, hnot⟩
  created := h.created

theorem Indexed.validate (h : Indexed config s) (sessionId : String) :
    Indexed config (s.validateSession P config sessionId).2 := by
  unfold System.validateSession
  split
  · exact h
  split
  · exact h
  rename_i record hrecord
  obtain ⟨e, he, -, rfl⟩ := Timed.readAt_eq_some.mp hrecord
  have hid := (h.stored sessionId e he).1
  split
  · have hforget := h.forget [sessionId] (Function.update s.adminSessions e.value.admin_id
      ((s.adminSessions e.value.admin_id).zrem s.now [sessionId]))
    simpa only [System.removeFromIndexes, hid] using hforget
  split
  · exact h
  split
  · exact h
  · refine h.setRecord ?_ ⟨e, he⟩ _
    exact hid

theorem Indexed.cleanup (h : Indexed config s) (limit : ℕ) :
    Indexed config (s.cleanupExpiredSessions limit).2 := by
  unfold System.cleanupExpiredSessions
  dsimp only
  split
  · exact h
  · exact h.forget _ _

theorem firstLimit_le (h : Indexed config s) (id : String) :
    firstLimit config s id ≤ s.now + System.ttlSeconds config * 1000 := by
  have hcreated := h.created id
  have httl : config.SESSION_ABSOLUTE_LIFETIME_SECONDS ≤ System.ttlSeconds config := Nat.le_max_right _ _
  unfold firstLimit System.effectiveExpiryMs
  omega

/-- A session is created and indexed. -/
theorem Indexed.create (h : Indexed config s) (id adminId : String) (ipAddress userAgent : Option String) :
    Indexed config (step P config s (.create id adminId ipAddress userAgent)) := by
  simp only [step]
  split
  · exact h
  rename_i hadmin
  have hself : ∀ s' : System, s'.created = Function.update s.created id (some s.now) →
      firstLimit config s' id = System.effectiveExpiryMs config s.now := by
    intro s' hs'
    simp only [firstLimit, hs', Function.update_self, Option.getD_some]
  have hother : ∀ s' : System, s'.created = Function.update s.created id (some s.now) → ∀ id', id' ≠ id →
      firstLimit config s' id' = firstLimit config s id' := by
    intro s' hs' id' hne
    simp only [firstLimit, hs', Function.update_of_ne hne]
  have hcreate : (s.createSession P config id adminId ipAddress userAgent).2 = s.setRecord id
      (s.newSession P config id adminId ipAddress userAgent) (System.ttlSeconds config) := by
    simp only [System.createSession, if_neg hadmin]
  rw [hcreate]
  refine ⟨fun e he entry hentry => ?_, fun id' e he => ?_, fun id' => ?_⟩
  · simp only [System.indexWrites, System.setRecord, expire_zadd, Option.some.injEq] at he
    subst he
    rcases ZSet.mem_entries_zadd.mp hentry with ⟨hmem, hne⟩ | rfl
    · obtain ⟨z, hz, -, hmem⟩ := mem_read hmem
      rw [hother _ rfl _ hne]
      exact h.score z hz entry hmem
    · exact (hself _ rfl).symm
  · by_cases heq : id' = id
    · subst heq
      obtain rfl := Option.some.inj ((Function.update_self id' _ s.sessions).symm.trans he)
      refine ⟨rfl, fun hnow => ⟨_, expire_zadd _ _ _ _ _, ?_, ?_⟩⟩
      · rw [hself _ rfl]
        exact ZSet.mem_entries_zadd.mpr (Or.inr rfl)
      · rintro t ⟨⟩
        rw [hself _ rfl]
        exact (Nat.min_le_left _ _).trans
          (Nat.add_le_add_left (Nat.mul_le_mul_right _ (Nat.le_max_right _ _)) _)
    · simp only [System.indexWrites, System.setRecord, Function.update_of_ne heq] at he
      obtain ⟨hid, hentered⟩ := h.stored id' e he
      refine ⟨hid, fun hnow => ?_⟩
      rw [hother _ rfl _ heq] at hnow
      obtain ⟨z, hz, hmem, hexpires⟩ := hentered hnow
      refine ⟨_, expire_zadd _ _ _ _ _, ?_, ?_⟩
      · rw [hother _ rfl _ heq]
        refine ZSet.mem_entries_zadd.mpr (Or.inl ⟨?_, heq⟩)
        have hread := read_of_live (liveAt_of_le hexpires hnow)
        rw [← hz] at hread
        exact hread ▸ hmem
      · rintro t ⟨⟩
        rw [hother _ rfl _ heq]
        exact firstLimit_le h id'
  · by_cases heq : id' = id
    · subst heq
      simp only [Function.update_self, Option.getD_some]
      exact Nat.le_refl _
    · simp only [Function.update_of_ne heq]
      exact h.created id'

/-- **One step.** -/
theorem Indexed.step (h : Indexed config s) (l : Label) : Indexed config (step P config s l) := by
  cases l with
  | tick ms => exact h.tick ms
  | create id adminId ipAddress userAgent => exact h.create id adminId ipAddress userAgent
  | validate sessionId => exact h.validate sessionId
  | cleanup limit => exact h.cleanup limit
  | list limit => exact h

theorem stored_of_live (h : Live P config s id) : ∃ e, s.sessions id = some e := by
  cases hrecord : s.getRecord id with
  | none =>
    rw [Live, hrecord] at h
    cases h
  | some record =>
    obtain ⟨e, he, -, -⟩ := Timed.readAt_eq_some.mp hrecord
    exact ⟨e, he⟩

/-- What is in the index that is read has its first limit as score. -/
theorem score_of_read (h : Indexed config s) {score : ℕ}
    (hmem : (score, id) ∈ (s.active.read s.now).entries) : score = firstLimit config s id := by
  obtain ⟨e, he, -, hentry⟩ := mem_read hmem
  exact h.score e he _ hentry

/-- A cleanup takes the sessions that it gets to and whose first limit has come. -/
theorem mem_expiredIds_iff (h : Indexed config s) (limit : ℕ) :
    id ∈ s.expiredIds limit ↔ Reached s limit id ∧ firstLimit config s id ≤ s.now := by
  rw [System.expiredIds, ZSet.mem_zrangebyscore_iff]
  constructor
  · rintro ⟨score, hmem, hle, hrank⟩
    rw [score_of_read h hmem] at hle
    exact ⟨⟨List.mem_map.mpr ⟨_, hmem, rfl⟩, hrank⟩, hle⟩
  · rintro ⟨⟨hmem, hrank⟩, hle⟩
    obtain ⟨⟨score, id⟩, hentry, rfl⟩ := List.mem_map.mp hmem
    exact ⟨score, hentry, (score_of_read h hentry).trans_le hle, hrank⟩

/-- A session that is alive still is after a cleanup exactly when it was not taken. -/
theorem live_cleanup_iff (hlive : Live P config s id) (limit : ℕ) :
    Live P config (s.cleanupExpiredSessions limit).2 id ↔ id ∉ s.expiredIds limit := by
  unfold System.cleanupExpiredSessions
  dsimp only
  split
  · rename_i hempty
    rw [hempty]
    exact iff_of_true hlive List.not_mem_nil
  · by_cases hmem : id ∈ s.expiredIds limit
    · refine iff_of_false (fun hleft => ?_) fun hnot => hnot hmem
      obtain ⟨e, he⟩ := stored_of_live hleft
      simp only [System.delRecords, if_pos hmem] at he
      cases he
    · refine iff_of_true ?_ hmem
      simp only [Live, System.getRecord, System.delRecords, if_neg hmem]
      exact hlive

/-- A listing has the ids of its page that belong to sessions that are alive. -/
theorem map_getAllActiveSessions (h : Indexed config s) (limit offset : ℕ) :
    (s.getAllActiveSessions P config limit offset).map (·.id) =
      ((s.active.read s.now).zrangebyscoreFrom s.now offset (System.pageSize limit)).filter
        fun id => Live P config s id := by
  unfold System.getAllActiveSessions
  dsimp only
  generalize (s.active.read s.now).zrangebyscoreFrom s.now offset (System.pageSize limit) = ids
  induction ids with
  | nil => rfl
  | cons id ids ih =>
    cases hrecord : s.getRecord id with
    | none =>
      have hdead : ¬ Live P config s id := by simp [Live, hrecord]
      rw [List.filterMap_cons_none hrecord, List.filter_cons_of_neg (by simpa using hdead), ih]
    | some record =>
      obtain ⟨e, he, -, rfl⟩ := Timed.readAt_eq_some.mp hrecord
      have hid := (h.stored id e he).1
      rw [List.filterMap_cons_some hrecord]
      by_cases hlive : Live P config s id
      · have hopen : (!isExpired P config e.value s.now) = true := by simpa [Live, hrecord] using hlive
        rw [List.filter_cons, if_pos hopen, List.filter_cons_of_pos (by simpa using hlive),
          List.map_cons, hid, ih]
      · have hover : ¬ (!isExpired P config e.value s.now) = true := by
          simpa [Live, hrecord] using hlive
        rw [List.filter_cons, if_neg hover, List.filter_cons_of_neg (by simpa using hlive), ih]

/-- A session that is alive is on a page that has the whole index exactly up to its first limit. -/
theorem count_getAllActiveSessions (h : Indexed config s) {limit : ℕ} (hlimit : LargeEnough s limit)
    (hlive : Live P config s id) :
    ((s.getAllActiveSessions P config limit 0).map (·.id)).count id = 1 ↔
      s.now ≤ firstLimit config s id := by
  have hnodup := ZSet.nodup_zrangebyscoreFrom (s.active.read s.now) s.now 0 (System.pageSize limit)
  rw [map_getAllActiveSessions h, List.count_filter (by simpa using hlive),
    List.Nodup.count hnodup]
  have hpage : id ∈ (s.active.read s.now).zrangebyscoreFrom s.now 0 (System.pageSize limit) ↔
      s.now ≤ firstLimit config s id := by
    rw [ZSet.mem_zrangebyscoreFrom_iff hlimit]
    constructor
    · rintro ⟨score, hmem, hle⟩
      exact hle.trans_eq (score_of_read h hmem)
    · intro hnow
      obtain ⟨e, he⟩ := stored_of_live hlive
      obtain ⟨z, hz, hmem, hexpires⟩ := (h.stored id e he).2 hnow
      have hread := read_of_live (liveAt_of_le hexpires hnow)
      rw [← hz] at hread
      exact ⟨_, hread ▸ hmem, hnow⟩
  split
  · rename_i hmem
    exact iff_of_true rfl (hpage.mp hmem)
  · rename_i hmem
    exact iff_of_false (by decide) (mt hpage.mpr hmem)

theorem faithful_iff_punctual (h : Indexed config s) (l : Label) :
    Faithful P config s l ↔ Punctual P config s l := by
  cases l with
  | cleanup limit =>
    refine forall_congr' fun id => imp_congr_right fun hlive => ?_
    rw [live_cleanup_iff hlive, mem_expiredIds_iff h]
    constructor
    · intro hnot hreached
      exact Nat.lt_of_not_le fun hle => hnot ⟨hreached, hle⟩
    · rintro hlt ⟨hreached, hle⟩
      exact absurd (hlt hreached) (Nat.not_lt_of_le hle)
  | list limit =>
    exact imp_congr_right fun hlimit => forall_congr' fun id => imp_congr_right fun hlive =>
      count_getAllActiveSessions h hlimit hlive
  | tick | create | validate => exact Iff.rfl

end Steps

/-! ## 6. Every run -/

/-- **Cleanup and listing**: in any run, whatever sessions are created and used when, they do what they are
for at each of their calls exactly when no session is alive beyond its first limit there. -/
theorem faithful_iff (P : Platform) (config : Config) (ls : List Label) :
    Along (step P config) (Faithful P config) .init ls ↔
      Along (step P config) (Punctual P config) .init ls :=
  Along.iff_of_inv (I := Indexed config) (fun _ l h => h.step l) (fun _ l h => faithful_iff_punctual h l)
    indexed_init

/-- An admin logs in, is there after 29 minutes, and a cleanup runs two minutes later. -/
def usedSession : List Label :=
  [.tick 1000, .create "sess_u" "admin_1" none none, .tick 1740000, .validate "sess_u", .tick 120000,
    .cleanup 500]

/-- The session would be good for 28 more minutes, and is deleted. -/
theorem used_deleted :
    ¬ Along (step Sessions.Lifetime.samplePlatform {}) (Faithful Sessions.Lifetime.samplePlatform {}) .init
      usedSession := by
  rintro ⟨-, -, -, -, -, h, -⟩
  have hlive := h "sess_u" (by decide +kernel)
  exact absurd hlive (by decide +kernel)

end SmartDrop.AdminSessions
