/-
# Creating an admin session

`createSession` of `services/adminSession.js` writes the record of a session in one round trip and its
index entries in another.  It refuses an admin id that is no text, and it can throw while it puts the
record together; all this happens before the first write.  After that write it names `ADMINS_KEY`, which
is not declared, so a call that gets there throws and leaves a session that `validateSession` accepts
and no index has: `creation_iff`.
-/
import SmartDrop.Auth.AdminSessions

namespace SmartDrop.AdminSessions.Creation

open Redis
open Sessions (Platform)
open Sessions.Lifetime (MAX_TIME Dates given_toISOString)

variable (P : Platform) (config : Config)

/-! ## 1. The call -/

/-- What a caller passes as `options`.  Nothing can be read of `null`. -/
inductive Options where
  | null
  | given (ipAddress userAgent : Option String)

/-- The limits of a session that is created at `now` are dates. -/
def Dated (now : ℕ) : Prop :=
  now + config.SESSION_ABSOLUTE_LIFETIME_SECONDS * 1000 ≤ MAX_TIME ∧
    now + config.SESSION_IDLE_TIMEOUT_SECONDS * 1000 ≤ MAX_TIME

instance (now : ℕ) : Decidable (Dated config now) := inferInstanceAs (Decidable (_ ∧ _))

/-- `generateSessionId`, from the digits of a UUID. -/
def generateSessionId (uuid : String) : String := "sess_" ++ uuid

/-- `createSession`, whose UUID is drawn.  An admin id that is `none` is no string. -/
def createSession (uuid : String) (adminId : Option String) (options : Options) (s : System) :
    Except String Session × System :=
  match adminId.filter (· ≠ "") with
  | none => (.error "adminSession.createSession: adminId is required", s)
  | some adminId =>
    if Dated config s.now then
      match options with
      | .null => (.error "Cannot read properties of null (reading 'ipAddress')", s)
      | .given ipAddress userAgent =>
        s.createSession P config (generateSessionId uuid) adminId ipAddress userAgent
    else (.error "Invalid time value", s)

/-- The system some time later. -/
def later (ms : ℕ) (s : System) : System := { s with now := s.now + ms }

/-- `validateSession` returns the session. -/
def Accepted (s : System) (sessionId : String) : Prop :=
  (s.validateSession P config sessionId).1.isSome = true

/-- The record and both index entries are stored, or nothing is accepted then or later that would not
have been accepted without the call. -/
def AllOrNothing (s : System) (call : Except String Session × System) : Prop :=
  match call.1 with
  | .ok record => call.2.getRecord record.id = some record ∧
      record.id ∈ (call.2.adminSessions record.admin_id).read call.2.now ∧
      record.id ∈ call.2.active.read call.2.now
  | .error _ => ∀ ms sessionId, Accepted P config (later ms call.2) sessionId →
      Accepted P config (later ms s) sessionId

/-- The call throws before it has written anything. -/
def Refused (adminId : Option String) (options : Options) (now : ℕ) : Prop :=
  (∀ text, adminId = some text → text = "") ∨ ¬ Dated config now ∨ options = .null

/-! ## 2. A session that has just been written -/

variable {P config} {s : System} {uuid adminId : String} {ipAddress userAgent : Option String}

theorem generateSessionId_ne (uuid : String) : generateSessionId uuid ≠ "" := by
  intro h
  have hlist := congrArg String.toList h
  simp [generateSessionId] at hlist

/-- A new session has both its limits before it. -/
theorem isExpired_newSession (hP : Dates P) (hdated : Dated config s.now) (id : String) :
    isExpired P config (s.newSession P config id adminId ipAddress userAgent) s.now = false ∧
    absoluteExpiresAtMs P config (s.newSession P config id adminId ipAddress userAgent) s.now =
      some (s.now + config.SESSION_ABSOLUTE_LIFETIME_SECONDS * 1000) := by
  have habsolute : absoluteExpiresAtMs P config
      (s.newSession P config id adminId ipAddress userAgent) s.now =
      some (s.now + config.SESSION_ABSOLUTE_LIFETIME_SECONDS * 1000) := by
    simp only [absoluteExpiresAtMs, System.newSession, given_toISOString hP hdated.1]
    exact hP.parse _ hdated.1
  have hidle : idleExpiresAtMs P config
      (s.newSession P config id adminId ipAddress userAgent) s.now =
      some (s.now + config.SESSION_IDLE_TIMEOUT_SECONDS * 1000) := by
    simp only [idleExpiresAtMs, System.newSession, given_toISOString hP hdated.2]
    exact hP.parse _ hdated.2
  refine ⟨?_, habsolute⟩
  simp only [isExpired, habsolute, hidle]
  simp [System.newSession]
  omega

/-- A session that is read and is not expired is accepted. -/
theorem accepted_of_read {id : String} (hid : id ≠ "") {record : Session} {absolute : ℕ}
    (hread : s.getRecord id = some record) (hlive : isExpired P config record s.now = false)
    (habsolute : absoluteExpiresAtMs P config record s.now = some absolute) :
    Accepted P config s id := by
  rw [Accepted, System.validateSession, if_neg hid, hread]
  simp only [hlive, habsolute, Bool.false_eq_true, if_false]
  split <;> rfl

/-- A new session is accepted at once. -/
theorem accepted_written (hP : Dates P) (hdated : Dated config s.now) :
    Accepted P config (s.setRecord (generateSessionId uuid)
      (s.newSession P config (generateSessionId uuid) adminId ipAddress userAgent)
      (System.ttlSeconds config)) (generateSessionId uuid) := by
  obtain ⟨hlive, habsolute⟩ := @isExpired_newSession P config s adminId ipAddress userAgent hP hdated
    (generateSessionId uuid)
  have hread : (s.setRecord (generateSessionId uuid)
      (s.newSession P config (generateSessionId uuid) adminId ipAddress userAgent)
      (System.ttlSeconds config)).getRecord (generateSessionId uuid) =
      some (s.newSession P config (generateSessionId uuid) adminId ipAddress userAgent) := by
    rw [System.getRecord, Timed.readAt_eq_some]
    refine ⟨_, Function.update_self .., ?_, rfl⟩
    exact Nat.le_add_right _ _
  exact accepted_of_read (generateSessionId_ne uuid) hread hlive habsolute

/-- What is not stored is not accepted. -/
theorem not_accepted_of_fresh {id : String} (hfresh : s.sessions id = none) :
    ¬ Accepted P config s id := by
  have hread : s.getRecord id = none := by
    rw [System.getRecord, hfresh]
    rfl
  rw [Accepted, System.validateSession, hread]
  split <;> simp

/-! ## 3. All or nothing -/

/-- **All or nothing**: for any admin id, options and store, a call that draws a new id stores a session
with both its index entries, or leaves none that is accepted, exactly when it throws before its first
write. -/
theorem creation_iff (P : Platform) (hP : Dates P) (config : Config) (s : System) (uuid : String)
    (hfresh : s.sessions (generateSessionId uuid) = none) (adminId : Option String)
    (options : Options) :
    AllOrNothing P config s (createSession P config uuid adminId options s) ↔
      Refused config adminId options s.now := by
  constructor
  · intro h
    by_contra hrefused
    rw [Refused, not_or, not_or, not_not] at hrefused
    obtain ⟨hadmin, hdated, hoptions⟩ := hrefused
    push Not at hadmin
    obtain ⟨text, rfl, htext⟩ := hadmin
    cases options with
    | null => exact hoptions rfl
    | given ipAddress userAgent =>
      have hcall : createSession P config uuid (some text) (.given ipAddress userAgent) s =
          (.error "ADMINS_KEY is not defined", s.setRecord (generateSessionId uuid)
            (s.newSession P config (generateSessionId uuid) text ipAddress userAgent)
            (System.ttlSeconds config)) := by
        simp only [createSession, Option.filter_some, htext, ne_eq, not_false_eq_true, decide_true,
          if_true, hdated, System.createSession, if_false]
      rw [hcall] at h
      exact not_accepted_of_fresh hfresh (h 0 _ (accepted_written hP hdated))
  · intro hrefused
    have hcall : ∃ e, createSession P config uuid adminId options s = (.error e, s) := by
      rw [createSession]
      split
      · exact ⟨_, rfl⟩
      · rename_i text hadmin
        rw [Option.filter_eq_some_iff] at hadmin
        rcases hrefused with hnone | hundated | rfl
        · exact absurd (hnone text hadmin.1) (of_decide_eq_true hadmin.2)
        · rw [if_neg hundated]
          exact ⟨_, rfl⟩
        · split
          · exact ⟨_, rfl⟩
          · exact ⟨_, rfl⟩
    obtain ⟨e, hcall⟩ := hcall
    rw [hcall]
    exact fun _ _ h => h

/-- With the empty admin id nothing is written. -/
theorem creation_iff_sample : System.init.sessions (generateSessionId "u") = none ∧
    AllOrNothing Sessions.Lifetime.samplePlatform {} .init
      (createSession Sessions.Lifetime.samplePlatform {} "u" (some "") (.given none none) .init) :=
  ⟨rfl, (creation_iff _ Sessions.Lifetime.dates_samplePlatform {} .init "u" rfl (some "") _).mpr
    (.inl fun _ h => (Option.some.inj h).symm)⟩

/-- An admin logs in: the call throws, and the session is good. -/
theorem unindexed_accepted : ¬ AllOrNothing Sessions.Lifetime.samplePlatform {} (later 1000 .init)
    (createSession Sessions.Lifetime.samplePlatform {} "u" (some "admin_1") (.given none none)
      (later 1000 .init)) := by
  intro h
  exact absurd (h 0 "sess_u" (by unfold Accepted; decide +kernel)) (by unfold Accepted; decide +kernel)

end SmartDrop.AdminSessions.Creation
