/-
# How long a session lives

`createSession` writes the absolute expiry of a session once.  `validateSession` moves the idle expiry
and never beyond it, however often the session is used: what is stored of the session at any time is
described by `Lives`, a call either leaves it as it is, writes one step of it (`touched`) or deletes it,
and a session is only returned before both limits, the clock skew included.

The clock is read anew at each command of a call.  Times are those that a `Date` can have.
-/
import SmartDrop.Auth.Logout
import SmartDrop.Lib.Run

namespace SmartDrop.Sessions.Lifetime

open Conc Redis

/-! ## 1. Dates and calls -/

/-- The latest time that a date can have. -/
def MAX_TIME : ℕ := 8640000000000000

/-- Dates are read back from their texts, and the empty text is no date. -/
structure Dates (P : Platform) : Prop where
  parse : ∀ t ≤ MAX_TIME, P.dateParse (P.toISOString t) = some t
  empty : P.dateParse "" = none

/-- A call of `validateSession`, and what the clock shows at its commands. -/
structure Visit where
  sessionId : String
  options : ValidateOptions
  clock : ℕ → ℕ

/-- The time that a call works with. -/
def Visit.time (v : Visit) : ℕ := v.options.now.getD (v.clock 0)

variable (P : Platform) (config : Config)

/-- What a call returns. -/
def answer (s : Store) (v : Visit) : Except Err (Option Session) :=
  ((validateSession P config v.sessionId v.options).prog.runWith (machine P) () v.clock s).1

/-- What a call leaves. -/
def visit (s : Store) (v : Visit) : Store :=
  ((validateSession P config v.sessionId v.options).prog.runWith (machine P) () v.clock s).2

/-- The record of a session, whether or not it can still be read. -/
def stored (s : Store) (sessionId : String) : Option Session :=
  (s.sessions sessionId).map (·.value)

/-! ## 2. The limits -/

/-- The absolute limit of a session that was created at `c`. -/
def absoluteLimit (c : ℕ) : ℕ := c + config.ABSOLUTE_LIFETIME_SECONDS * 1000

/-- The idle limit that an activity at `t` allows. -/
def idleLimit (t : ℕ) : ℕ := t + config.IDLE_TIMEOUT_SECONDS * 1000

/-- The clock skew in milliseconds. -/
def skew : ℕ := config.CLOCK_SKEW_SECONDS * 1000

/-- A call leaves the absolute expiry of the session alone, what it stores is as it was created or does
not expire later when idle, and what it returns is within both limits: the one of the creation, and the
one of the last activity that is recorded. -/
structure Honoured (session : Session) (c : ℕ) (s : Store) (v : Visit) : Prop where
  absolute : ∀ record, stored (visit P config s v) session.id = some record →
    record.absolute_expires_at = session.absolute_expires_at
  idle : ∀ record, stored (visit P config s v) session.id = some record → record = session ∨
    ∃ idle absolute, parseDate P record.idle_expires_at = some idle ∧
      parseDate P record.absolute_expires_at = some absolute ∧ idle ≤ absolute
  answered : ∀ session', v.sessionId = session.id → answer P config s v = .ok (some session') →
    v.time ≤ absoluteLimit config c + skew config ∧
      ∃ record activity, stored s session.id = some record ∧
        parseDate P record.last_activity_at = some activity ∧
        v.time ≤ idleLimit config activity + skew config

/-- What is stored of a session that was created at `c`. -/
structure Lives (session : Session) (c : ℕ) (record : Session) : Prop where
  absolute : record.absolute_expires_at = some (P.toISOString (absoluteLimit config c))
  idle : ∃ activity idle, activity ≤ MAX_TIME ∧ idle ≤ MAX_TIME ∧
    record.last_activity_at = some (P.toISOString activity) ∧
    record.idle_expires_at = some (P.toISOString idle) ∧ idle ≤ idleLimit config activity ∧
    (record = session ∨ idle ≤ absoluteLimit config c)

/-- What is stored of the session, if anything. -/
def Kept (session : Session) (c : ℕ) (s : Store) : Prop :=
  ∀ record, stored s session.id = some record → Lives P config session c record

/-- What a call does at `t`: it leaves the session as it was or deletes it, or writes the activity. -/
def Goes (session : Session) (c t : ℕ) (s s' : Store) : Prop :=
  ∀ record', stored s' session.id = some record' → stored s session.id = some record' ∨
    ∃ record, stored s session.id = some record ∧ record' = touched P record t (absoluteLimit config c)
      (min (idleLimit config t) (absoluteLimit config c))

/-! ## 3. What one call does -/

section Calls

variable {P config} {session record : Session} {c t : ℕ} {s : Store}

theorem Dates.toISOString_ne (hP : Dates P) (ht : t ≤ MAX_TIME) : P.toISOString t ≠ "" := by
  intro hempty
  have hparse := hP.parse t ht
  rw [hempty, hP.empty] at hparse
  cases hparse

theorem given_toISOString (hP : Dates P) (ht : t ≤ MAX_TIME) :
    given (some (P.toISOString t)) = some (P.toISOString t) := by
  simp [given, hP.toISOString_ne ht]

/-- A refresh goes on with the life of the session. -/
theorem Lives.touched (hP : Dates P) (h : Lives P config session c record) (ht : t ≤ MAX_TIME)
    (hc : absoluteLimit config c ≤ MAX_TIME) :
    Lives P config session c (touched P record t (absoluteLimit config c)
      (min (idleLimit config t) (absoluteLimit config c))) where
  absolute := by
    simp only [Sessions.touched, h.absolute, given_toISOString hP hc]
    rfl
  idle := by
    refine ⟨t, _, ht, (Nat.min_le_right _ _).trans hc, rfl, rfl, Nat.min_le_left _ _, ?_⟩
    exact Or.inr (Nat.min_le_right _ _)

theorem Goes.refl (s : Store) : Goes P config session c t s s := fun _ h => Or.inl h

theorem Kept.goes (hP : Dates P) (h : Kept P config session c s) {s' : Store}
    (hgoes : Goes P config session c t s s') (ht : t ≤ MAX_TIME)
    (hc : absoluteLimit config c ≤ MAX_TIME) : Kept P config session c s' := by
  intro record' hrecord
  rcases hgoes record' hrecord with hold | ⟨record, hold, rfl⟩
  · exact h record' hold
  · exact (h record hold).touched hP ht hc

/-- Code that runs alone, and what it returns and leaves; nothing is said of what it throws but what it
leaves. -/
def Leaves {α : Type} (P : Platform) (code : Code α) (A : Store → Prop) (Q : α → Store → Prop)
    (E : Store → Prop) : Prop :=
  SatE (machine P) () (.alone fun _ _ _ => True) code A Q fun _ => E

variable {E : Store → Prop}

theorem leaves_redis {op : Op} {Q : op.Ret → Store → Prop}
    (h : ∀ x, Q (s.exec P x op).1 (s.exec P x op).2) : Leaves P (redis op) (· = s) Q E := by
  refine SatE.call (fun _ _ _ hq heq => heq ▸ hq) ?_
  rintro x _ rfl -
  exact ⟨trivial, h x⟩

theorem leaves_createdAt (record : Session) :
    Leaves P (createdAt P record) (· = s) (fun _ => (· = s)) E := by
  unfold createdAt
  split
  · exact SatE.pure fun _ hs => hs
  · exact leaves_redis fun _ => rfl

/-- The timestamps of a session that lives. -/
theorem leaves_getSessionTimestamps (hP : Dates P) (hc : absoluteLimit config c ≤ MAX_TIME)
    (h : Lives P config session c record) :
    Leaves P (getSessionTimestamps P config record) (· = s) (fun t s' => s' = s ∧
      t.absoluteExpiresAtMs = some (absoluteLimit config c) ∧
      t.idleExpiresAtMs = parseDate P record.idle_expires_at) E := by
  obtain ⟨activity, idle, -, hle, -, hidle, -⟩ := h.idle
  refine SatE.bind (leaves_createdAt record) fun createdAtMs => SatE.pure ?_
  rintro s' rfl
  refine ⟨rfl, ?_, ?_⟩
  · rw [h.absolute]
    simp only [given_toISOString hP hc, hP.parse _ hc]
  · rw [hidle]
    simp only [given_toISOString hP hle, parseDate, Option.bind_some]

/-- A session that lives has not expired when neither limit is past. -/
theorem leaves_isSessionExpired (hP : Dates P) (hc : absoluteLimit config c ≤ MAX_TIME)
    (h : Lives P config session c record) :
    Leaves P (isSessionExpired P config record t) (· = s) (fun expired s' => s' = s ∧
      (expired = false → isPast config t (some (absoluteLimit config c)) = false ∧
        isPast config t (parseDate P record.idle_expires_at) = false)) E := by
  unfold isSessionExpired
  split
  · exact SatE.pure fun _ hs => ⟨hs, fun hf => by cases hf⟩
  · refine SatE.bind (leaves_getSessionTimestamps hP hc h) fun ts => SatE.pure ?_
    rintro s' ⟨rfl, habsolute, hidle⟩
    rw [habsolute, hidle, Bool.or_eq_false_iff]
    exact ⟨rfl, id⟩

/-- Every command but a write of the session. -/
def Unwritten (sessionId : String) : Op → Prop
  | .setSession id _ _ => id ≠ sessionId
  | _ => True

theorem Goes.exec {op : Op} (hop : Unwritten session.id op) {s' : Store}
    (h : Goes P config session c t s s') (x : ℕ) :
    Goes P config session c t s (s'.exec P x op).2 := by
  intro record' hrecord
  refine h record' ?_
  cases op with
  | setSession id record ttlSeconds =>
    have hsame : (s'.exec P x (.setSession id record ttlSeconds)).2.sessions session.id =
        s'.sessions session.id := Function.update_of_ne (Ne.symm hop) _ _
    rwa [stored, hsame] at hrecord
  | delSession id =>
    by_cases hid : session.id = id
    · simp [stored, Store.exec, hid] at hrecord
    · have hsame : (s'.exec P x (.delSession id)).2.sessions session.id = s'.sessions session.id :=
        Function.update_of_ne hid _ _
      rwa [stored, hsame] at hrecord
  | now | randomUUID | getSession | zaddActive | zremActive | saddUser | sremUser | smembersUser
  | multiForget => exact hrecord

/-- Code that does not write the session leaves it as it was or deletes it. -/
theorem leaves_of_uses {α : Type} {code : Code α}
    (h : Throws.Uses (S := sig) (Unwritten session.id) code) :
    Leaves P code (Goes P config session c t s) (fun _ => Goes P config session c t s)
      (Goes P config session c t s) :=
  SatE.frame (fun _ _ hq heq => heq ▸ hq) (fun _ hop x _ hs _ => ⟨trivial, hs.exec hop x⟩) h

theorem uses_invalidateSession (id sessionId : String) :
    Throws.Uses (S := sig) (Unwritten id) (invalidateSession sessionId) := by
  unfold invalidateSession
  split
  · exact Throws.uses_pure _
  refine Throws.Uses.bind (Throws.uses_call trivial) fun record => ?_
  refine Throws.Uses.bind (Throws.uses_call trivial) fun _ => ?_
  refine Throws.Uses.bind (Throws.uses_call trivial) fun _ => ?_
  split
  · exact Throws.uses_pure _
  · split
    · exact Throws.uses_pure _
    · exact Throws.Uses.bind (Throws.uses_call trivial) fun _ => Throws.uses_pure _

/-- A call about another session. -/
theorem uses_validateSession {sessionId : String} (hid : sessionId ≠ session.id)
    (options : ValidateOptions) :
    Throws.Uses (S := sig) (Unwritten session.id) (validateSession P config sessionId options) := by
  refine Prog.Uses.mono ?_ (Sessions.uses_validateSession (u := session.user_id) hid options)
  intro op hop
  cases op <;> first | exact hop | trivial

/-- A refresh of a session that lives returns it, and goes on with its life if it writes it. -/
theorem leaves_refreshSession (hP : Dates P) (hc : absoluteLimit config c ≤ MAX_TIME)
    (hstored : stored s session.id = some record) (h : Lives P config session c record) :
    Leaves P (refreshSession P config session.id record t) (· = s)
      (fun _ => Goes P config session c t s) (Goes P config session c t s) := by
  refine SatE.bind (leaves_getSessionTimestamps hP hc h) fun ts => ?_
  split
  · exact SatE.pure fun s' hs' => hs'.1 ▸ Goes.refl _
  refine SatE.fix fun s' hs' => ?_
  obtain ⟨rfl, habsolute, -⟩ := hs'
  rw [habsolute]
  dsimp only
  have hset : Leaves P (redis (.setSession session.id (touched P record t (absoluteLimit config c)
      (min (idleLimit config t) (absoluteLimit config c)))
        (ttlUntil (min (idleLimit config t) (absoluteLimit config c)) t))) (· = s')
      (fun _ => Goes P config session c t s') (Goes P config session c t s') := by
    refine leaves_redis fun x record' hrecord => Or.inr ⟨record, hstored, ?_⟩
    simp only [stored, Store.exec, Function.update_self, Option.map_some, Option.some.injEq] at hrecord
    exact hrecord.symm
  refine SatE.bind hset fun _ => ?_
  have hzadd : Leaves P (redis (.zaddActive (min (idleLimit config t) (absoluteLimit config c))
      session.id)) (Goes P config session c t s') (fun _ => Goes P config session c t s')
      (Goes P config session c t s') := by
    exact SatE.call (fun _ _ _ hq heq => heq ▸ hq) fun x s'' hs'' _ => ⟨trivial, hs''⟩
  exact SatE.bind hzadd fun _ => SatE.pure fun _ hs => hs

/-- The rest of `validateSession`, once it has its time. -/
def validateAt (P : Platform) (config : Config) (sessionId : String) (touch : Bool) (nowMs : ℕ) :
    Code (Option Session) := do
  if sessionId = "" then return none
  match ← redis (.getSession sessionId) with
  | none => return none
  | some record =>
    let expired ← isSessionExpired P config record nowMs
    if expired then
      let _ ← invalidateSession sessionId
      return none
    if !touch then return some record
    let session ← refreshSession P config sessionId record nowMs
    return some session

theorem validateSession_eq (sessionId : String) (options : ValidateOptions) :
    validateSession P config sessionId options =
      clock options >>= validateAt P config sessionId options.touch := rfl

/-- A call about the session finds it within its limits, or returns nothing. -/
theorem leaves_validateAt (hP : Dates P) (hc : absoluteLimit config c ≤ MAX_TIME)
    (h : Kept P config session c s) (touch : Bool) :
    Leaves P (validateAt P config session.id touch t) (· = s) (fun found s' =>
      Goes P config session c t s s' ∧ (found ≠ none → ∃ record, stored s session.id = some record ∧
        isPast config t (some (absoluteLimit config c)) = false ∧
        isPast config t (parseDate P record.idle_expires_at) = false))
      (Goes P config session c t s) := by
  unfold validateAt
  split
  · exact SatE.pure fun s' hs' => ⟨hs' ▸ Goes.refl _, fun hne => absurd rfl hne⟩
  have hread : Leaves P (redis (.getSession session.id)) (· = s) (fun found s' => s' = s ∧
      ∀ record, found = some record → stored s session.id = some record)
      (Goes P config session c t s) := by
    refine leaves_redis fun x => ⟨rfl, fun record hrecord => ?_⟩
    obtain ⟨e, he, -, rfl⟩ := Timed.readAt_eq_some.mp hrecord
    rw [stored, he]
    rfl
  refine SatE.bind hread fun found => SatE.fix ?_
  rintro s' ⟨rfl, hfound⟩
  cases found with
  | none => exact SatE.pure fun s'' hs'' => ⟨hs'' ▸ Goes.refl _, fun hne => absurd rfl hne⟩
  | some record =>
    have hstored := hfound record rfl
    have hlives := h record hstored
    refine SatE.bind (leaves_isSessionExpired hP hc hlives) fun expired => SatE.fix ?_
    rintro s'' ⟨rfl, hpast⟩
    cases expired with
    | true =>
      have hinvalidate : Leaves P (invalidateSession session.id) (Goes P config session c t s'')
          (fun _ => Goes P config session c t s'') (Goes P config session c t s'') :=
        leaves_of_uses (uses_invalidateSession session.id session.id)
      refine SatE.bind (hinvalidate.mono (fun _ hs => hs ▸ Goes.refl _) (fun _ _ hs => hs)
        fun _ _ hs => hs) fun _ => ?_
      exact SatE.pure fun _ hgoes => ⟨hgoes, fun hne => absurd rfl hne⟩
    | false =>
      have hwithin := hpast rfl
      cases touch with
      | false => exact SatE.pure fun s' hs' => ⟨hs' ▸ Goes.refl _, fun _ => ⟨record, hstored, hwithin⟩⟩
      | true =>
        refine SatE.bind (leaves_refreshSession hP hc hstored hlives) fun _ => ?_
        exact SatE.pure fun _ hgoes => ⟨hgoes, fun _ => ⟨record, hstored, hwithin⟩⟩

/-- A call is the rest of it from the time that it works with. -/
theorem runWith_validateSession (P : Platform) (config : Config) (s : Store) (v : Visit) : ∃ clock,
    (validateSession P config v.sessionId v.options).prog.runWith (machine P) () v.clock s =
      (validateAt P config v.sessionId v.options.touch v.time).prog.runWith (machine P) () clock s := by
  obtain ⟨sessionId, ⟨touch, now⟩, clock⟩ := v
  cases now with
  | some t => exact ⟨clock, rfl⟩
  | none => exact ⟨fun n => clock (n + 1), rfl⟩

theorem goes_visit (hP : Dates P) (hc : absoluteLimit config c ≤ MAX_TIME)
    (h : Kept P config session c s) (v : Visit) :
    Goes P config session c v.time s (visit P config s v) := by
  by_cases hid : v.sessionId = session.id
  · obtain ⟨clock, hrun⟩ := runWith_validateSession P config s v
    have hsat := Sat.runWith (leaves_validateAt (t := v.time) hP hc h v.options.touch) clock
      (fun _ _ _ => trivial) rfl
    rw [visit, hrun, hid]
    split at hsat
    · exact hsat.1
    · exact hsat
  · have hleaves : Leaves P (validateSession P config v.sessionId v.options)
        (Goes P config session c v.time s) (fun _ => Goes P config session c v.time s)
        (Goes P config session c v.time s) := leaves_of_uses (uses_validateSession hid v.options)
    have hsat := Sat.runWith hleaves v.clock (fun _ _ _ => trivial) (Goes.refl s)
    rw [visit]
    split at hsat <;> exact hsat

/-- What a call about the session returns was found within the limits. -/
theorem answer_within (hP : Dates P) (hc : absoluteLimit config c ≤ MAX_TIME)
    (h : Kept P config session c s) (v : Visit) (hid : v.sessionId = session.id) {session' : Session}
    (hanswer : answer P config s v = .ok (some session')) :
    ∃ record, stored s session.id = some record ∧
      isPast config v.time (some (absoluteLimit config c)) = false ∧
      isPast config v.time (parseDate P record.idle_expires_at) = false := by
  obtain ⟨clock, hrun⟩ := runWith_validateSession P config s v
  have hsat := Sat.runWith (leaves_validateAt (t := v.time) hP hc h v.options.touch) clock
    (fun _ _ _ => trivial) rfl
  rw [answer, hrun, hid] at hanswer
  rw [hanswer] at hsat
  exact hsat.2 (Option.some_ne_none _)

end Calls

/-! ## 4. Every sequence of calls -/

section Runs

variable {P config} {session : Session} {c : ℕ} {s : Store}

/-- What a session that is created has. -/
theorem lives_created (hidle : idleLimit config c ≤ MAX_TIME) (hc : absoluteLimit config c ≤ MAX_TIME)
    (habsolute : session.absolute_expires_at = some (P.toISOString (absoluteLimit config c)))
    (hactivity : session.last_activity_at = some (P.toISOString c))
    (hexpires : session.idle_expires_at = some (P.toISOString (idleLimit config c))) :
    Lives P config session c session where
  absolute := habsolute
  idle := ⟨c, _, (Nat.le_add_right _ _).trans hc, hidle, hactivity, hexpires, Nat.le_refl _, Or.inl rfl⟩

/-- Only what `createSession` has written is stored of its session. -/
theorem kept_createSession {userId : String} {ipAddress userAgent : Option String} {clock : ℕ → ℕ}
    {s₀ : Store} (hidle : idleLimit config (clock 0) ≤ MAX_TIME)
    (hc : absoluteLimit config (clock 0) ≤ MAX_TIME)
    (hcreate : (createSession P config userId ipAddress userAgent).prog.runWith (machine P) () clock s₀ =
      (.ok session, s)) : Kept P config session (clock 0) s := by
  unfold createSession at hcreate
  split at hcreate
  · cases hcreate
  · cases hcreate
    intro record hrecord
    simp only [machine, Store.exec, stored, Function.update_self, Option.map_some,
      Option.some.injEq] at hrecord
    subst hrecord
    exact lives_created hidle hc rfl rfl rfl

/-- One call keeps what is stored as it should be, and is within the limits. -/
theorem honoured_visit (hP : Dates P) (hc : absoluteLimit config c ≤ MAX_TIME)
    (habsolute : session.absolute_expires_at = some (P.toISOString (absoluteLimit config c)))
    (h : Kept P config session c s) {v : Visit} (hv : v.time ≤ MAX_TIME) :
    Kept P config session c (visit P config s v) ∧ Honoured P config session c s v := by
  have hkept := h.goes hP (goes_visit hP hc h v) hv hc
  refine ⟨hkept, fun record hrecord => ?_, fun record hrecord => ?_, fun session' hid hanswer => ?_⟩
  · rw [(hkept record hrecord).absolute, habsolute]
  · obtain ⟨activity, idle, -, hle, -, hidle, -, hcreated | hwithin⟩ := (hkept record hrecord).idle
    · exact Or.inl hcreated
    · refine Or.inr ⟨idle, absoluteLimit config c, ?_, ?_, hwithin⟩
      · rw [hidle]
        exact hP.parse idle hle
      · rw [(hkept record hrecord).absolute]
        exact hP.parse _ hc
  · obtain ⟨record, hrecord, hpast, hidlePast⟩ := answer_within hP hc h v hid hanswer
    obtain ⟨activity, idle, hactivity, hle, hlast, hidle, hlimit, -⟩ := (h record hrecord).idle
    have hparse : parseDate P record.idle_expires_at = some idle := by
      rw [hidle]
      exact hP.parse idle hle
    simp only [hparse, isPast, Option.any_some, decide_eq_false_iff_not, not_lt] at hpast hidlePast
    refine ⟨hpast, record, activity, hrecord, ?_, ?_⟩
    · rw [hlast]
      exact hP.parse activity hactivity
    · exact hidlePast.trans (Nat.add_le_add_right hlimit _)

/-- **The lifetime of a session**: in every sequence of calls after its creation, whatever the clock shows
and whether or not they touch it, its absolute expiry stays, its idle expiry is never moved beyond it, and
it is returned only within the absolute lifetime and within the idle limit of the last activity that is
recorded, the clock skew added to either. -/
theorem honoured_run (hP : Dates P) {userId : String} {ipAddress userAgent : Option String}
    {clock : ℕ → ℕ} {s₀ : Store}
    (hcreate : (createSession P config userId ipAddress userAgent).prog.runWith (machine P) () clock s₀ =
      (.ok session, s))
    (hidle : idleLimit config (clock 0) ≤ MAX_TIME) (hc : absoluteLimit config (clock 0) ≤ MAX_TIME)
    {visits : List Visit} (hvisits : ∀ v ∈ visits, v.time ≤ MAX_TIME) :
    Along (visit P config) (Honoured P config session (clock 0)) s visits := by
  have habsolute : session.absolute_expires_at =
      some (P.toISOString (absoluteLimit config (clock 0))) := by
    unfold createSession at hcreate
    split at hcreate
    · cases hcreate
    · cases hcreate
      rfl
  refine Along.of_inv (I := Kept P config session (clock 0)) (φ := fun _ v => v.time ≤ MAX_TIME)
    (fun s v hkept hv => honoured_visit hP hc habsolute hkept hv)
    (kept_createSession hidle hc hcreate) (Along.of_mem hvisits s)

end Runs

/-! ## 5. A session that is used -/

/-- The texts of some dates. -/
def sampleTexts : List (ℕ × String) :=
  [(1000, "1970-01-01T00:00:01.000Z"), (61000, "1970-01-01T00:01:01.000Z"),
    (1801000, "1970-01-01T00:30:01.000Z"), (1861000, "1970-01-01T00:31:01.000Z"),
    (1741000, "1970-01-01T00:29:01.000Z"), (3541000, "1970-01-01T00:59:01.000Z"),
    (43201000, "1970-01-01T12:00:01.000Z"), (86401000, "1970-01-02T00:00:01.000Z")]

/-- A platform with these texts, on which all other dates are decimal numbers. -/
def samplePlatform : Platform where
  dateParse text := if text = "" then none else
    some (((sampleTexts.find? fun entry => entry.2 = text).map (·.1)).getD
      (Nat.ofDigitChars 10 text.toList 0))
  toISOString t := ((sampleTexts.find? fun entry => entry.1 = t).map (·.2)).getD
    (String.ofList (Nat.toDigits 10 t))
  randomUUID n := String.ofList (List.replicate (n + 1) 'u')

theorem find?_sampleTexts {entry : ℕ × String} (h : entry ∈ sampleTexts) : entry.2 ≠ "" ∧
    '-' ∈ entry.2.toList ∧ (sampleTexts.find? fun other => other.2 = entry.2) = some entry := by
  have hlists : (sampleTexts.map fun other => other.2.toList).Nodup ∧
      ∀ text ∈ sampleTexts.map fun other => other.2.toList, '-' ∈ text := by
    unfold sampleTexts
    simp only [List.map_cons, List.map_nil]
    iterate 8 rw [String.toList_ofList]
    decide +kernel
  have hdash : '-' ∈ entry.2.toList := hlists.2 _ (List.mem_map.mpr ⟨entry, h, rfl⟩)
  refine ⟨fun hempty => ?_, hdash, ?_⟩
  · rw [hempty] at hdash
    exact absurd hdash (by decide)
  · cases hfind : sampleTexts.find? fun other => other.2 = entry.2 with
    | none =>
      exact absurd (decide_eq_true rfl) (List.find?_eq_none.mp hfind entry h)
    | some other =>
      have htext : other.2 = entry.2 := by simpa using List.find?_some hfind
      have hsame := List.inj_on_of_nodup_map hlists.1 (List.mem_of_find?_eq_some hfind) h
        (congrArg String.toList htext)
      rw [hsame]

theorem dates_samplePlatform : Dates samplePlatform where
  parse t _ := by
    simp only [samplePlatform]
    cases hfind : sampleTexts.find? fun entry => entry.1 = t with
    | some entry =>
      obtain ⟨hne, -, htext⟩ := find?_sampleTexts (List.mem_of_find?_eq_some hfind)
      have hkey : entry.1 = t := by simpa using List.find?_some hfind
      simp [hne, htext, hkey]
    | none =>
      have hdigits : (sampleTexts.find? fun entry => entry.2 = String.ofList (Nat.toDigits 10 t)) =
          none := by
        rw [List.find?_eq_none]
        intro entry hentry htext
        obtain ⟨-, hdash, -⟩ := find?_sampleTexts hentry
        rw [of_decide_eq_true htext, String.toList_ofList] at hdash
        have hdigit : Char.isDigit '-' = true :=
          Nat.isDigit_of_mem_toDigits (by decide) (by decide) hdash
        exact absurd hdigit (by decide)
      have hne : String.ofList (Nat.toDigits 10 t) ≠ "" := by
        intro hempty
        have hnil := congrArg String.toList hempty
        simp at hnil
      simp [hne, hdigits]
  empty := by decide

/-- A session that is created at one second. -/
def sampleSession : Session where
  id := "sess_u"
  user_id := "user_1"
  active := some true
  created_at := some "1970-01-01T00:00:01.000Z"
  last_activity_at := some "1970-01-01T00:00:01.000Z"
  last_validated_at := none
  absolute_expires_at := some "1970-01-02T00:00:01.000Z"
  idle_expires_at := some "1970-01-01T00:30:01.000Z"
  ip_address := none
  user_agent := none

/-- What its creation leaves. -/
def sampleStore : Store :=
  ((createSession samplePlatform {} "user_1" none none).prog.runWith (machine samplePlatform) ()
    (fun _ => 1000) .init).2

/-- A use after a minute, one that does not count half an hour later, and one after that. -/
def sampleVisits : List Visit :=
  [⟨"sess_u", {}, fun _ => 61000⟩, ⟨"sess_u", { touch := false }, fun _ => 1861000⟩,
    ⟨"sess_u", {}, fun _ => 1861001⟩]

theorem honoured_run_sample : Along (visit samplePlatform {})
    (Honoured samplePlatform {} sampleSession 1000) sampleStore sampleVisits := by
  have hcreate : (createSession samplePlatform {} "user_1" none none).prog.runWith
      (machine samplePlatform) () (fun _ => 1000) .init = (.ok sampleSession, sampleStore) :=
    Prod.ext (by decide +kernel) rfl
  exact honoured_run dates_samplePlatform hcreate (by decide) (by decide) (by decide)

/-- The second use is within the limits, the third is not. -/
example : sampleVisits.map (fun v => (answer samplePlatform {} (visit samplePlatform {} sampleStore
    ⟨"sess_u", {}, fun _ => 61000⟩) v).toOption.join.isSome) = [true, true, false] := by decide +kernel

end SmartDrop.Sessions.Lifetime
