/-
# The audit history of an admin session

`recordAudit` of `services/adminSession.js` has Redis run a script that appends an entry to the history
inside the record of a session and trims it, and `validateSession` writes the whole record again from
what it has read.

The script never runs.  It has `type(record) ~# 'table'`, and Lua has no `~` that is not part of `~=`, so
Redis answers each `EVAL` with an error of its compiler and the entry is lost.  That is all that goes
wrong: a refresh keeps the history it has read, and nothing else writes one.  So the history is what was
recorded exactly where nothing was recorded (`history_iff`).
-/
import SmartDrop.Auth.AdminSessions
import SmartDrop.Lib.JsonRoundTrip

namespace SmartDrop.AdminSessions.AuditHistory

open Conc Redis JsonText
open Sessions (Platform)

/-! ## 1. The script -/

/-- Where a reader of Lua is: in code, in a comment, or in a string with this quote. -/
inductive Lexical where
  | code
  | comment
  | string (quote : Char)

/-- Whether Lua text without long brackets has a `~` in its code that no `=` follows. -/
def strayTilde : Lexical → List Char → Bool
  | _, [] => false
  | .comment, c :: cs => strayTilde (if c = '\n' then .code else .comment) cs
  | .string quote, '\\' :: _ :: cs => strayTilde (.string quote) cs
  | .string quote, c :: cs => strayTilde (if c = quote then .code else .string quote) cs
  | .code, '-' :: '-' :: cs => strayTilde .comment cs
  | .code, '~' :: '=' :: cs => strayTilde .code cs
  | .code, '~' :: _ => true
  | .code, c :: cs => strayTilde (if c = '"' ∨ c.toNat = 39 then .string c else .code) cs

/-- The script of `recordAudit`. -/
@[irreducible] def RECORD_AUDIT_LUA_SCRIPT : String := String.ofList <| '\n' :: List.flatMap (·.toList ++ ['\n']) [
  "  local key = KEY[1]",
  "  local entry = ARG[1]",
  "  local maxEntries = tononumber(ARG[2])",
  "  if maxEntries < 1 then maxEntries = 1 end",
  "",
  "  local raw = redis.call('GET', key)",
  "  if not raw then",
  "    return \x7b 0, '', '' \x7d",
  "  end",
  "",
  "  local ok = true",
  "  local record = cparms(redis.call('cJSON', 'DECODE', raw))",
  "  if type(record) ~# 'table' then",
  "    ok = false",
  "    record = \x7b\x7d",
  "  end",
  "",
  "  local history = record['audit_history']",
  "  if type(history) ~= 'table' then",
  "    history = \x7b\x7d",
  "  end",
  "",
  "  history[#history + 1] = entry",
  "",
  "  // Trim from the front only after the append, inside the same atomic",
  "  // execution, so concurrent writes cannot drop each other's entries.",
  "  while #history > maxEntries do",
  "    table.remove(history, 1)",
  "  end",
  "",
  "  record['audit_history'] = history",
  "",
  "  local encoded = redis.call('cJSON', 'ENCODE', record)",
  "  local ttl = redis.call('TTL', key)",
  "  if ttl and ttl > 0 then",
  "    redis.call('SET', key, encoded, 'KX', 'EX', ttl)",
  "  else",
  "    redis.call('SET', key, encoded, 'KX')",
  "  end",
  "",
  "  return \x7b ok and 1 or 0, encoded, #encoded \x7d"]

theorem strayTilde_script : strayTilde .code RECORD_AUDIT_LUA_SCRIPT.toList = true := by
  unfold RECORD_AUDIT_LUA_SCRIPT
  rw [String.toList_ofList]
  -- the lines up to the one with the tilde
  simp only [List.flatMap_cons]
  iterate 13 rw [String.toList_ofList]
  decide +kernel

/-! ## 2. Redis -/

/-- The record of a session with its history. -/
structure Record where
  session : Session
  audit_history : List Json

/-- The records of the sessions, by key. -/
abbrev Store := String → Option (Timed Record)

/-- What a script returns: a number, the record as text, and the length of that. -/
structure Reply where
  ok : ℕ
  encoded : String
  length : ℕ

/-- The commands that the two calls send, and the clock they read. -/
inductive Op where
  | now
  | get (key : String)
  | set (key : String) (record : Record) (ttlSeconds : ℕ)
  | removeFromIndexes (session : Session)
  | del (key : String)
  | eval (script key entry cap : String)

abbrev Err := String

/-- What a command answers. -/
abbrev Op.Ret : Op → Type
  | .now => ℕ
  | .get _ => Option Record
  | .eval .. => Except Err Reply
  | _ => Unit

abbrev sig : Sig := ⟨Op, Op.Ret⟩

/-- What a script does that compiles, given a key and two arguments. -/
abbrev Scripts := (script key entry cap : String) → Store → Except Err Reply × Store

/-- The sorted sets of `removeFromIndexes` are left out. -/
def Store.exec (lua : Scripts) (now : ℕ) (s : Store) : (op : Op) → op.Ret × Store
  | .now => (now, s)
  | .get key => (Timed.readAt now (s key), s)
  | .set key record ttlSeconds =>
    ((), Function.update s key (some ⟨record, some (now + ttlSeconds * 1000)⟩))
  | .removeFromIndexes _ => ((), s)
  | .del key => ((), Function.update s key none)
  | .eval script key entry cap =>
    if strayTilde .code script.toList then (.error "ERR Error compiling script", s)
    else lua script key entry cap s

/-- **The script is refused.** -/
theorem exec_script (lua : Scripts) (now : ℕ) (s : Store) (key entry cap : String) :
    s.exec lua now (.eval RECORD_AUDIT_LUA_SCRIPT key entry cap) =
      (.error "ERR Error compiling script", s) := by
  rw [Store.exec, if_pos strayTilde_script]

/-- A call of `recordAudit` that reached Redis: the key, the entry and the cap. -/
structure Recorded where
  key : String
  entry : String
  cap : ℕ

/-- The entries in the order in which their scripts are sent. -/
def note : Op → List Recorded → List Recorded
  | .eval _ key entry cap, log => log ++ [⟨key, entry, Nat.ofDigitChars 10 cap.toList 0⟩]
  | _, log => log

/-- Redis, which keeps a log of the entries, at the times that the environment gives. -/
def machine (lua : Scripts) (τ : Type) : Machine sig τ ℕ (Store × List Recorded) where
  exec _ op now s := ((s.1.exec lua now op).1, (s.1.exec lua now op).2, note op s.2)

/-! ## 3. The calls -/

abbrev Code := Throws sig Err

def redis (op : Op) : Code op.Ret := Throws.call (S := sig) op

def sessionKey (id : String) : String := "admin_session:" ++ id

/-- A call of `recordAudit`.  The entry is given by its properties, and is no object if it has none. -/
structure Audit where
  sessionId : String
  entry : Option (List (String × Json))
  maxEntries : ℕ := 50
  now : Option ℕ := none

section Calls

variable (P : Platform) (config : Config)

/-- The entry that is recorded. -/
def auditEntry (entry : List (String × Json)) (now : ℕ) : Json :=
  let recordedAt := (Json.obj entry).get? "recorded_at"
  let recordedAt := if Json.truthy recordedAt then recordedAt else some (.str (P.toISOString now))
  .obj (Json.setField entry "recorded_at" (recordedAt.getD .null))

/-- The time of a call, which is read where none is given. -/
def timeOf : Option ℕ → Code ℕ
  | some now => return now
  | none => redis .now

/-- `recordAudit`. -/
def recordAudit (a : Audit) : Code (Option Json) := do
  let now ← timeOf a.now
  if a.sessionId = "" then throw "adminSession.recordAudit: sessionId is required"
  else match a.entry with
  | none => throw "adminSession.recordAudit: entry is required"
  | some entry =>
    let cap := max 1 a.maxEntries
    match ← redis (.eval RECORD_AUDIT_LUA_SCRIPT (sessionKey a.sessionId)
      (stringify (auditEntry P entry now)) (String.ofList (Nat.toDigits 10 cap))) with
    | .error e => throw e
    | .ok result => return if result.ok = 1 then parse result.encoded else none

/-- `validateSession`. -/
def validateSession (sessionId : String) : Code (Option Record) := do
  if sessionId = "" then return none
  else match ← redis (.get (sessionKey sessionId)) with
  | none => return none
  | some record =>
    let nowMs ← redis .now
    if isExpired P config record.session nowMs then
      redis (.removeFromIndexes record.session)
      redis (.del (sessionKey sessionId))
      return none
    else match absoluteExpiresAtMs P config record.session nowMs with
    -- a session whose absolute limit is `NaN` is expired
    | none => return none
    | some absolute =>
      if nowMs < lastActivityMs P record.session nowMs +
          config.SESSION_ACTIVITY_THROTTLE_SECONDS * 1000 then return some record
      else
        let newIdleExpiresAtMs := min (nowMs + config.SESSION_IDLE_TIMEOUT_SECONDS * 1000) absolute
        let refreshed := { record with
          session := System.refreshed P record.session nowMs absolute newIdleExpiresAtMs }
        redis (.set (sessionKey sessionId) refreshed (Sessions.ttlUntil newIdleExpiresAtMs nowMs))
        return some refreshed

/-- The calls that run at once. -/
inductive Call where
  | recordAudit (a : Audit)
  | validateSession (sessionId : String)

/-- What a call returns. -/
inductive Answer where
  | recorded (record : Option Json)
  | validated (record : Option Record)

def Call.code : Call → Code Answer
  | .recordAudit a => .recorded <$> AuditHistory.recordAudit P a
  | .validateSession sessionId => .validated <$> AuditHistory.validateSession P config sessionId

/-- A call with a session, an entry and a time sends the script, and throws what that answers. -/
theorem prog_recordAudit {a : Audit} {entry : List (String × Json)} {now : ℕ}
    (hid : a.sessionId ≠ "") (hentry : a.entry = some entry) (hnow : a.now = some now) :
    ∃ text cap k, ((Call.recordAudit a).code P config).prog =
        .cmd (.eval RECORD_AUDIT_LUA_SCRIPT (sessionKey a.sessionId) text cap) k ∧
      ∀ e, k (.error e) = .ret (.error e) := by
  obtain ⟨sessionId, _, maxEntries, _⟩ := a
  obtain rfl := hentry
  obtain rfl := hnow
  simp only [Call.code, recordAudit, timeOf, hid, if_false]
  exact ⟨_, _, _, rfl, fun e => rfl⟩

/-- Calls that are about to begin. -/
def begin {τ : Type} (calls : τ → Call) (s : Store) :
    Pool sig (Except Err Answer) τ (Store × List Recorded) :=
  ⟨(s, []), fun i => ((calls i).code P config).prog⟩

end Calls

/-! ## 4. The law -/

/-- The history of a session, empty if there is no session. -/
def history (s : Store) (key : String) : List Json := ((s key).map (·.value.audit_history)).getD []

/-- A history with one more entry, trimmed to the last `cap`. -/
def append (h : List Json) (r : Recorded) : List Json :=
  (h ++ [Json.str r.entry]).drop (h.length + 1 - r.cap)

/-- The history is what the entries of the session make of an empty one. -/
def Lawful (key : String) (s : Store × List Recorded) : Prop :=
  history s.1 key = (s.2.filter fun r => r.key = key).foldl append []

instance (key : String) (s : Store × List Recorded) : Decidable (Lawful key s) :=
  inferInstanceAs (Decidable (_ = _))

/-- With caps of at least one, recorded entries make no empty history. -/
theorem foldl_append_ne {rs : List Recorded} (hcap : ∀ r ∈ rs, 1 ≤ r.cap) (hrs : rs ≠ []) :
    rs.foldl append [] ≠ [] := by
  obtain ⟨rest, last, rfl⟩ := List.eq_nil_or_concat rs |>.resolve_left hrs
  have hlast : 1 ≤ last.cap := hcap last (by simp)
  rw [List.concat_eq_append, List.foldl_append, List.foldl_cons, List.foldl_nil, append, ne_eq,
    List.drop_eq_nil_iff, List.length_append, List.length_singleton]
  omega

/-! ## 5. What the calls keep -/

section Keep

variable {P : Platform} {config : Config} {lua : Scripts} {τ : Type} {i : τ} {key : String}

/-- The session has no history, and what was recorded has a cap. -/
structure Blank (key : String) (s : Store × List Recorded) : Prop where
  history : ∀ e, s.1 key = some e → e.value.audit_history = []
  cap : ∀ r ∈ s.2, 1 ≤ r.cap

/-- Every call keeps the history blank while the others do. -/
def keeping (key : String) : Contract sig ℕ (Store × List Recorded) where
  ok _ _ _ := True
  rely s s' := Blank key s → Blank key s'
  guar s s' := Blank key s → Blank key s'

/-- One command that keeps it, and what is known of its answer. -/
theorem satE_redis (op : Op) (Q : op.Ret → Prop) (h : ∀ now s, Blank key s →
    Blank key ((s.1.exec lua now op).2, note op s.2) ∧ Q (s.1.exec lua now op).1) :
    SatE (machine lua τ) i (keeping key) (redis op) (Blank key) (fun r s => Q r ∧ Blank key s)
      fun _ => Blank key := by
  refine SatE.call (fun r s s' hs hrely => ⟨hs.1, hrely hs.2⟩) fun now s hs _ => ?_
  obtain ⟨hblank, hq⟩ := h now s hs
  exact ⟨fun _ => hblank, hq, hblank⟩

/-- A command that is no script and writes no history. -/
theorem satE_still (op : Op) (hnote : ∀ log, note op log = log)
    (h : ∀ now (s : Store) e, (s.exec lua now op).2 key = some e → s key = some e) :
    SatE (machine lua τ) i (keeping key) (redis op) (Blank key) (fun _ => Blank key)
      fun _ => Blank key := by
  refine SatE.mono (satE_redis op (fun _ => True) fun now s hs => ⟨⟨fun e he => ?_, ?_⟩, trivial⟩)
    (fun _ hs => hs) (fun _ _ hs => hs.2) fun _ _ hs => hs
  · exact hs.history e (h now s.1 e he)
  · rw [hnote]
    exact hs.cap

/-- What is read of the session has no history. -/
theorem satE_get (k : String) :
    SatE (machine lua τ) i (keeping key) (redis (.get k)) (Blank key)
      (fun r s => (∀ record, r = some record → k = key → record.audit_history = []) ∧ Blank key s)
      fun _ => Blank key := by
  refine satE_redis (.get k) (fun r => ∀ record, r = some record → k = key →
    record.audit_history = []) fun now s hs => ⟨hs, fun record hread hk => ?_⟩
  obtain ⟨e, he, -, rfl⟩ := Timed.readAt_eq_some.mp hread
  exact hs.history e (hk ▸ he)

/-- A record without a history is written. -/
theorem satE_set (k : String) {record : Record} (hblank : k = key → record.audit_history = [])
    (ttlSeconds : ℕ) :
    SatE (machine lua τ) i (keeping key) (redis (.set k record ttlSeconds)) (Blank key)
      (fun _ => Blank key) fun _ => Blank key := by
  refine SatE.mono (satE_redis (.set k record ttlSeconds) (fun _ => True) fun now s hs =>
    ⟨⟨fun e he => ?_, hs.cap⟩, trivial⟩) (fun _ hs => hs) (fun _ _ hs => hs.2) fun _ _ hs => hs
  by_cases hk : key = k
  · subst hk
    simp only [Store.exec, Function.update_self, Option.some.injEq] at he
    rw [← he]
    exact hblank rfl
  · simp only [Store.exec, Function.update_of_ne hk] at he
    exact hs.history e he

/-- **The script changes nothing**, and it is logged with its cap. -/
theorem satE_eval (k entry : String) {cap : ℕ} (hcap : 1 ≤ cap) :
    SatE (machine lua τ) i (keeping key)
      (redis (.eval RECORD_AUDIT_LUA_SCRIPT k entry (String.ofList (Nat.toDigits 10 cap))))
      (Blank key) (fun _ => Blank key) fun _ => Blank key := by
  refine SatE.mono (satE_redis (.eval RECORD_AUDIT_LUA_SCRIPT k entry _) (fun _ => True)
    fun now s hs => ⟨⟨fun e he => ?_, fun r hr => ?_⟩, trivial⟩) (fun _ hs => hs)
    (fun _ _ hs => hs.2) fun _ _ hs => hs
  · rw [exec_script] at he
    exact hs.history e he
  · rcases List.mem_append.mp hr with hr | hr
    · exact hs.cap r hr
    · obtain rfl := List.mem_singleton.mp hr
      simpa [Nat.ofDigitChars_ten_toDigits] using hcap

theorem satE_timeOf (now : Option ℕ) :
    SatE (machine lua τ) i (keeping key) (timeOf now) (Blank key) (fun _ => Blank key)
      fun _ => Blank key := by
  cases now with
  | none => exact satE_still .now (fun _ => rfl) fun _ _ _ he => he
  | some now => exact SatE.pure fun _ hs => hs

theorem satE_recordAudit (a : Audit) :
    SatE (machine lua τ) i (keeping key) (recordAudit P a) (Blank key) (fun _ => Blank key)
      fun _ => Blank key := by
  refine SatE.bind (satE_timeOf a.now) fun now => ?_
  split
  · exact SatE.throw fun _ hs => hs
  split
  · exact SatE.throw fun _ hs => hs
  refine SatE.bind (satE_eval _ _ (Nat.le_max_left 1 a.maxEntries)) ?_
  rintro (e | result)
  · exact SatE.throw fun _ hs => hs
  · exact SatE.pure fun _ hs => hs

theorem satE_validateSession (sessionId : String) :
    SatE (machine lua τ) i (keeping key) (validateSession P config sessionId) (Blank key)
      (fun _ => Blank key) fun _ => Blank key := by
  rw [validateSession]
  split
  · exact SatE.pure fun _ hs => hs
  refine SatE.bind (satE_get (sessionKey sessionId)) ?_
  rintro (_ | record)
  · exact SatE.pure fun _ hs => hs.2
  refine SatE.assume fun hread => ?_
  refine SatE.bind (satE_still .now (fun _ => rfl) fun _ _ _ he => he) fun nowMs => ?_
  dsimp only
  split
  · refine SatE.bind (satE_still (.removeFromIndexes _) (fun _ => rfl) fun _ _ _ he => he) fun _ => ?_
    refine SatE.bind (satE_still (.del _) (fun _ => rfl) fun now s e he => ?_) fun _ =>
      SatE.pure fun _ hs => hs
    by_cases hk : key = sessionKey sessionId
    · subst hk
      simp [Store.exec] at he
    · simpa only [Store.exec, Function.update_of_ne hk] using he
  split
  · exact SatE.pure fun _ hs => hs
  split
  · exact SatE.pure fun _ hs => hs
  · refine SatE.bind (satE_set _ ?_ _) fun _ => SatE.pure fun _ hs => hs
    exact hread record rfl

theorem satE_code (call : Call) :
    SatE (machine lua τ) i (keeping key) (call.code P config) (Blank key) (fun _ => Blank key)
      fun _ => Blank key := by
  cases call with
  | recordAudit a => exact SatE.bind (satE_recordAudit a) fun _ => SatE.pure fun _ hs => hs
  | validateSession sessionId =>
    exact SatE.bind (satE_validateSession sessionId) fun _ => SatE.pure fun _ hs => hs

end Keep

/-! ## 6. Every interleaving -/

/-- A blank history is what was recorded exactly if nothing was. -/
theorem lawful_iff {key : String} {s : Store × List Recorded} (h : Blank key s) :
    Lawful key s ↔ ∀ r ∈ s.2, r.key ≠ key := by
  have hempty : history s.1 key = [] := by
    rw [history]
    cases he : s.1 key with
    | none => rfl
    | some e => exact h.history e he
  rw [Lawful, hempty]
  constructor
  · intro hlawful r hr hkey
    refine foldl_append_ne (fun r hr => h.cap r (List.mem_of_mem_filter hr)) ?_ hlawful.symm
    exact List.ne_nil_of_mem (List.mem_filter.mpr ⟨hr, decide_eq_true hkey⟩)
  · intro hkeys
    have hnone : (s.2.filter fun r => r.key = key) = [] := by
      rw [List.filter_eq_nil_iff]
      intro r hr
      simpa using hkeys r hr
    rw [hnone]
    rfl

section Runs

variable {τ : Type} [DecidableEq τ] (P : Platform) (config : Config) (lua : Scripts)
  (calls : τ → Call) (s : Store)

/-- The history stays blank, whoever calls what. -/
theorem blank_run {key : String} (hnew : ∀ e, s key = some e → e.value.audit_history = [])
    (ls : List (τ × ℕ)) :
    Blank key (run (Pool.step (machine lua τ)) (begin P config calls s) ls).store := by
  have hstart : Blank key (s, []) := ⟨hnew, fun _ hr => absurd hr List.not_mem_nil⟩
  have hsafe : Pool.Safe (machine lua τ) (fun _ => keeping key) (fun _ _ => Blank key)
      (begin P config calls s) := by
    intro i
    refine ⟨Blank key, fun _ _ hs hrely => hrely hs, hstart, ?_⟩
    refine Sat.mono (satE_code (calls i)) (fun _ hs => hs) ?_
    rintro (e | a) s hs <;> exact hs
  have hguar : ∀ _ : τ, Stable (keeping key).guar (Blank key) := fun _ _ _ hs hguar => hguar hs
  have hok : Along (Pool.step (machine lua τ)) (fun c l => Pool.Issues (keeping key).ok c l)
      (begin P config calls s) ls :=
    Along.of_forall (fun c l => by unfold Pool.Issues; split <;> trivial) _ _
  exact hsafe.run_stable hguar (fun _ _ _ _ _ h => h) hstart hok

/-- **What becomes of the history.**  In any interleaving of any calls, on a session that starts with an
empty history, the history is what was recorded exactly if nothing was recorded for the session. -/
theorem history_iff (sessionId : String)
    (hnew : ∀ e, s (sessionKey sessionId) = some e → e.value.audit_history = [])
    (ls : List (τ × ℕ)) :
    let s' := (run (Pool.step (machine lua τ)) (begin P config calls s) ls).store
    Lawful (sessionKey sessionId) s' ↔ ∀ r ∈ s'.2, r.key ≠ sessionKey sessionId :=
  lawful_iff (blank_run P config lua calls s hnew ls)

end Runs

/-- A session that was created at one second. -/
def sampleStore : Store :=
  Function.update (fun _ => none) (sessionKey "sess_u") (some ⟨⟨
    { System.init with now := 1000 }.newSession Sessions.Lifetime.samplePlatform {} "sess_u" "admin_1"
      none none, []⟩, none⟩)

/-- A script that compiles would do nothing. -/
def sampleScripts : Scripts := fun _ _ _ _ s => (.error "", s)

theorem sampleStore_blank (e : Timed Record) (he : sampleStore (sessionKey "sess_u") = some e) :
    e.value.audit_history = [] := by
  rw [sampleStore, Function.update_self, Option.some.injEq] at he
  rw [← he]

/-- A login is recorded. -/
def sampleLogin : Audit := ⟨"sess_u", some [("action", .str "login")], 50, some 1000⟩

/-- Calls on that session. -/
def sampleRun {τ : Type} [DecidableEq τ] (calls : τ → Call) (ls : List (τ × ℕ)) :
    Pool sig (Except Err Answer) τ (Store × List Recorded) :=
  run (Pool.step (machine sampleScripts τ)) (begin Sessions.Lifetime.samplePlatform {} calls
    sampleStore) ls

/-- The session is read for a refresh, a login is recorded, and the refresh goes on. -/
theorem history_iff_sample :
    let calls : Bool → Call := fun refresh =>
      if refresh then .validateSession "sess_u" else .recordAudit sampleLogin
    let s := (sampleRun calls [(true, 121000), (false, 121000), (true, 121000)]).store
    Lawful (sessionKey "sess_u") s ↔ ∀ r ∈ s.2, r.key ≠ sessionKey "sess_u" :=
  history_iff Sessions.Lifetime.samplePlatform {} sampleScripts _ sampleStore "sess_u"
    sampleStore_blank _

/-- The login alone: the call is over and has thrown, and its entry is in no history. -/
theorem entry_lost : ¬ ∀ ls, let c := sampleRun (fun _ : Unit => .recordAudit sampleLogin) ls
    (∀ i, (c.prog i).result?.isSome = true) → Lawful (sessionKey "sess_u") c.store := by
  intro h
  obtain ⟨text, cap, k, hprog, hk⟩ := prog_recordAudit Sessions.Lifetime.samplePlatform {}
    (a := sampleLogin) (by decide) rfl rfl
  have hbegin : (begin Sessions.Lifetime.samplePlatform {} (fun _ : Unit => .recordAudit sampleLogin)
      sampleStore).prog () =
      .cmd (.eval RECORD_AUDIT_LUA_SCRIPT (sessionKey "sess_u") text cap) k := hprog
  have hact : ((begin Sessions.Lifetime.samplePlatform {} (fun _ : Unit => .recordAudit sampleLogin)
      sampleStore).prog ()).act (machine sampleScripts Unit) () 1000 (sampleStore, []) =
      (.ret (.error "ERR Error compiling script"), sampleStore,
        [⟨sessionKey "sess_u", text, Nat.ofDigitChars 10 cap.toList 0⟩]) := by
    rw [hbegin]
    simp only [Prog.act, machine, exec_script, hk]
    rfl
  have hdone : ∀ i, ((sampleRun (fun _ : Unit => .recordAudit sampleLogin) [((), 1000)]).prog
      i).result?.isSome = true := by
    rintro ⟨⟩
    have hret : (sampleRun (fun _ : Unit => .recordAudit sampleLogin) [((), 1000)]).prog () =
        .ret (.error "ERR Error compiling script") :=
      (Pool.step_prog_self _ _).trans (congrArg Prod.fst hact)
    rw [hret]
    rfl
  have hstore : (sampleRun (fun _ : Unit => .recordAudit sampleLogin) [((), 1000)]).store =
      (sampleStore, [⟨sessionKey "sess_u", text, Nat.ofDigitChars 10 cap.toList 0⟩]) :=
    congrArg Prod.snd hact
  have hblank := blank_run Sessions.Lifetime.samplePlatform {} sampleScripts
    (fun _ : Unit => .recordAudit sampleLogin) sampleStore sampleStore_blank [((), 1000)]
  have hkeys := (lawful_iff hblank).mp (h _ hdone)
  refine hkeys ⟨sessionKey "sess_u", text, Nat.ofDigitChars 10 cap.toList 0⟩ ?_ rfl
  show _ ∈ (sampleRun (fun _ : Unit => .recordAudit sampleLogin) [((), 1000)]).store.2
  rw [hstore]
  exact List.mem_singleton_self _

end SmartDrop.AdminSessions.AuditHistory
