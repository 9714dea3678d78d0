/-
# Logging out while the session is in use

Any number of validations and invalidations run at once, one command at a time.  A validation
writes back the record it has read, and the write also comes after another call has deleted the
record, so that a session that was logged out works again (`logout_undone`).  Once an
invalidation has completed, no validation that starts later returns the session, in every run
in which each such write finds the record still there (`logout_final`).
-/
import SmartDrop.Auth.Sessions
import SmartDrop.Lib.Run
import Mathlib.Algebra.GroupWithZero.Nat

namespace SmartDrop.Sessions

open Conc Redis

/-! ## 1. The concurrent system -/

/-- The calls. -/
inductive Call where
  | validateSession (id : String) (options : ValidateOptions)
  | invalidateSession (id : String)
  | invalidateAllUserSessions (userId : String)

/-- What they return. -/
inductive Outcome where
  | validated (session : Option Session)
  | invalidated (done : Bool)
  | invalidatedAll (count : ℕ)

/-- The code of a call. -/
def Call.code (P : Platform) (config : Config) : Call → Code Outcome
  | .validateSession id options => do
    let session ← Sessions.validateSession P config id options
    return .validated session
  | .invalidateSession id => do
    let done ← Sessions.invalidateSession id
    return .invalidated done
  | .invalidateAllUserSessions userId => do
    let count ← Sessions.invalidateAllUserSessions userId
    return .invalidatedAll count

/-- A store and what each call has still to do. -/
abbrev Calls (τ : Type) := Pool sig (Except Err Outcome) τ Store

/-- Every call is about to begin. -/
def beginCalls {τ : Type} (P : Platform) (config : Config) (calls : τ → Call) (s : Store) :
    Calls τ := ⟨s, fun i => ((calls i).code P config).prog⟩

/-- The calls act on one Redis; the environment's answers are the times of the steps. -/
def callMachine {τ : Type} (P : Platform) : Machine sig τ ℕ Store := (machine P).comap fun _ => ()

/-- Call `i` has invalidated the session `sid` of the user `u`, alone or with all others. -/
def Invalidated {τ : Type} (calls : τ → Call) (sid u : String) (c : Calls τ) (i : τ) : Prop :=
  (calls i = .invalidateSession sid ∧ c.prog i = .ret (.ok (.invalidated true))) ∨
    (calls i = .invalidateAllUserSessions u ∧ ∃ n, c.prog i = .ret (.ok (.invalidatedAll n)))

/-- Call `i` has returned a session. -/
def ReturnedSession {τ : Type} (c : Calls τ) (i : τ) : Prop :=
  ∃ session, c.prog i = .ret (.ok (.validated (some session)))

/-- The session has been deleted. -/
def Gone (sid : String) (s : Store) : Prop := s.sessions sid = none

instance (sid : String) (s : Store) : Decidable (Gone sid s) :=
  inferInstanceAs (Decidable (s.sessions sid = none))

/-- A session that is stored is one of the sessions of the user `u`. -/
def Listed (sid u : String) (s : Store) : Prop :=
  ∀ e, s.sessions sid = some e → e.value.user_id = u ∧ sid ∈ s.userSessions u

/-- A write of the session finds it stored. -/
def FindsSession (sid : String) (op : Op) (_ : ℕ) (s : Store) : Prop :=
  match op with
  | .setSession id _ _ => id = sid → ¬ Gone sid s
  | _ => True

instance (sid : String) (op : Op) (x : ℕ) (s : Store) : Decidable (FindsSession sid op x s) := by
  cases op <;> unfold FindsSession <;> infer_instance

/-! ## 2. The contract -/

/-- What every step does: the session stays listed, and what was deleted stays deleted. -/
def Moves (sid u : String) (s s' : Store) : Prop := Listed sid u s' ∧ (Gone sid s → Gone sid s')

/-- The contract of every call: the writes of the session find it stored, and all move alike. -/
def logout (sid u : String) : Contract sig ℕ Store where
  ok := FindsSession sid
  rely := Moves sid u
  guar := Moves sid u

variable {τ : Type} {P : Platform} {config : Config} {sid u : String} {s s' : Store}

theorem stable_listed : Stable (Moves sid u) (Listed sid u) := fun _ _ _ h => h.1

theorem stable_gone : Stable (Moves sid u) fun s => Listed sid u s ∧ Gone sid s :=
  fun _ _ h hm => ⟨hm.1, hm.2 h.2⟩

theorem Gone.listed (h : Gone sid s) : Listed sid u s :=
  fun _ he => absurd (he.symm.trans h) (by simp)

/-- Commands that leave alone what `Listed` says of the session. -/
def Op.Spares (sid u : String) : Op → Prop
  | .setSession id _ _ => id ≠ sid
  | .sremUser _ id => id ≠ sid
  | .multiForget _ userId => userId ≠ u
  | _ => True

/-- A sparing command keeps the session listed and what was deleted deleted. -/
theorem moves_of_spares (op : Op) (hop : op.Spares sid u) (h : Listed sid u s) (x : ℕ) :
    Moves sid u s (s.exec P x op).2 := by
  cases op with
  | setSession id record ttl =>
    have hsame : (s.exec P x (.setSession id record ttl)).2.sessions sid = s.sessions sid :=
      Function.update_of_ne (Ne.symm hop) _ _
    refine ⟨fun e he => h e (hsame ▸ he), fun hg => hsame.trans hg⟩
  | delSession id =>
    by_cases heq : sid = id
    · subst heq
      have hgone : Gone sid (s.exec P x (.delSession sid)).2 := Function.update_self ..
      exact ⟨hgone.listed, fun _ => hgone⟩
    · have hsame : (s.exec P x (.delSession id)).2.sessions sid = s.sessions sid :=
        Function.update_of_ne heq _ _
      exact ⟨fun e he => h e (hsame ▸ he), fun hg => hsame.trans hg⟩
  | saddUser userId id =>
    refine ⟨fun e he => ⟨(h e he).1, ?_⟩, fun hg => hg⟩
    by_cases heq : u = userId
    · subst heq
      show sid ∈ Function.update s.userSessions u _ u
      rw [Function.update_self]
      exact RSet.mem_sadd.mpr (Or.inl (h e he).2)
    · show sid ∈ Function.update s.userSessions userId _ u
      rw [Function.update_of_ne heq]
      exact (h e he).2
  | sremUser userId id =>
    refine ⟨fun e he => ⟨(h e he).1, ?_⟩, fun hg => hg⟩
    by_cases heq : u = userId
    · subst heq
      show sid ∈ Function.update s.userSessions u _ u
      rw [Function.update_self]
      exact RSet.mem_srem.mpr ⟨(h e he).2, Ne.symm hop⟩
    · show sid ∈ Function.update s.userSessions userId _ u
      rw [Function.update_of_ne heq]
      exact (h e he).2
  | multiForget ids userId =>
    refine ⟨fun e he => ⟨(h e he).1, ?_⟩, fun hg => hg⟩
    show sid ∈ Function.update s.userSessions userId _ u
    rw [Function.update_of_ne (Ne.symm hop)]
    exact (h e he).2
  | _ => exact ⟨h, fun hg => hg⟩

/-- Whatever becomes of the sets of users, a deleted session stays as it is. -/
theorem moves_of_gone {op : Op} (hop : ∀ id record ttl, op = .setSession id record ttl → id ≠ sid)
    (h : Gone sid s) (x : ℕ) : Moves sid u s (s.exec P x op).2 ∧ Gone sid (s.exec P x op).2 := by
  have hgone : Gone sid (s.exec P x op).2 := by
    cases op with
    | setSession id record ttl =>
      exact (Function.update_of_ne (Ne.symm (hop id record ttl rfl)) _ _).trans h
    | delSession id =>
      by_cases heq : sid = id
      · subst heq
        exact Function.update_self ..
      · exact (Function.update_of_ne heq _ _).trans h
    | _ => exact h
  exact ⟨⟨hgone.listed, fun _ => hgone⟩, hgone⟩

/-! ## 3. What the calls issue -/

/-- The commands of a call that has nothing to do with the session. -/
def Uses (sid u : String) {α : Type} (code : Code α) : Prop :=
  Throws.Uses (S := sig) (Op.Spares sid u) code

theorem uses_redis {op : Op} (h : op.Spares sid u) : Uses sid u (redis op) := Throws.uses_call h

theorem uses_createdAt (record : Session) : Uses sid u (createdAt P record) := by
  unfold createdAt
  split
  · exact Throws.uses_pure _
  · exact uses_redis trivial

theorem uses_getSessionTimestamps (record : Session) :
    Uses sid u (getSessionTimestamps P config record) :=
  Throws.Uses.bind (uses_createdAt record) fun _ => Throws.uses_pure _

theorem uses_isSessionExpired (record : Session) (nowMs : ℕ) :
    Uses sid u (isSessionExpired P config record nowMs) := by
  unfold isSessionExpired
  split
  · exact Throws.uses_pure _
  · exact Throws.Uses.bind (uses_getSessionTimestamps record) fun _ => Throws.uses_pure _

theorem uses_clock (options : ValidateOptions) : Uses sid u (clock options) := by
  unfold clock
  split
  · exact Throws.uses_pure _
  · exact uses_redis trivial

variable {id : String}

theorem uses_invalidateSession (hid : id ≠ sid) : Uses sid u (invalidateSession id) := by
  unfold invalidateSession
  split
  · exact Throws.uses_pure _
  refine Throws.Uses.bind (uses_redis trivial) fun record => ?_
  refine Throws.Uses.bind (uses_redis trivial) fun _ => ?_
  refine Throws.Uses.bind (uses_redis trivial) fun _ => ?_
  cases record with
  | none => exact Throws.uses_pure _
  | some record =>
    dsimp only
    split
    · exact Throws.uses_pure _
    · exact Throws.Uses.bind (uses_redis hid) fun _ => Throws.uses_pure _

theorem uses_refreshSession (hid : id ≠ sid) (record : Session) (nowMs : ℕ) :
    Uses sid u (refreshSession P config id record nowMs) := by
  refine Throws.Uses.bind (uses_getSessionTimestamps record) fun t => ?_
  split
  · exact Throws.uses_pure _
  split
  · exact Throws.uses_throw _
  · refine Throws.Uses.bind (uses_redis hid) fun _ => ?_
    exact Throws.Uses.bind (uses_redis trivial) fun _ => Throws.uses_pure _

theorem uses_validateSession (hid : id ≠ sid) (options : ValidateOptions) :
    Uses sid u (validateSession P config id options) := by
  refine Throws.Uses.bind (uses_clock options) fun nowMs => ?_
  split
  · exact Throws.uses_pure _
  refine Throws.Uses.bind (uses_redis trivial) fun record => ?_
  cases record with
  | none => exact Throws.uses_pure _
  | some record =>
    refine Throws.Uses.bind (uses_isSessionExpired record nowMs) fun expired => ?_
    split
    · exact Throws.Uses.bind (uses_invalidateSession hid) fun _ => Throws.uses_pure _
    split
    · exact Throws.uses_pure _
    · exact Throws.Uses.bind (uses_refreshSession hid record nowMs) fun _ => Throws.uses_pure _

theorem uses_delSessions (ids : List String) : Uses sid u (delSessions ids) := by
  induction ids with
  | nil => exact Throws.uses_pure _
  | cons id ids ih => exact Throws.Uses.bind (uses_redis trivial) fun _ => ih

theorem uses_invalidateAllUserSessions {userId : String} (hu : userId ≠ u) :
    Uses sid u (invalidateAllUserSessions userId) := by
  unfold invalidateAllUserSessions
  split
  · exact Throws.uses_pure _
  refine Throws.Uses.bind (uses_redis trivial) fun ids => ?_
  split
  · exact Throws.uses_pure _
  refine Throws.Uses.bind (uses_delSessions ids) fun _ => ?_
  exact Throws.Uses.bind (uses_redis hu) fun _ => Throws.uses_pure _

/-! ## 4. The calls that concern the session -/

/-- A piece of code under the contract, as any of the calls; nothing is said of what is thrown. -/
def Holds {α : Type} (P : Platform) (sid u : String) (code : Code α) (A : Store → Prop)
    (Q : α → Store → Prop) : Prop :=
  SatE (machine P) () (logout sid u) code A Q fun _ _ => True

/-- Code that spares the session keeps it listed. -/
theorem holds_of_uses {α : Type} {code : Code α} (h : Uses sid u code) :
    Holds P sid u code (Listed sid u) fun _ => Listed sid u := by
  refine (SatE.frame stable_listed (fun op hop x s hs _ => ?_) h).mono (fun _ h => h)
    (fun _ _ h => h) fun _ _ _ => trivial
  have hm := moves_of_spares (P := P) _ hop hs x
  exact ⟨hm, hm.1⟩

/-- Code that spares the session leaves it deleted. -/
theorem holds_gone_of_uses {α : Type} {code : Code α} (h : Uses sid u code) :
    Holds P sid u code (fun s => Listed sid u s ∧ Gone sid s) fun _ s =>
      Listed sid u s ∧ Gone sid s := by
  refine (SatE.frame stable_gone (fun op hop x s hs _ => ?_) h).mono (fun _ h => h)
    (fun _ _ h => h) fun _ _ _ => trivial
  have hm := moves_of_spares (P := P) _ hop hs.1 x
  exact ⟨hm, hm.1, hm.2 hs.2⟩

/-- A command after the session was deleted. -/
theorem holds_gone {op : Op} (hop : ∀ id record ttl, op = .setSession id record ttl → id ≠ sid) :
    Holds P sid u (redis op) (fun s => Listed sid u s ∧ Gone sid s) fun _ s =>
      Listed sid u s ∧ Gone sid s := by
  refine SatE.call (fun _ => stable_gone) fun x s hs _ => ?_
  obtain ⟨hm, hgone⟩ := moves_of_gone (P := P) hop hs.2 x
  exact ⟨hm, hm.1, hgone⟩

/-- The deletion of the session. -/
theorem holds_delSession : Holds P sid u (redis (.delSession sid)) (Listed sid u) fun _ s =>
    Listed sid u s ∧ Gone sid s := by
  refine SatE.call (fun _ => stable_gone) fun x s hs _ => ?_
  have hm := moves_of_spares (P := P) (.delSession sid) trivial hs x
  exact ⟨hm, hm.1, Function.update_self ..⟩

/-- **An invalidation of the session** that returns `true` has deleted it. -/
theorem holds_invalidateSession : Holds P sid u (invalidateSession sid) (Listed sid u)
    fun done s => Listed sid u s ∧ (done = true → Gone sid s) := by
  unfold invalidateSession
  split
  · exact SatE.pure fun s hs => ⟨hs, fun h => (nomatch h)⟩
  refine SatE.bind (holds_of_uses (uses_redis trivial)) fun record => ?_
  refine SatE.bind holds_delSession fun _ => ?_
  refine SatE.bind (holds_gone (by simp)) fun _ => ?_
  cases record with
  | none => exact SatE.pure fun s hs => ⟨hs.1, fun _ => hs.2⟩
  | some record =>
    dsimp only
    split
    · exact SatE.pure fun s hs => ⟨hs.1, fun _ => hs.2⟩
    · refine SatE.bind (holds_gone (by simp)) fun _ => ?_
      exact SatE.pure fun s hs => ⟨hs.1, fun _ => hs.2⟩

/-- A write of the session that finds it stored, with a record of the same user. -/
theorem holds_setSession {record : Session} (huser : record.user_id = u) (ttlSeconds : ℕ) :
    Holds P sid u (redis (.setSession sid record ttlSeconds)) (Listed sid u) fun _ =>
      Listed sid u := by
  refine SatE.call (fun _ => stable_listed) fun x s hs hok => ?_
  have hfound : ¬ Gone sid s := hok rfl
  obtain ⟨e, he⟩ := Option.ne_none_iff_exists'.mp hfound
  have hnew : (s.exec P x (.setSession sid record ttlSeconds)).2.sessions sid =
      some ⟨record, some (x + ttlSeconds * 1000)⟩ := Function.update_self ..
  have hlisted : Listed sid u (s.exec P x (.setSession sid record ttlSeconds)).2 := by
    intro e' he'
    obtain rfl := Option.some.inj (hnew.symm.trans he')
    exact ⟨huser, (hs e he).2⟩
  exact ⟨⟨hlisted, fun hg => absurd hg hfound⟩, hlisted⟩

/-- A refresh writes the record of the same user. -/
theorem holds_refreshSession {record : Session} (huser : record.user_id = u) (nowMs : ℕ) :
    Holds P sid u (refreshSession P config sid record nowMs) (Listed sid u) fun _ =>
      Listed sid u := by
  refine SatE.bind (holds_of_uses (uses_getSessionTimestamps record)) fun t => ?_
  split
  · exact SatE.pure fun s hs => hs
  split
  · exact SatE.throw fun s _ => trivial
  · refine SatE.bind (holds_setSession (by exact huser) _) fun _ => ?_
    exact SatE.bind (holds_of_uses (uses_redis trivial)) fun _ => SatE.pure fun s hs => hs

/-- The read of the session: what it finds belongs to the user. -/
theorem holds_getSession : Holds P sid u (redis (.getSession sid)) (Listed sid u) fun record s =>
    (∀ r, record = some r → r.user_id = u) ∧ Listed sid u s := by
  refine SatE.call (fun _ _ _ hs hm => ⟨hs.1, hm.1⟩) fun x s hs _ => ?_
  refine ⟨⟨hs, id⟩, fun r hr => ?_, hs⟩
  obtain ⟨e, he, -, rfl⟩ := Timed.readAt_eq_some.mp hr
  exact (hs e he).1

theorem holds_validateSession (options : ValidateOptions) :
    Holds P sid u (validateSession P config sid options) (Listed sid u) fun _ => Listed sid u := by
  refine SatE.bind (holds_of_uses (uses_clock options)) fun nowMs => ?_
  split
  · exact SatE.pure fun s hs => hs
  refine SatE.bind holds_getSession fun record => SatE.assume fun huser => ?_
  cases record with
  | none => exact SatE.pure fun s hs => hs
  | some record =>
    refine SatE.bind (holds_of_uses (uses_isSessionExpired record nowMs)) fun expired => ?_
    split
    · refine SatE.bind (holds_invalidateSession.mono (fun _ h => h) (fun _ _ h => h.1)
        fun _ _ h => h) fun _ => ?_
      exact SatE.pure fun s hs => hs
    split
    · exact SatE.pure fun s hs => hs
    · refine SatE.bind (holds_refreshSession (huser record rfl) nowMs) fun _ => ?_
      exact SatE.pure fun s hs => hs

/-- **A validation that starts after the deletion** finds nothing. -/
theorem holds_validateSession_gone (options : ValidateOptions) :
    Holds P sid u (validateSession P config sid options)
      (fun s => Listed sid u s ∧ Gone sid s) fun session _ => session = none := by
  refine SatE.bind (holds_gone_of_uses (uses_clock options)) fun nowMs => ?_
  split
  · exact SatE.pure fun s hs => rfl
  have hread : Holds P sid u (redis (.getSession sid)) (fun s => Listed sid u s ∧ Gone sid s)
      fun record s => record = none ∧ Listed sid u s := by
    refine SatE.call (fun _ _ _ hs hm => ⟨hs.1, hm.1⟩) fun x s hs _ => ?_
    refine ⟨⟨hs.1, id⟩, ?_, hs.1⟩
    show Timed.readAt x (s.sessions sid) = none
    rw [show s.sessions sid = none from hs.2]
    rfl
  refine SatE.bind hread fun record => SatE.assume fun hnone => ?_
  subst hnone
  exact SatE.pure fun s hs => rfl

/-- Deleting a list of sessions deletes those that are in it. -/
theorem holds_delSessions (ids : List String) :
    Holds P sid u (delSessions ids) (fun s => Listed sid u s ∧ (sid ∉ ids → Gone sid s))
      fun _ s => Listed sid u s ∧ Gone sid s := by
  induction ids with
  | nil => exact SatE.pure fun s hs => ⟨hs.1, hs.2 List.not_mem_nil⟩
  | cons id ids ih =>
    refine SatE.bind (Q := fun _ s => Listed sid u s ∧ (sid ∉ ids → Gone sid s)) ?_ fun _ => ih
    refine SatE.call (fun _ _ _ hs hm => ⟨hm.1, fun hout => hm.2 (hs.2 hout)⟩) fun x s hs _ => ?_
    have hm := moves_of_spares (P := P) (.delSession id) trivial hs.1 x
    refine ⟨hm, hm.1, fun hout => ?_⟩
    by_cases heq : sid = id
    · subst heq
      exact Function.update_self ..
    · exact hm.2 (hs.2 (by simp [heq, hout]))

/-- **An invalidation of all sessions of the user** has deleted the session. -/
theorem holds_invalidateAllUserSessions (hu : u ≠ "") :
    Holds P sid u (invalidateAllUserSessions u) (Listed sid u) fun _ => Gone sid := by
  unfold invalidateAllUserSessions
  rw [if_neg hu]
  have hread : Holds P sid u (redis (.smembersUser u)) (Listed sid u) fun ids s =>
      Listed sid u s ∧ (sid ∉ ids → Gone sid s) := by
    refine SatE.call (fun _ _ _ hs hm => ⟨hm.1, fun hout => hm.2 (hs.2 hout)⟩) fun x s hs _ => ?_
    refine ⟨⟨hs, id⟩, hs, fun hout => ?_⟩
    by_contra hfound
    obtain ⟨e, he⟩ := Option.ne_none_iff_exists'.mp hfound
    exact hout (hs e he).2
  refine SatE.bind hread fun ids => ?_
  split
  · rename_i hempty
    subst hempty
    exact SatE.pure fun s hs => hs.2 List.not_mem_nil
  · refine SatE.bind (holds_delSessions ids) fun _ => ?_
    refine SatE.bind (holds_gone (by simp)) fun _ => ?_
    exact SatE.pure fun s hs => hs.2

/-! ## 5. Every interleaving -/

/-- What a call has brought about when it returns. -/
def Returns (sid u : String) (call : Call) (r : Except Err Outcome) (s : Store) : Prop :=
  (call = .invalidateSession sid → r = .ok (.invalidated true) → Gone sid s) ∧
    (call = .invalidateAllUserSessions u → ∀ n, r = .ok (.invalidatedAll n) → Gone sid s)

/-- A call with its outcome wrapped. -/
theorem holds_code {α : Type} {code : Code α} {A : Store → Prop} {Q : α → Store → Prop}
    {R : Outcome → Store → Prop} {f : α → Outcome} (h : Holds P sid u code A Q)
    (hQ : ∀ a s, Q a s → R (f a) s) :
    Holds P sid u (do let a ← code; return f a) A R :=
  SatE.bind h fun a => SatE.pure (hQ a)

/-- **Every call meets the contract.** -/
theorem sat_code (hu : u ≠ "") (call : Call) :
    Sat (machine P) () (logout sid u) (call.code P config).prog (Listed sid u)
      (Returns sid u call) := by
  have wrap : ∀ {Q : Outcome → Store → Prop}, Holds P sid u (call.code P config) (Listed sid u) Q →
      (∀ o s, Q o s → Returns sid u call (.ok o) s) →
      Sat (machine P) () (logout sid u) (call.code P config).prog (Listed sid u)
        (Returns sid u call) := by
    intro Q h hQ
    refine Sat.mono h (fun _ hs => hs) ?_
    rintro (e | o) s hs
    · exact ⟨fun _ h => (nomatch h), fun _ _ h => (nomatch h)⟩
    · exact hQ o s hs
  cases call with
  | validateSession id options =>
    have h : Holds P sid u (validateSession P config id options) (Listed sid u) fun _ _ => True := by
      by_cases hid : id = sid
      · subst hid
        exact (holds_validateSession options).mono (fun _ h => h) (fun _ _ _ => trivial)
          fun _ _ h => h
      · exact (holds_of_uses (uses_validateSession hid options)).mono (fun _ h => h)
          (fun _ _ _ => trivial) fun _ _ h => h
    refine wrap (holds_code h (R := fun _ _ => True) fun _ _ _ => trivial) fun o s _ => ?_
    exact ⟨fun h => (nomatch h), fun h => (nomatch h)⟩
  | invalidateSession id =>
    by_cases hid : id = sid
    · subst hid
      refine wrap (holds_code holds_invalidateSession
        (R := fun o s => o = .invalidated true → Gone id s) ?_) fun o s h => ?_
      · rintro done s hs heq
        cases heq
        exact hs.2 rfl
      · exact ⟨fun _ heq => h (Except.ok.inj heq), fun h => (nomatch h)⟩
    · refine wrap (holds_code (holds_of_uses (uses_invalidateSession hid)) (R := fun _ _ => True)
        fun _ _ _ => trivial) fun o s _ => ?_
      exact ⟨fun h => absurd (Call.invalidateSession.inj h) hid, fun h => (nomatch h)⟩
  | invalidateAllUserSessions userId =>
    by_cases huser : userId = u
    · subst huser
      refine wrap (holds_code (holds_invalidateAllUserSessions hu) (R := fun _ => Gone sid)
        fun _ _ h => h) fun o s h => ?_
      exact ⟨fun h => (nomatch h), fun _ _ _ => h⟩
    · refine wrap (holds_code (holds_of_uses (uses_invalidateAllUserSessions huser))
        (R := fun _ _ => True) fun _ _ _ => trivial) fun o s _ => ?_
      exact ⟨fun h => (nomatch h), fun h => absurd (Call.invalidateAllUserSessions.inj h) huser⟩

/-- **Logout is final.**  Any calls run in any interleaving and at any times, and every refresh
of the session finds its record still stored.  Once an invalidation of the session has returned,
a validation of it that has not started by then returns no session. -/
theorem logout_final {τ : Type} [DecidableEq τ] (P : Platform) (config : Config)
    (calls : τ → Call) (s : Store) (sid u : String) (hu : u ≠ "") (hlisted : Listed sid u s)
    (l₁ l₂ : List (τ × ℕ))
    (hls : Along (Pool.step (callMachine P)) (Pool.Issues (FindsSession sid))
      (beginCalls P config calls s) (l₁ ++ l₂))
    (i j : τ)
    (hi : Invalidated calls sid u
      (run (Pool.step (callMachine P)) (beginCalls P config calls s) l₁) i)
    (options : ValidateOptions) (hj : calls j = .validateSession sid options)
    (hlater : ∀ l ∈ l₁, l.1 ≠ j) :
    ¬ ReturnedSession
      (run (Pool.step (callMachine P)) (beginCalls P config calls s) (l₁ ++ l₂)) j := by
  obtain ⟨hl₁, hl₂⟩ := (along_append _ l₁ l₂).mp hls
  have hmid : (run (Pool.step (callMachine P)) (beginCalls P config calls s) l₁).Safe
      (callMachine P) (fun _ => logout sid u) fun i => Returns sid u (calls i) := by
    refine Pool.Safe.run (fun _ _ _ _ _ h => h) (fun i => ?_) hl₁
    exact ⟨Listed sid u, stable_listed, hlisted, (sat_code hu (calls i)).comap⟩
  have hstart := Pool.run_prog_of_not_mem (M := callMachine P) (c := beginCalls P config calls s)
    hlater
  rw [run_append]
  generalize run (Pool.step (callMachine P)) (beginCalls P config calls s) l₁ = c at *
  have hgone : Gone sid c.store := by
    rcases hi with ⟨hcall, hret⟩ | ⟨hcall, n, hret⟩
    · exact (hmid.done hret).1 hcall rfl
    · exact (hmid.done hret).2 hcall n rfl
  -- from here on, the late validation is judged as one that starts after the deletion
  have hend : (run (Pool.step (callMachine P)) c l₂).Safe (callMachine P)
      (fun _ => logout sid u) fun k r _ => k = j → ∀ session, r ≠ .ok (.validated (some session)) := by
    refine Pool.Safe.run (fun _ _ _ _ _ h => h) (fun k => ?_) hl₂
    by_cases hk : k = j
    · subst hk
      refine ⟨fun s => Listed sid u s ∧ Gone sid s, stable_gone, ⟨hgone.listed, hgone⟩, ?_⟩
      rw [hstart]
      simp only [beginCalls, hj]
      refine Sat.mono (Sat.comap (holds_code (P := P) (holds_validateSession_gone options)
        (R := fun o _ => ∀ session, o ≠ .validated (some session)) ?_)) (fun _ h => h) ?_
      · rintro session s rfl session' h
        cases h
      · rintro (e | o) s h - session heq
        · cases heq
        · exact h session (Except.ok.inj heq)
    · obtain ⟨A, hst, hA, hsat⟩ := hmid k
      exact ⟨A, hst, hA, hsat.mono (fun _ h => h) fun _ _ _ hkj => absurd hkj hk⟩
  rintro ⟨session, hret⟩
  exact hend.done hret rfl session rfl

/-! ## 6. A refresh that overlaps a logout -/

/-- A platform that writes dates as decimal numbers. -/
def samplePlatform : Platform where
  dateParse text := some (text.toList.foldl (fun n c => 10 * n + (c.toNat - 48)) 0)
  toISOString n := String.ofList (Nat.toDigits 10 n)
  randomUUID n := String.ofList (List.replicate (n + 1) 'u')

/-- A user has logged in. -/
def sampleStore : Store :=
  ((createSession samplePlatform {} "user_1" none none).prog.runAt
    (machine samplePlatform) () 1 .init).2

/-- A request that uses the session, the logout, and a request that comes later. -/
def sampleCalls : Fin 3 → Call
  | 0 => .validateSession "sess_u" {}
  | 1 => .invalidateSession "sess_u"
  | 2 => .validateSession "sess_u" {}

/-- The run of the sample calls in which each label lets one of them take a step. -/
def sampleRun (ls : List (Fin 3 × ℕ)) : Calls (Fin 3) :=
  run (Pool.step (callMachine samplePlatform))
    (beginCalls samplePlatform {} sampleCalls sampleStore) ls

local instance threeRequests : NeZero 3 := ⟨Nat.succ_ne_zero 2⟩

/-- The first request has read the session, and the logout runs to its end. -/
def sampleLogout : List (Fin 3 × ℕ) :=
  List.replicate 2 (0, 61001) ++ List.replicate 4 (1, 61001)

/-- The first request writes the session, and the later one reads it. -/
def sampleLater : List (Fin 3 × ℕ) := List.replicate 2 (0, 61001) ++ List.replicate 2 (2, 61001)

/-- The session works again after the logout. -/
theorem logout_undone :
    ¬ (Invalidated sampleCalls "sess_u" "user_1" (sampleRun sampleLogout) 1 →
      (∀ l ∈ sampleLogout, l.1 ≠ 2) → ¬ ReturnedSession (sampleRun (sampleLogout ++ sampleLater)) 2) := by
  intro h
  refine h (Or.inl ⟨rfl, rfl⟩) (by decide) ⟨_, rfl⟩

/-- When the logout comes first, neither request finds the session. -/
theorem logout_final_sample :
    ¬ ReturnedSession (sampleRun (List.replicate 4 (1, 61001) ++ sampleLater)) 2 := by
  refine logout_final samplePlatform {} sampleCalls sampleStore "sess_u" "user_1" (by decide) ?_
    (List.replicate 4 (1, 61001)) sampleLater (by decide +kernel) 1 2 (Or.inl ⟨rfl, rfl⟩) {} rfl
    (by decide)
  intro e he
  cases he
  exact ⟨rfl, by decide +kernel⟩

end SmartDrop.Sessions
