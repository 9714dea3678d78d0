/-
# Detecting the reuse of a refresh token

Logins, refreshes and the time between them, one call after the other.  A family of tokens is
`Compromised` once a rotated token of it is presented again before its original expiry, and the
law is that no token of a compromised family is accepted from then on (`Detects`).

The code knows of a rotation by the used record, which lives for sixty seconds.  A reuse that
comes later finds nothing, and the newest token of the family goes on being accepted
(`late_replay_undetected`).  The law holds in every run in which each reuse comes within the
sixty seconds, or when no token of its family is left (`reuse_detected`).
-/
import SmartDrop.Auth.SingleUse

namespace SmartDrop.Auth

open Conc Redis

/-! ## 1. The sequential system -/

/-- What happened: a token was issued, or presented to `refreshTokens`. -/
inductive Event where
  | issued (token familyId : String) (expiresAt : ℕ)
  | refreshed (token : String) (time : ℕ) (accepted : Bool)
deriving DecidableEq

/-- The calls: a login, which starts a family, and a refresh. -/
inductive Call where
  | login (user : User) (options : TokenOptions)
  | refresh (raw : String) (options : TokenOptions)

/-- The database, the time and what happened so far, the latest first. -/
structure State where
  store : Store
  clock : ℕ
  log : List Event

/-- Before the first login. -/
def State.init : State := ⟨.init, 0, []⟩

variable (P : Platform) (config : Config)

/-- What a call returns and leaves, run alone at time `t`. -/
def ranAt {α : Type} (code : Code α) (t : ℕ) (s : Store) : Except Err α × Store :=
  code.prog.runAt (machine P) () t s

/-- The token of a new pair, with the family and the expiry that its record has. -/
def issuedEvents (s : Store) : Except Err TokenPair → List Event
  | .error _ => []
  | .ok pair =>
    match s.tokens (hashToken P pair.refreshToken) with
    | none => []
    | some e => [.issued pair.refreshToken e.value.familyId e.value.expiresAt]

/-- A call after some time has passed.  No caller of the module names a family. -/
def step (c : State) (l : Call × ℕ) : State :=
  let t := c.clock + l.2
  match l.1 with
  | .login user options =>
    let r := ranAt P (createTokenPair P config user { options with familyId := none }) t c.store
    ⟨r.2, t, issuedEvents P r.2 r.1 ++ c.log⟩
  | .refresh raw options =>
    let r := ranAt P (refreshTokens P config raw { options with familyId := none }) t c.store
    ⟨r.2, t, issuedEvents P r.2 r.1 ++ .refreshed (JsText.trim raw) t r.1.isOk :: c.log⟩

/-- An event after `past` presents a token of the family that was rotated before and has not
reached its original expiry. -/
def Replays (familyId : String) (past : List Event) : Event → Prop
  | .issued .. => False
  | .refreshed token time _ =>
    (∃ t, .refreshed token t true ∈ past) ∧
      ∃ expiresAt, .issued token familyId expiresAt ∈ past ∧ time ≤ expiresAt

/-- Some event of the log is a replay in the family. -/
def Compromised (familyId : String) (log : List Event) : Prop :=
  ∃ newer e older, log = newer ++ e :: older ∧ Replays familyId older e

/-- **Reuse is detected**: no token is accepted whose family is compromised by then. -/
def Detects (log : List Event) : Prop :=
  ∀ newer token time older familyId expiresAt,
    log = newer ++ .refreshed token time true :: older →
    .issued token familyId expiresAt ∈ older →
    ¬ Compromised familyId (.refreshed token time true :: older)

/-- No token of the family can be accepted at `t` or later. -/
def Dead (familyId : String) (t : ℕ) (s : Store) : Prop :=
  ∀ h e, s.tokens h = some e → e.value.familyId = familyId → e.value.used = false → ¬ e.LiveAt t

/-- A reuse comes within the time for which the used record is kept, or when no token of the
family is left. -/
def InTime (c : State) (l : Call × ℕ) : Prop :=
  match l.1 with
  | .login .. => True
  | .refresh raw _ => ∀ t familyId expiresAt, .refreshed (JsText.trim raw) t true ∈ c.log →
      .issued (JsText.trim raw) familyId expiresAt ∈ c.log → c.clock + l.2 ≤ expiresAt →
      c.clock + l.2 ≤ ttlEnd t GRACE_SECONDS ∨ Dead familyId (c.clock + l.2) c.store

/-! ## 2. What the calls do -/

section Runs

variable {P config} {α β : Type} {t : ℕ} {s : Store}

theorem ranAt_bind (code : Code α) (f : α → Code β) :
    ranAt P (code >>= f) t s = match ranAt P code t s with
      | (.ok a, s') => ranAt P (f a) t s'
      | (.error e, s') => (.error e, s') := by
  rw [ranAt, Throws.prog_bind, Prog.runAt_bind]
  show _ = match code.prog.runAt (machine P) () t s with
    | (.ok a, s') => ranAt P (f a) t s'
    | (.error e, s') => (.error e, s')
  rcases code.prog.runAt (machine P) () t s with ⟨e | a, s'⟩ <;> rfl

theorem ranAt_redis (op : Op) :
    ranAt P (redis op) t s = (.ok (s.exec P t op).1, (s.exec P t op).2) := rfl

theorem ranAt_pure (a : α) : ranAt P (pure a : Code α) t s = (.ok a, s) := rfl

/-- A record is stored, and its hash is in the set of its family for as long. -/
def Store.put (s : Store) (t : ℕ) (record : RefreshRecord) (ttl : ℕ+) : Store :=
  { s with
    tokens := Function.update s.tokens record.tokenHash (some ⟨record, some (ttlEnd t ttl)⟩)
    families := if record.familyId = "" then s.families else
      Function.update s.families record.familyId (some ⟨(((s.family t record.familyId).map
        Timed.value).getD .empty).sadd record.tokenHash, some (ttlEnd t ttl)⟩) }

/-- A set that is there keeps its members for another time to live. -/
theorem exec_expireFamily {familyId : String} {e : Timed (RSet String)} {ttl : ℕ+}
    (he : s.families familyId = some e) (hlive : e.LiveAt t) :
    (s.exec P t (.expireFamily familyId ttl)).2 = { s with
      families := Function.update s.families familyId (some ⟨e.value, some (ttlEnd t ttl)⟩) } := by
  simp [Store.exec, Store.family, he, Option.filter, hlive]

theorem ranAt_storeRefreshToken (record : RefreshRecord) (ttl : ℕ+) :
    ranAt P (storeRefreshToken record ttl) t s = (.ok (), s.put t record ttl) := by
  unfold storeRefreshToken
  rw [ranAt_bind, ranAt_redis]
  dsimp only
  by_cases hf : record.familyId = ""
  · simp [hf, ranAt_pure, Store.exec, Store.put]
  · simp only [if_neg hf, Store.put]
    rw [ranAt_bind, ranAt_redis]
    dsimp only
    -- the set does not run out between the two commands
    have hlive : ((s.family t record.familyId).getD ⟨.empty, none⟩).LiveAt t := by
      cases hfam : s.family t record.familyId with
      | none => trivial
      | some e => exact of_decide_eq_true (Option.filter_eq_some_iff.mp hfam).2
    rw [ranAt_redis, exec_expireFamily (e := { (s.family t record.familyId).getD ⟨.empty, none⟩ with
      value := ((s.family t record.familyId).getD ⟨.empty, none⟩).value.sadd record.tokenHash })
      (Function.update_self ..) hlive]
    simp only [Store.exec, Function.update_idem]
    cases s.family t record.familyId <;> rfl

theorem ranAt_delTokens (hashes : List String) :
    ranAt P (delTokens hashes) t s =
      (.ok (), { s with tokens := fun h => if h ∈ hashes then none else s.tokens h }) := by
  induction hashes generalizing s with
  | nil => simp [delTokens, ranAt_pure]
  | cons hash hashes ih =>
    rw [delTokens, ranAt_bind, ranAt_redis]
    dsimp only
    rw [ih]
    simp only [Store.exec, Prod.mk.injEq, true_and, Store.mk.injEq, and_true]
    funext h
    by_cases hmem : h ∈ hashes
    · simp [hmem]
    · by_cases heq : h = hash <;> simp [hmem, heq]

/-- The hashes that a reuse finds in the set of a family. -/
def Store.members (s : Store) (t : ℕ) (familyId : String) : List String :=
  ((s.family t familyId).map fun e => e.value.members).getD []

theorem ranAt_signJwt (payload : List (String × Option JsonText.Json)) (secret : String)
    (options : JwtOptions) :
    (∃ err, ranAt P (signJwt P payload secret options) t s = (.error err, s)) ∨
    ∃ jwt, ranAt P (signJwt P payload secret options) t s = (.ok jwt, s) := by
  unfold signJwt
  split
  · exact Or.inl ⟨_, rfl⟩
  · exact Or.inr ⟨_, rfl⟩

/-- The record of the next token, in the family `f`. -/
structure NewRecord (P : Platform) (t : ℕ) (s : Store) (f : String) (ttl : ℕ+)
    (record : RefreshRecord) : Prop where
  hash : record.tokenHash = P.sha256 (P.randomToken s.tokensDrawn)
  family : record.familyId = f
  expiry : record.expiresAt = ttlEnd t ttl
  unused : record.used = false

/-- The ways in which a creation in the family `f` ends: it draws at least up to `n₀` UUIDs and
stores one new record, or it throws and stores nothing. -/
inductive Creates (P : Platform) (t : ℕ) (s : Store) (f : String) (n₀ : ℕ) :
    Except Err TokenPair × Store → Prop
  | failed (err : Err) (n : ℕ) (hn : s.uuidsDrawn ≤ n) :
    Creates P t s f n₀ (.error err, { s with uuidsDrawn := n })
  | created (pair : TokenPair) (record : RefreshRecord) (ttl : ℕ+) (n : ℕ)
    (hpair : pair.refreshToken = P.randomToken s.tokensDrawn)
    (hrecord : NewRecord P t s f ttl record) (hn : n₀ ≤ n) (hn' : s.uuidsDrawn ≤ n) :
    Creates P t s f n₀ (.ok pair,
      ({ s with tokensDrawn := s.tokensDrawn + 1, uuidsDrawn := n } : Store).put t record ttl)

/-- How many UUIDs the choice of the family takes. -/
def TokenOptions.familyDraws (options : TokenOptions) : ℕ :=
  match options.familyId with
  | none => 1
  | some _ => 0

theorem ranAt_createTokenPair (user : User) (options : TokenOptions) :
    Creates P t s (options.familyId.getD (P.randomUUID s.uuidsDrawn))
      (s.uuidsDrawn + options.familyDraws)
      (ranAt P (createTokenPair P config user options) t s) := by
  unfold createTokenPair
  split
  · exact .failed _ s.uuidsDrawn le_rfl
  have hchoose : ranAt P (chooseFamily options) t s =
      (.ok (options.familyId.getD (P.randomUUID s.uuidsDrawn)),
        { s with uuidsDrawn := s.uuidsDrawn + options.familyDraws }) := by
    unfold chooseFamily TokenOptions.familyDraws
    cases options.familyId <;> rfl
  have hn : s.uuidsDrawn ≤ s.uuidsDrawn + options.familyDraws := Nat.le_add_right _ _
  rw [ranAt_bind, hchoose]
  dsimp only
  rw [ranAt_bind]
  rcases ranAt_signJwt _ _ _ with ⟨err, hjwt⟩ | ⟨jwt, hjwt⟩
  · rw [hjwt]
    exact .failed err _ hn
  · rw [hjwt]
    dsimp only [generateRawRefreshToken]
    rw [ranAt_bind, ranAt_redis]
    dsimp only [Store.exec]
    rw [ranAt_bind, ranAt_redis]
    dsimp only [Store.exec]
    rw [ranAt_bind, ranAt_redis]
    dsimp only [Store.exec]
    rw [ranAt_bind, ranAt_storeRefreshToken]
    exact .created _ _ _ _ rfl ⟨rfl, rfl, rfl, rfl⟩ (Nat.le_succ _) (hn.trans (Nat.le_succ _))

/-- What a reuse does to its family: the records that its set names are gone, and the set. -/
def Store.revoked (s : Store) (t : ℕ) (familyId : String) : Store :=
  if familyId = "" then s else { s with
    tokens := fun h => if h ∈ s.members t familyId then none else s.tokens h
    families := Function.update s.families familyId none }

/-- The ways in which a refresh of the token with the hash `h` ends: it is not known, or known
as used, or run out, or its record is stored as used and a creation follows. -/
inductive Refreshed (P : Platform) (t : ℕ) (s : Store) (h : String) :
    Except Err TokenPair × Store → Prop
  | unknown (err : Err) (hread : Timed.readAt t (s.tokens h) = none) :
    Refreshed P t s h (.error err, s)
  | reused (err : Err) (record : RefreshRecord) (hread : Timed.readAt t (s.tokens h) = some record)
    (hused : record.used = true) : Refreshed P t s h (.error err, s.revoked t record.familyId)
  | expired (err : Err) (record : RefreshRecord) (hread : Timed.readAt t (s.tokens h) = some record)
    (hunused : record.used = false) (hexpired : record.expiresAt < t) :
    Refreshed P t s h (.error err, { s with tokens := Function.update s.tokens h none })
  | rotated (record : RefreshRecord) (r : Except Err TokenPair × Store)
    (hread : Timed.readAt t (s.tokens h) = some record) (hunused : record.used = false)
    (hr : Creates P t (s.put t { record with used := true } GRACE_SECONDS) record.familyId
      s.uuidsDrawn r) : Refreshed P t s h r

theorem ranAt_revokeFamily (familyId : String) :
    ranAt P (revokeFamily familyId) t s = (.ok (), s.revoked t familyId) := by
  unfold revokeFamily Store.revoked
  split
  · rfl
  · rw [ranAt_bind, ranAt_redis]
    dsimp only
    rw [ranAt_bind, ranAt_delTokens]
    rfl

theorem ranAt_refreshTokens {raw : String} (hraw : raw ≠ "") {options : TokenOptions}
    (hfamily : options.familyId = none) :
    Refreshed P t s (hashToken P (JsText.trim raw))
      (ranAt P (refreshTokens P config raw options) t s) := by
  unfold refreshTokens
  rw [if_neg hraw]
  dsimp only [getRefreshTokenRecord]
  rw [ranAt_bind, ranAt_redis]
  dsimp only [Store.exec]
  cases hread : Timed.readAt t (s.tokens (hashToken P (JsText.trim raw))) with
  | none => exact .unknown _ hread
  | some record =>
    dsimp only
    split
    · rename_i hused
      rw [ranAt_bind, ranAt_revokeFamily]
      exact .reused _ record hread hused
    · rename_i hunused
      rw [ranAt_bind, ranAt_redis]
      dsimp only [Store.exec]
      split
      · rename_i hexpired
        rw [deleteRefreshToken, ranAt_bind, ranAt_redis]
        exact .expired _ record hread (Bool.eq_false_iff.mpr hunused) hexpired
      · rw [rotate, ranAt_bind, ranAt_storeRefreshToken]
        refine .rotated record _ hread (Bool.eq_false_iff.mpr hunused) ?_
        have hkept : (rotationOptions record options).familyId = some record.familyId := by
          simp [rotationOptions, hfamily]
        have hr := @ranAt_createTokenPair P config t
          (s.put t { record with used := true } GRACE_SECONDS) record.user
          (rotationOptions record options)
        simp only [TokenOptions.familyDraws, hkept, Option.getD_some] at hr
        exact hr

/-! ## 3. What every call keeps -/

/-- An entry of the database: a token of a drawn family under the hash of a drawn token. -/
structure Stored (P : Platform) (s : Store) (h : String) (e : Timed RefreshRecord) : Prop where
  keyed : e.value.tokenHash = h
  drawn : IssuedBefore P h s
  family : ∃ n < s.uuidsDrawn, e.value.familyId = P.randomUUID n

/-- The token with the hash `h` is the unused token of the family `f`. -/
def Newest (s : Store) (f h : String) (e : Timed RefreshRecord) : Prop :=
  s.tokens h = some e ∧ e.value.familyId = f ∧ e.value.used = false

/-- What holds of the database at the time `t`, between two calls.  A family has at most one
unused token, its record says when it expires, and while it lives the set of the family has its
hash for as long. -/
structure Sound (P : Platform) (t : ℕ) (s : Store) : Prop where
  stored : ∀ h e, s.tokens h = some e → Stored P s h e
  expiry : ∀ f h e, Newest s f h e → e.expiresAt = some e.value.expiresAt
  single : ∀ f h e h' e', Newest s f h e → Newest s f h' e' → h = h'
  covered : ∀ f h e, Newest s f h e → e.LiveAt t →
    ∃ set, s.families f = some set ∧ h ∈ set.value ∧ set.expiresAt = e.expiresAt

/-- More randomness has been drawn. -/
theorem Stored.mono {s' : Store} {h : String} {e : Timed RefreshRecord} (hs : Stored P s h e)
    (ht : s.tokensDrawn ≤ s'.tokensDrawn) (hu : s.uuidsDrawn ≤ s'.uuidsDrawn) :
    Stored P s' h e := by
  obtain ⟨hkeyed, ⟨n, hn, hh⟩, m, hm, hf⟩ := hs
  exact ⟨hkeyed, ⟨n, hn.trans_le ht, hh⟩, m, hm.trans_le hu, hf⟩

/-- Nothing is stored, and more randomness has been drawn. -/
theorem Sound.draw (hs : Sound P t s) {m n : ℕ} (hm : s.tokensDrawn ≤ m) (hn : s.uuidsDrawn ≤ n) :
    Sound P t { s with tokensDrawn := m, uuidsDrawn := n } :=
  ⟨fun h e he => (hs.stored h e he).mono hm hn, hs.expiry, hs.single, hs.covered⟩

/-- Time passes. -/
theorem Sound.wait (hs : Sound P t s) {t' : ℕ} (ht : t ≤ t') : Sound P t' s :=
  ⟨hs.stored, hs.expiry, hs.single, fun f h e he hlive => hs.covered f h e he (hlive.mono ht)⟩

/-- Some tokens are gone, and the sets of families of which none is left. -/
theorem Sound.forget (hs : Sound P t s) {tokens : String → Option (Timed RefreshRecord)}
    {families : String → Option (Timed (RSet String))}
    (htokens : ∀ h e, tokens h = some e → s.tokens h = some e)
    (hfamilies : ∀ h e, tokens h = some e → e.value.used = false → e.LiveAt t →
      families e.value.familyId = s.families e.value.familyId) :
    Sound P t { s with tokens := tokens, families := families } where
  stored h e he := (hs.stored h e (htokens h e he)).mono le_rfl le_rfl
  expiry f h e he := hs.expiry f h e ⟨htokens h e he.1, he.2⟩
  single f h e h' e' he he' :=
    hs.single f h e h' e' ⟨htokens h e he.1, he.2⟩ ⟨htokens h' e' he'.1, he'.2⟩
  covered f h e he hlive := by
    obtain ⟨set, hset, hmem⟩ := hs.covered f h e ⟨htokens h e he.1, he.2⟩ hlive
    refine ⟨set, ?_, hmem⟩
    obtain ⟨he, rfl, hunused⟩ := he
    exact (hfamilies h e he hunused hlive).trans hset

section Put

variable {record : RefreshRecord} {ttl : ℕ+}

/-- Where an entry comes from after a record is stored. -/
theorem put_tokens {h : String} {e : Timed RefreshRecord}
    (he : (s.put t record ttl).tokens h = some e) :
    (h = record.tokenHash ∧ e = ⟨record, some (ttlEnd t ttl)⟩) ∨
      (h ≠ record.tokenHash ∧ s.tokens h = some e) := by
  by_cases heq : h = record.tokenHash
  · subst heq
    rw [show (s.put t record ttl).tokens record.tokenHash = some ⟨record, some (ttlEnd t ttl)⟩ from
      Function.update_self ..] at he
    exact Or.inl ⟨rfl, (Option.some.inj he).symm⟩
  · exact Or.inr ⟨heq, (Function.update_of_ne heq _ _).symm.trans he⟩

theorem put_families_of_ne {f : String} (hf : f ≠ record.familyId) :
    (s.put t record ttl).families f = s.families f := by
  simp only [Store.put]
  split
  · rfl
  · exact Function.update_of_ne hf _ _

/-- The set of its family has the hash of a stored record, for as long as the record is there. -/
theorem put_families_self (hf : record.familyId ≠ "") :
    ∃ set, (s.put t record ttl).families record.familyId = some set ∧
      record.tokenHash ∈ set.value ∧ set.expiresAt = some (ttlEnd t ttl) := by
  simp only [Store.put, if_neg hf, Function.update_self]
  exact ⟨_, rfl, RSet.mem_sadd.mpr (Or.inr rfl), rfl⟩

/-- Where a member of a set comes from after a record is stored. -/
theorem put_members {f h : String} {set : Timed (RSet String)}
    (hset : (s.put t record ttl).families f = some set) (hmem : h ∈ set.value) :
    (f = record.familyId ∧ h = record.tokenHash) ∨
      ∃ old, s.families f = some old ∧ h ∈ old.value := by
  by_cases hf : f = record.familyId
  · subst hf
    simp only [Store.put] at hset
    split at hset
    · exact Or.inr ⟨set, hset, hmem⟩
    · rw [Function.update_self] at hset
      obtain rfl := Option.some.inj hset
      rcases RSet.mem_sadd.mp hmem with hmem | rfl
      · cases hfam : s.family t record.familyId with
        | none => simp [hfam] at hmem
        | some old =>
          rw [hfam] at hmem
          exact Or.inr ⟨old, (Option.filter_eq_some_iff.mp hfam).1, hmem⟩
      · exact Or.inl ⟨rfl, rfl⟩
  · rw [put_families_of_ne hf] at hset
    exact Or.inr ⟨set, hset, hmem⟩

/-- An unused token that a used record does not replace was the newest before. -/
theorem Newest.of_put (hused : record.used = true) {f h : String} {e : Timed RefreshRecord}
    (he : Newest (s.put t record ttl) f h e) : h ≠ record.tokenHash ∧ Newest s f h e := by
  obtain ⟨he, hf, hunused⟩ := he
  rcases put_tokens he with ⟨-, rfl⟩ | ⟨hne, he⟩
  · exact Bool.noConfusion (hused.symm.trans hunused)
  · exact ⟨hne, he, hf, hunused⟩

end Put

/-- **A rotated token** is stored as used: its family has no unused token then. -/
theorem Sound.use (hs : Sound P t s) {h : String} {e : Timed RefreshRecord} (he : s.tokens h = some e)
    (hunused : e.value.used = false) (ttl : ℕ+) :
    Sound P t (s.put t { e.value with used := true } ttl) ∧
      ∀ h' e', ¬ Newest (s.put t { e.value with used := true } ttl) e.value.familyId h' e' := by
  have hkey : e.value.tokenHash = h := (hs.stored h e he).keyed
  have hnone : ∀ h' e',
      ¬ Newest (s.put t { e.value with used := true } ttl) e.value.familyId h' e' := by
    intro h' e' hnew
    obtain ⟨hne, hold⟩ := hnew.of_put rfl
    exact hne ((hs.single _ h' e' h e hold ⟨he, rfl, hunused⟩).trans hkey.symm)
  refine ⟨⟨fun h' e' he' => ?_, fun f h' e' hnew => ?_, fun f h₁ e₁ h₂ e₂ hnew₁ hnew₂ => ?_,
    fun f h' e' hnew hlive => ?_⟩, hnone⟩
  · rcases put_tokens he' with ⟨rfl, rfl⟩ | ⟨-, he'⟩
    · obtain ⟨-, hdrawn, hfamily⟩ := hs.stored h e he
      exact ⟨rfl, hkey ▸ hdrawn, hfamily⟩
    · exact (hs.stored h' e' he').mono le_rfl le_rfl
  · exact hs.expiry f h' e' (hnew.of_put rfl).2
  · exact hs.single f h₁ e₁ h₂ e₂ (hnew₁.of_put rfl).2 (hnew₂.of_put rfl).2
  · have hf : f ≠ e.value.familyId := by
      rintro rfl
      exact hnone h' e' hnew
    have hsame : (s.put t { e.value with used := true } ttl).families f = s.families f :=
      put_families_of_ne hf
    rw [hsame]
    exact hs.covered f h' e' (hnew.of_put rfl).2 hlive

/-- **A new token** of a family that has no unused one. -/
theorem Sound.issue (hs : Sound P t s) {f : String} (hf : ∀ h e, ¬ Newest s f h e)
    {record : RefreshRecord} {ttl : ℕ+} (hrecord : NewRecord P t s f ttl record) {n : ℕ}
    (hn : s.uuidsDrawn ≤ n) (hdrawn : ∃ m < n, f = P.randomUUID m) :
    Sound P t (({ s with tokensDrawn := s.tokensDrawn + 1, uuidsDrawn := n } : Store).put t record
      ttl) := by
  obtain ⟨hhash, rfl, hexpiry, hunused⟩ := hrecord
  have hold := hs.draw (Nat.le_succ s.tokensDrawn) hn
  -- the newest token of any family is the one just stored, or it is of another family
  have hcases : ∀ f h e, Newest (({ s with tokensDrawn := s.tokensDrawn + 1, uuidsDrawn := n } :
      Store).put t record ttl) f h e →
      (f = record.familyId ∧ h = record.tokenHash ∧ e = ⟨record, some (ttlEnd t ttl)⟩) ∨
      (f ≠ record.familyId ∧ Newest s f h e) := by
    rintro f h e ⟨he, rfl, hu⟩
    rcases put_tokens he with ⟨rfl, rfl⟩ | ⟨-, he⟩
    · exact Or.inl ⟨rfl, rfl, rfl⟩
    · refine Or.inr ⟨fun heq => hf h e ⟨he, heq, hu⟩, he, rfl, hu⟩
  refine ⟨fun h e he => ?_, fun f h e hnew => ?_, fun f h₁ e₁ h₂ e₂ hnew₁ hnew₂ => ?_,
    fun f h e hnew hlive => ?_⟩
  · rcases put_tokens he with ⟨rfl, rfl⟩ | ⟨-, he⟩
    · obtain ⟨m, hm, hfm⟩ := hdrawn
      exact ⟨rfl, ⟨s.tokensDrawn, Nat.lt_succ_self _, hhash⟩, m, hm, hfm⟩
    · exact (hold.stored h e he).mono le_rfl le_rfl
  · rcases hcases f h e hnew with ⟨-, -, rfl⟩ | ⟨-, hnew⟩
    · rw [hexpiry]
    · exact hs.expiry f h e hnew
  · rcases hcases f h₁ e₁ hnew₁ with ⟨hf₁, rfl, -⟩ | ⟨hf₁, hnew₁⟩
    · rcases hcases f h₂ e₂ hnew₂ with ⟨-, rfl, -⟩ | ⟨hf₂, -⟩
      · rfl
      · exact absurd hf₁ hf₂
    · rcases hcases f h₂ e₂ hnew₂ with ⟨hf₂, -, -⟩ | ⟨-, hnew₂⟩
      · exact absurd hf₂ hf₁
      · exact hs.single f h₁ e₁ h₂ e₂ hnew₁ hnew₂
  · rcases hcases f h e hnew with ⟨rfl, rfl, rfl⟩ | ⟨hne, hnew⟩
    · obtain ⟨m, -, hfm⟩ := hdrawn
      exact put_families_self (hfm ▸ P.uuid_ne_empty m)
    · rw [put_families_of_ne hne]
      exact hs.covered f h e hnew hlive

end Runs

/-! ## 4. What the log says about the database -/

/-- The used record of a rotation at `t` is still there. -/
def Kept (P : Platform) (s : Store) (token f : String) (t : ℕ) : Prop :=
  ∃ e, s.tokens (P.sha256 token) = some e ∧ e.value.familyId = f ∧ e.value.used = true ∧
    e.expiresAt = some (ttlEnd t GRACE_SECONDS)

/-- The log up to the time `t` and the database agree. -/
structure Agree (P : Platform) (s : Store) (t : ℕ) (log : List Event) : Prop where
  sound : Sound P t s
  issued : ∀ token f x, .issued token f x ∈ log →
    (∃ n < s.tokensDrawn, token = P.randomToken n) ∧ ∃ n < s.uuidsDrawn, f = P.randomUUID n
  unique : ∀ token f x g y, .issued token f x ∈ log → .issued token g y ∈ log → f = g ∧ x = y
  accepted : ∀ token t₀, .refreshed token t₀ true ∈ log → IssuedBefore P (P.sha256 token) s
  logged : ∀ h e, s.tokens h = some e → ∃ token, h = P.sha256 token ∧
    .issued token e.value.familyId e.value.expiresAt ∈ log
  members : ∀ f set h, s.families f = some set → h ∈ set.value → ∃ token x, h = P.sha256 token ∧
    .issued token f x ∈ log
  rotated : ∀ token f x t₀, .issued token f x ∈ log → .refreshed token t₀ true ∈ log →
    Dead f t s ∨ Kept P s token f t₀
  compromised : ∀ f, Compromised f log → Dead f t s
  detects : Detects log

section Log

variable {P} {s : Store} {t : ℕ} {log : List Event} {f token : String}

theorem compromised_cons {e : Event} :
    Compromised f (e :: log) ↔ Replays f log e ∨ Compromised f log := by
  constructor
  · rintro ⟨newer, e', older, heq, hrep⟩
    cases newer with
    | nil =>
      obtain ⟨rfl, rfl⟩ := List.cons.inj heq
      exact Or.inl hrep
    | cons a newer =>
      obtain ⟨rfl, rfl⟩ := List.cons.inj heq
      exact Or.inr ⟨newer, e', older, rfl, hrep⟩
  · rintro (hrep | ⟨newer, e', older, rfl, hrep⟩)
    · exact ⟨[], e, log, rfl, hrep⟩
    · exact ⟨e :: newer, e', older, rfl, hrep⟩

/-- An event that accepts nothing is not where detection fails. -/
theorem Detects.cons (h : Detects log) {e : Event}
    (he : ∀ token time f x, e = .refreshed token time true → .issued token f x ∈ log →
      ¬ Compromised f (e :: log)) : Detects (e :: log) := by
  intro newer token time older f x heq hissued
  cases newer with
  | nil =>
    obtain ⟨rfl, rfl⟩ := List.cons.inj heq
    exact he token time f x rfl hissued
  | cons a newer =>
    obtain ⟨rfl, rfl⟩ := List.cons.inj heq
    exact h newer token time older f x rfl hissued

/-- A compromised family has tokens. -/
theorem Compromised.issued (h : Compromised f log) : ∃ token x, .issued token f x ∈ log := by
  obtain ⟨newer, e, older, rfl, hrep⟩ := h
  cases e with
  | issued => exact hrep.elim
  | refreshed token time b =>
    obtain ⟨-, x, hx, -⟩ := hrep
    exact ⟨token, x, by simp [hx]⟩

theorem Dead.mono (h : Dead f t s) {t' : ℕ} (ht : t ≤ t') : Dead f t' s := by
  intro h' e he hf hunused hlive
  exact h h' e he hf hunused (hlive.mono ht)

/-- Time passes. -/
theorem Agree.wait (h : Agree P s t log) {t' : ℕ} (ht : t ≤ t') : Agree P s t' log where
  sound := h.sound.wait ht
  issued := h.issued
  unique := h.unique
  accepted := h.accepted
  logged := h.logged
  members := h.members
  rotated token f x t₀ hi hr := (h.rotated token f x t₀ hi hr).imp (Dead.mono · ht) id
  compromised f hf := (h.compromised f hf).mono ht
  detects := h.detects

/-- A token is presented and not accepted. -/
theorem Agree.refuse (h : Agree P s t log) {token : String}
    (hdead : ∀ f, Replays f log (.refreshed token t false) → Dead f t s) :
    Agree P s t (.refreshed token t false :: log) where
  sound := h.sound
  issued token f x hi := h.issued token f x (by simpa using hi)
  unique token f x g y hf hg := h.unique token f x g y (by simpa using hf) (by simpa using hg)
  accepted token t₀ hr := h.accepted token t₀ (by simpa using hr)
  logged h' e he := by
    obtain ⟨token, heq, hi⟩ := h.logged h' e he
    exact ⟨token, heq, List.mem_cons_of_mem _ hi⟩
  members f set h' hset hmem := by
    obtain ⟨token, x, heq, hi⟩ := h.members f set h' hset hmem
    exact ⟨token, x, heq, List.mem_cons_of_mem _ hi⟩
  rotated token f x t₀ hi hr := h.rotated token f x t₀ (by simpa using hi) (by simpa using hr)
  compromised f hf := by
    rcases compromised_cons.mp hf with hrep | hf
    · exact hdead f hrep
    · exact h.compromised f hf
  detects := h.detects.cons fun _ _ _ _ heq => by cases heq

/-- More randomness is drawn, and nothing is stored. -/
theorem Agree.draw (h : Agree P s t log) {n : ℕ} (hn : s.uuidsDrawn ≤ n) :
    Agree P { s with uuidsDrawn := n } t log where
  sound := h.sound.draw le_rfl hn
  issued token f x hi := by
    obtain ⟨htoken, m, hm, hf⟩ := h.issued token f x hi
    exact ⟨htoken, m, hm.trans_le hn, hf⟩
  unique := h.unique
  accepted := h.accepted
  logged := h.logged
  members := h.members
  rotated := h.rotated
  compromised := h.compromised
  detects := h.detects

/-- Two issued tokens with one hash are the same token. -/
theorem Agree.token_unique (h : Agree P s t log) {a b f g : String} {x y : ℕ}
    (ha : .issued a f x ∈ log) (hb : .issued b g y ∈ log) (heq : P.sha256 a = P.sha256 b) :
    a = b := by
  obtain ⟨⟨m, -, rfl⟩, -⟩ := h.issued a f x ha
  obtain ⟨⟨n, -, rfl⟩, -⟩ := h.issued b g y hb
  rw [P.hash_inj heq]

/-- The family of an issued token is the one its record names. -/
theorem Agree.family_eq (h : Agree P s t log) {x : ℕ} (hi : .issued token f x ∈ log)
    {e : Timed RefreshRecord} (he : s.tokens (P.sha256 token) = some e) :
    e.value.familyId = f ∧ e.value.expiresAt = x := by
  obtain ⟨token', heq, hi'⟩ := h.logged _ e he
  rw [← h.token_unique hi hi' heq] at hi'
  exact h.unique token _ _ f x hi' hi

/-- **A token that can be accepted** was not rotated, and its family is not compromised. -/
theorem Agree.fresh (h : Agree P s t log) {e : Timed RefreshRecord}
    (he : s.tokens (P.sha256 token) = some e) (hlive : e.LiveAt t) (hunused : e.value.used = false) :
    ¬ Compromised e.value.familyId log ∧
      ∀ f x, .issued token f x ∈ log → ∀ t₀, .refreshed token t₀ true ∉ log := by
  have halive : ¬ Dead e.value.familyId t s := fun hdead => hdead _ e he rfl hunused hlive
  refine ⟨fun hcomp => halive (h.compromised _ hcomp), fun f x hi t₀ hr => ?_⟩
  obtain ⟨rfl, -⟩ := h.family_eq hi he
  rcases h.rotated token _ x t₀ hi hr with hdead | ⟨e', he', -, hused, -⟩
  · exact halive hdead
  · obtain rfl := Option.some.inj (he.symm.trans he')
    exact Bool.noConfusion (hused.symm.trans hunused)

/-- A revoked family is dead: its set has the newest token for as long as the token can live. -/
theorem dead_revoked (hs : Sound P t s) (hf : f ≠ "") : Dead f t (s.revoked t f) := by
  intro h e he hfam hunused hlive
  simp only [Store.revoked, if_neg hf] at he
  split at he
  · cases he
  · rename_i hout
    obtain ⟨set, hset, hmem, hexp⟩ := hs.covered f h e ⟨he, hfam, hunused⟩ hlive
    have hlive' : set.LiveAt t := by
      unfold Timed.LiveAt at hlive ⊢
      rwa [hexp]
    refine hout ?_
    simp [Store.members, Store.family, hset, Option.filter, hlive', hmem]

/-- A revocation takes the tokens of its family and no others. -/
theorem Agree.revoke (h : Agree P s t log) (hf : f ≠ "") :
    Agree P (s.revoked t f) t log ∧ Dead f t (s.revoked t f) := by
  have htokens : ∀ h' e, (s.revoked t f).tokens h' = some e → s.tokens h' = some e := by
    intro h' e he
    simp only [Store.revoked, if_neg hf] at he
    split at he
    · cases he
    · exact he
  have hfamilies : ∀ g, g ≠ f → (s.revoked t f).families g = s.families g := by
    intro g hg
    simp only [Store.revoked, if_neg hf]
    exact Function.update_of_ne hg _ _
  have hgone : (s.revoked t f).families f = none := by
    simp [Store.revoked, if_neg hf]
  have hdead := dead_revoked (t := t) h.sound hf
  have hshrink : ∀ g, Dead g t s → Dead g t (s.revoked t f) :=
    fun g hg h' e he => hg h' e (htokens h' e he)
  have hsound : Sound P t (s.revoked t f) := by
    have hforget := h.sound.forget htokens fun h' e he hunused hlive =>
      hfamilies _ fun hg => hdead h' e he hg hunused hlive
    simpa only [Store.revoked, if_neg hf] using hforget
  refine ⟨⟨hsound, ?_, h.unique, ?_, ?_, ?_, ?_, ?_, h.detects⟩, hdead⟩
  · intro token g x hi
    simpa only [Store.revoked, if_neg hf] using h.issued token g x hi
  · intro token t₀ hr
    simpa only [Store.revoked, if_neg hf, IssuedBefore] using h.accepted token t₀ hr
  · exact fun h' e he => h.logged h' e (htokens h' e he)
  · intro g set h' hset hmem
    by_cases hg : g = f
    · subst hg
      rw [hgone] at hset
      cases hset
    · exact h.members g set h' (hfamilies g hg ▸ hset) hmem
  · intro token g x t₀ hi hr
    by_cases hg : g = f
    · exact Or.inl (hg ▸ hdead)
    refine (h.rotated token g x t₀ hi hr).imp (hshrink g) ?_
    rintro ⟨e, he, hrest⟩
    refine ⟨e, ?_, hrest⟩
    -- the set of `f` does not name a token of another family
    have hout : P.sha256 token ∉ s.members t f := by
      intro hin
      obtain ⟨set, hset, hmem⟩ : ∃ set, s.families f = some set ∧ P.sha256 token ∈ set.value := by
        unfold Store.members Store.family at hin
        cases hset : s.families f with
        | none => simp [hset] at hin
        | some set =>
          rw [hset] at hin
          by_cases hlive : set.LiveAt t
          · exact ⟨set, rfl, by simpa [Option.filter, hlive] using hin⟩
          · simp [Option.filter, hlive] at hin
      obtain ⟨token', y, heq, hi'⟩ := h.members f set _ hset hmem
      obtain rfl := h.token_unique hi hi' heq
      exact hg (h.unique _ g x f y hi hi').1
    simp only [Store.revoked, if_neg hf, if_neg hout, he]
  · exact fun g hg => hshrink g (h.compromised g hg)

/-- A rotation keeps the used records of the rotations before it. -/
theorem Kept.use {h : String} {e : Timed RefreshRecord} (hkey : e.value.tokenHash = h)
    (he : s.tokens h = some e) (hunused : e.value.used = false) {t₀ : ℕ}
    (hk : Kept P s token f t₀) :
    Kept P (s.put t { e.value with used := true } GRACE_SECONDS) token f t₀ := by
  obtain ⟨e', he', hf, hused, hexp⟩ := hk
  refine ⟨e', (Function.update_of_ne ?_ _ _).trans he', hf, hused, hexp⟩
  intro heq
  rw [show P.sha256 token = h from heq.trans hkey] at he'
  obtain rfl := Option.some.inj (he.symm.trans he')
  exact Bool.noConfusion (hused.symm.trans hunused)

/-- A token is stored as used. -/
theorem Agree.use (h : Agree P s t log) {k : String} {e : Timed RefreshRecord}
    (he : s.tokens k = some e) (hunused : e.value.used = false) :
    Agree P (s.put t { e.value with used := true } GRACE_SECONDS) t log := by
  have hkey : e.value.tokenHash = k := (h.sound.stored k e he).keyed
  have hdead : ∀ f, Dead f t s → Dead f t (s.put t { e.value with used := true } GRACE_SECONDS) := by
    intro f hf h' e' he' hfam hunused' hlive
    rcases put_tokens he' with ⟨-, rfl⟩ | ⟨-, he'⟩
    · cases hunused'
    · exact hf h' e' he' hfam hunused' hlive
  refine ⟨(h.sound.use he hunused _).1, h.issued, h.unique, h.accepted, ?_, ?_, ?_, ?_, h.detects⟩
  · intro h' e' he'
    rcases put_tokens he' with ⟨rfl, rfl⟩ | ⟨-, he'⟩
    · exact hkey ▸ h.logged k e he
    · exact h.logged h' e' he'
  · intro f set h' hset hmem
    rcases put_members hset hmem with ⟨rfl, rfl⟩ | ⟨old, hold, hmem⟩
    · obtain ⟨token, heq, hi⟩ := h.logged k e he
      exact ⟨token, _, hkey.trans heq, hi⟩
    · exact h.members f old h' hold hmem
  · exact fun token f x t₀ hi hr =>
      (h.rotated token f x t₀ hi hr).imp (hdead f) (Kept.use hkey he hunused)
  · exact fun f hf => hdead f (h.compromised f hf)

/-- What is left of a token that was just accepted: its family is not compromised, and the used
records of all its rotations are still there. -/
structure Rotating (P : Platform) (s : Store) (f : String) (log : List Event) : Prop where
  sane : ¬ Compromised f log
  kept : ∀ token x t₀, .issued token f x ∈ log → .refreshed token t₀ true ∈ log →
    Kept P s token f t₀

/-- **A token is accepted.** -/
theorem Agree.accept (h : Agree P s t log) {e : Timed RefreshRecord}
    (he : s.tokens (P.sha256 token) = some e) (hlive : e.LiveAt t) (hunused : e.value.used = false) :
    Agree P (s.put t { e.value with used := true } GRACE_SECONDS) t
        (.refreshed token t true :: log) ∧
      Rotating P (s.put t { e.value with used := true } GRACE_SECONDS) e.value.familyId
        (.refreshed token t true :: log) := by
  obtain ⟨hsane, hnever⟩ := h.fresh he hlive hunused
  have huse := h.use he hunused
  have hkey : e.value.tokenHash = P.sha256 token := (h.sound.stored _ e he).keyed
  have hno : ∀ f, ¬ Replays f log (.refreshed token t true) := by
    rintro f ⟨⟨t₀, hr⟩, x, hi, -⟩
    exact hnever f x hi t₀ hr
  have hnow : ∀ f x, .issued token f x ∈ log →
      Kept P (s.put t { e.value with used := true } GRACE_SECONDS) token f t := by
    intro f x hi
    obtain ⟨rfl, -⟩ := h.family_eq hi he
    refine ⟨⟨{ e.value with used := true }, some (ttlEnd t GRACE_SECONDS)⟩, ?_, rfl, rfl, rfl⟩
    rw [← hkey]
    exact Function.update_self ..
  have hcomp : ∀ f, Compromised f (.refreshed token t true :: log) → Compromised f log :=
    fun f hf => (compromised_cons.mp hf).resolve_left (hno f)
  refine ⟨⟨huse.sound, ?_, ?_, ?_, ?_, ?_, ?_, ?_, ?_⟩, ⟨fun hc => hsane (hcomp _ hc), ?_⟩⟩
  · exact fun token f x hi => h.issued token f x (by simpa using hi)
  · exact fun token f x g y hf hg =>
      h.unique token f x g y (by simpa using hf) (by simpa using hg)
  · intro token' t₀ hr
    rcases List.mem_cons.mp hr with heq | hr
    · cases heq
      exact (h.sound.stored _ e he).drawn
    · exact h.accepted token' t₀ hr
  · intro h' e' he'
    obtain ⟨token', heq, hi⟩ := huse.logged h' e' he'
    exact ⟨token', heq, List.mem_cons_of_mem _ hi⟩
  · intro f set h' hset hmem
    obtain ⟨token', x, heq, hi⟩ := huse.members f set h' hset hmem
    exact ⟨token', x, heq, List.mem_cons_of_mem _ hi⟩
  · intro token' f x t₀ hi hr
    replace hi : .issued token' f x ∈ log := by simpa using hi
    rcases List.mem_cons.mp hr with heq | hr
    · cases heq
      exact Or.inr (hnow f x hi)
    · exact huse.rotated token' f x t₀ hi hr
  · exact fun f hf => huse.compromised f (hcomp f hf)
  · refine h.detects.cons fun token' time f x heq hi hc => ?_
    cases heq
    obtain ⟨rfl, -⟩ := h.family_eq hi he
    exact hsane (hcomp _ hc)
  · intro token' x t₀ hi hr
    replace hi : .issued token' e.value.familyId x ∈ log := by simpa using hi
    rcases List.mem_cons.mp hr with heq | hr
    · cases heq
      exact hnow _ x hi
    · rcases h.rotated token' _ x t₀ hi hr with hdead | hkept
      · exact absurd hlive (hdead _ e he rfl hunused)
      · exact hkept.use hkey he hunused

/-- **A token is issued** in a family that has no unused one. -/
theorem Agree.issue (h : Agree P s t log) (hf : ∀ k e, ¬ Newest s f k e)
    (hrot : Rotating P s f log) {record : RefreshRecord} {ttl : ℕ+}
    (hrecord : NewRecord P t s f ttl record) {n : ℕ} (hn : s.uuidsDrawn ≤ n)
    (hdrawn : ∃ m < n, f = P.randomUUID m) :
    Agree P (({ s with tokensDrawn := s.tokensDrawn + 1, uuidsDrawn := n } : Store).put t record ttl)
      t (.issued (P.randomToken s.tokensDrawn) f record.expiresAt :: log) := by
  have hsound := h.sound.issue hf hrecord hn hdrawn
  obtain ⟨hhash, rfl, hexpiry, hunused⟩ := hrecord
  have hunseen : ∀ h', IssuedBefore P h' s → h' ≠ record.tokenHash := by
    rintro h' ⟨m, hm, rfl⟩ heq
    exact Nat.lt_irrefl m (P.hash_inj (heq.trans hhash) ▸ hm)
  have hkept : ∀ token g t₀, Kept P s token g t₀ → Kept P (({ s with
      tokensDrawn := s.tokensDrawn + 1, uuidsDrawn := n } : Store).put t record ttl) token g t₀ := by
    rintro token g t₀ ⟨e, he, hrest⟩
    have hne := hunseen _ (h.sound.stored _ e he).drawn
    exact ⟨e, (Function.update_of_ne hne _ _).trans he, hrest⟩
  have hdead : ∀ g, g ≠ record.familyId → Dead g t s → Dead g t (({ s with
      tokensDrawn := s.tokensDrawn + 1, uuidsDrawn := n } : Store).put t record ttl) := by
    intro g hg hold h' e he hfam
    rcases put_tokens he with ⟨-, rfl⟩ | ⟨-, he⟩
    · exact absurd hfam.symm hg
    · exact hold h' e he hfam
  have hcomp : ∀ g, Compromised g (.issued (P.randomToken s.tokensDrawn) record.familyId
      record.expiresAt :: log) → Compromised g log :=
    fun g hg => (compromised_cons.mp hg).resolve_left id
  have hnew : ∀ token g x, .issued token g x ∈ log → token ≠ P.randomToken s.tokensDrawn := by
    rintro token g x hi rfl
    obtain ⟨⟨m, hm, heq⟩, -⟩ := h.issued _ g x hi
    exact Nat.lt_irrefl m (P.hash_inj (congrArg P.sha256 heq) ▸ hm)
  refine ⟨hsound, ?_, ?_, ?_, ?_, ?_, ?_, ?_, ?_⟩
  · intro token g x hi
    rcases List.mem_cons.mp hi with heq | hi
    · cases heq
      obtain ⟨m, hm, hfm⟩ := hdrawn
      exact ⟨⟨s.tokensDrawn, Nat.lt_succ_self _, rfl⟩, m, hm, hfm⟩
    · obtain ⟨⟨k, hk, htoken⟩, m, hm, hfm⟩ := h.issued token g x hi
      exact ⟨⟨k, Nat.lt_succ_of_lt hk, htoken⟩, m, hm.trans_le hn, hfm⟩
  · intro token g x g' y hi hi'
    rcases List.mem_cons.mp hi with heq | hi <;> rcases List.mem_cons.mp hi' with heq' | hi'
    · cases heq
      cases heq'
      exact ⟨rfl, rfl⟩
    · cases heq
      exact absurd rfl (hnew _ _ _ hi')
    · cases heq'
      exact absurd rfl (hnew _ _ _ hi)
    · exact h.unique token g x g' y hi hi'
  · intro token t₀ hr
    obtain ⟨m, hm, heq⟩ := h.accepted token t₀ (by simpa using hr)
    exact ⟨m, Nat.lt_succ_of_lt hm, heq⟩
  · intro h' e he
    rcases put_tokens he with ⟨rfl, rfl⟩ | ⟨-, he⟩
    · exact ⟨_, hhash, List.mem_cons_self⟩
    · obtain ⟨token, heq, hi⟩ := h.logged h' e he
      exact ⟨token, heq, List.mem_cons_of_mem _ hi⟩
  · intro g set h' hset hmem
    rcases put_members hset hmem with ⟨rfl, rfl⟩ | ⟨old, hold, hmem⟩
    · exact ⟨_, _, hhash, List.mem_cons_self⟩
    · obtain ⟨token, x, heq, hi⟩ := h.members g old h' hold hmem
      exact ⟨token, x, heq, List.mem_cons_of_mem _ hi⟩
  · intro token g x t₀ hi hr
    replace hr : .refreshed token t₀ true ∈ log := by simpa using hr
    rcases List.mem_cons.mp hi with heq | hi
    · -- a token that is only now issued was not accepted before
      cases heq
      exact absurd hhash.symm (hunseen _ (h.accepted _ t₀ hr))
    · by_cases hg : g = record.familyId
      · subst hg
        exact Or.inr (hkept _ _ _ (hrot.kept token x t₀ hi hr))
      · exact (h.rotated token g x t₀ hi hr).imp (hdead g hg) (hkept token g t₀)
  · intro g hg
    refine hdead g ?_ (h.compromised g (hcomp g hg))
    rintro rfl
    exact hrot.sane (hcomp _ hg)
  · exact h.detects.cons fun _ _ _ _ heq => by cases heq

end Log

/-! ## 5. Every run -/

variable {P config}

/-- A login or the end of a rotation: the outcome of a creation, with what it adds to the log. -/
theorem Creates.agree {t : ℕ} {s : Store} {log : List Event} {f : String} {n₀ : ℕ}
    {r : Except Err TokenPair × Store} (hr : Creates P t s f n₀ r) (h : Agree P s t log)
    (hf : ∀ k e, ¬ Newest s f k e) (hdrawn : ∃ m < n₀, f = P.randomUUID m)
    (hrot : Rotating P s f log) : Agree P r.2 t (issuedEvents P r.2 r.1 ++ log) := by
  cases hr with
  | failed err n hn => exact h.draw hn
  | created pair record ttl n hpair hrecord hn hn' =>
    obtain ⟨m, hm, hfm⟩ := hdrawn
    have hentry : (({ s with tokensDrawn := s.tokensDrawn + 1, uuidsDrawn := n } : Store).put t
        record ttl).tokens (hashToken P (P.randomToken s.tokensDrawn)) =
        some ⟨record, some (ttlEnd t ttl)⟩ := by
      rw [hashToken, ← hrecord.hash]
      exact Function.update_self ..
    have hissue := h.issue hf hrot hrecord hn' ⟨m, hm.trans_le hn, hfm⟩
    simp only [issuedEvents, hpair, hentry, hrecord.family]
    exact hissue

/-- The outcome of a refresh that comes in time, with what it adds to the log. -/
theorem Refreshed.agree {t : ℕ} {s : Store} {log : List Event} {token : String}
    {r : Except Err TokenPair × Store} (hr : Refreshed P t s (P.sha256 token) r)
    (h : Agree P s t log)
    (hl : ∀ t₀ f x, .refreshed token t₀ true ∈ log → .issued token f x ∈ log → t ≤ x →
      t ≤ ttlEnd t₀ GRACE_SECONDS ∨ Dead f t s) :
    Agree P r.2 t (issuedEvents P r.2 r.1 ++ .refreshed token t r.1.isOk :: log) := by
  cases hr with
  | unknown err hread =>
    refine h.refuse fun f hrep => ?_
    obtain ⟨⟨t₀, hrot⟩, x, hi, hx⟩ := hrep
    rcases hl t₀ f x hrot hi hx with hin | hdead
    · rcases h.rotated token f x t₀ hi hrot with hdead | ⟨e, he, -, -, hexp⟩
      · exact hdead
      · -- the used record is still there, and would have been read
        refine absurd ?_ (Timed.readAt_eq_none.mp hread e he)
        unfold Timed.LiveAt
        rw [hexp]
        exact hin
    · exact hdead
  | reused err record hread hused =>
    obtain ⟨e, he, -, rfl⟩ := Timed.readAt_eq_some.mp hread
    obtain ⟨-, -, n, -, hf⟩ := h.sound.stored _ e he
    obtain ⟨hrevoke, hdead⟩ := h.revoke (hf ▸ P.uuid_ne_empty n)
    refine hrevoke.refuse fun f hrep => ?_
    obtain ⟨-, x, hi, -⟩ := hrep
    exact (h.family_eq hi he).1 ▸ hdead
  | expired err record hread hunused hexpired =>
    -- Redis would have dropped the record
    obtain ⟨e, he, hlive, rfl⟩ := Timed.readAt_eq_some.mp hread
    have hexp := h.sound.expiry _ _ e ⟨he, rfl, hunused⟩
    unfold Timed.LiveAt at hlive
    rw [hexp] at hlive
    exact absurd hexpired (Nat.not_lt.mpr hlive)
  | rotated record r hread hunused hr =>
    obtain ⟨e, he, hlive, rfl⟩ := Timed.readAt_eq_some.mp hread
    have hkey : e.value.tokenHash = P.sha256 token := (h.sound.stored _ e he).keyed
    cases hr with
    | failed err n hn =>
      refine ((h.use he hunused).draw hn).refuse fun f hrep => ?_
      obtain ⟨⟨t₀, hrot⟩, x, hi, -⟩ := hrep
      exact absurd hrot ((h.fresh he hlive hunused).2 f x hi t₀)
    | created pair record ttl n hpair hrecord hn hn' =>
      obtain ⟨haccept, hrot⟩ := h.accept he hlive hunused
      obtain ⟨-, -, m, hm, hfm⟩ := h.sound.stored _ e he
      exact (Creates.created pair record ttl n hpair hrecord hn hn').agree haccept
        (h.sound.use he hunused _).2 ⟨m, hm, hfm⟩ hrot

/-- **One call** that comes in time. -/
theorem Agree.step {c : State} (h : Agree P c.store c.clock c.log) (l : Call × ℕ)
    (hl : InTime c l) :
    Agree P (step P config c l).store (step P config c l).clock (step P config c l).log := by
  obtain ⟨call, wait⟩ := l
  replace h : Agree P c.store (c.clock + wait) c.log := h.wait (Nat.le_add_right _ _)
  cases call with
  | login user options =>
    have hnone : ∀ n < c.store.uuidsDrawn, P.randomUUID c.store.uuidsDrawn ≠ P.randomUUID n :=
      fun n hn heq => Nat.lt_irrefl n (P.uuid_inj heq ▸ hn)
    have hunissued : ∀ token x, .issued token (P.randomUUID c.store.uuidsDrawn) x ∉ c.log := by
      intro token x hi
      obtain ⟨-, n, hn, heq⟩ := h.issued token _ x hi
      exact hnone n hn heq
    refine (ranAt_createTokenPair user { options with familyId := none }).agree h ?_
      ⟨c.store.uuidsDrawn, Nat.lt_succ_self _, rfl⟩ ⟨?_, ?_⟩
    · rintro k e ⟨he, hfam, -⟩
      obtain ⟨-, -, n, hn, heq⟩ := h.sound.stored k e he
      exact hnone n hn (hfam.symm.trans heq)
    · intro hcomp
      obtain ⟨token, x, hi⟩ := hcomp.issued
      exact hunissued token x hi
    · exact fun token x _ hi => absurd hi (hunissued token x)
  | refresh raw options =>
    by_cases hraw : raw = ""
    · subst hraw
      refine h.refuse fun f hrep => ?_
      obtain ⟨-, x, hi, -⟩ := hrep
      obtain ⟨⟨n, -, heq⟩, -⟩ := h.issued _ f x hi
      exact absurd heq.symm (P.token_ne_empty n)
    · have hr := @ranAt_refreshTokens P config (c.clock + wait) c.store raw hraw
        { options with familyId := none } rfl
      unfold SmartDrop.Auth.step
      dsimp only
      generalize ranAt P (refreshTokens P config raw { options with familyId := none })
        (c.clock + wait) c.store = r at hr
      exact hr.agree h fun t₀ f x hrot hi hx => hl t₀ f x hrot hi hx

/-- Before the first login there is nothing to agree on. -/
theorem agree_init : Agree P State.init.store State.init.clock State.init.log where
  sound := ⟨fun _ _ he => (nomatch he), fun _ _ _ he => (nomatch he.1),
    fun _ _ _ _ _ he => (nomatch he.1), fun _ _ _ he => (nomatch he.1)⟩
  issued _ _ _ hi := by cases hi
  unique _ _ _ _ _ hi := by cases hi
  accepted _ _ hr := by cases hr
  logged _ _ he := by cases he
  members _ _ _ hset := by cases hset
  rotated _ _ _ _ hi := by cases hi
  compromised f hf := by
    obtain ⟨token, x, hi⟩ := hf.issued
    cases hi
  detects newer token time older f x heq := by
    exact absurd heq.symm (List.append_ne_nil_of_right_ne_nil _ (List.cons_ne_nil _ _))

/-- **Reuse is detected in time.**  In every run of logins, refreshes and time passing in which
each reuse comes in time, no token of a family is accepted once a rotated token of the family was
presented again before its original expiry. -/
theorem reuse_detected (P : Platform) (config : Config) (ls : List (Call × ℕ))
    (hls : Along (step P config) InTime .init ls) :
    Detects (run (step P config) .init ls).log :=
  (run_inv (I := fun c : State => Agree P c.store c.clock c.log)
    (fun _ l h hl => h.step l hl) agree_init hls).detects

/-- A login, a rotation, the reuse of the rotated token after some time, and a refresh with the
newest token. -/
def sampleReuse (wait : ℕ) : List (Call × ℕ) :=
  [(.login sampleUser {}, 0), (.refresh "a" {}, 1), (.refresh "a" {}, wait), (.refresh "aa" {}, 0)]

/-- The log after the first `n` calls. -/
def sampleLog (n : ℕ) : List Event :=
  (run (step samplePlatform sampleConfig) .init ((sampleReuse 30000).take n)).log

/-- Half a minute after the rotation, the reuse ends the family. -/
theorem reuse_detected_sample :
    Detects (run (step samplePlatform sampleConfig) .init (sampleReuse 30000)).log := by
  have hlog₁ : sampleLog 1 = [.issued "a" "u" 604800000] := by decide +kernel
  have hlog₂ : sampleLog 2 = [.issued "aa" "u" 604800001, .refreshed "a" 1 true,
    .issued "a" "u" 604800000] := by decide +kernel
  have hlog₃ : sampleLog 3 = .refreshed "a" 30001 false :: sampleLog 2 := by decide +kernel
  refine reuse_detected samplePlatform sampleConfig (sampleReuse 30000) ⟨trivial, ?_, ?_, ?_, trivial⟩
  · intro t f x hr
    replace hr : .refreshed "a" t true ∈ sampleLog 1 := hr
    simp [hlog₁] at hr
  · intro t f x hr _ _
    replace hr : .refreshed "a" t true ∈ sampleLog 2 := hr
    obtain rfl : t = 1 := by simpa [hlog₂] using hr
    exact Or.inl (by decide)
  · intro t f x hr
    replace hr : .refreshed "aa" t true ∈ sampleLog 3 := hr
    simp [hlog₃, hlog₂] at hr

/-- A minute after the rotation, the reuse is not noticed, and the newest token is accepted. -/
theorem late_replay_undetected :
    ¬ Detects (run (step samplePlatform sampleConfig) .init (sampleReuse 60001)).log := by
  have hlog : (run (step samplePlatform sampleConfig) .init (sampleReuse 60001)).log =
      [.issued "aaa" "u" 604860002, .refreshed "aa" 60002 true, .refreshed "a" 60002 false,
        .issued "aa" "u" 604800001, .refreshed "a" 1 true, .issued "a" "u" 604800000] := by
    decide +kernel
  rw [hlog]
  intro h
  refine h [.issued "aaa" "u" 604860002] "aa" 60002 _ "u" 604800001 rfl (by simp) ?_
  refine ⟨[.refreshed "aa" 60002 true], .refreshed "a" 60002 false, _, rfl, ⟨1, by simp⟩,
    604800000, by simp, by decide⟩

end SmartDrop.Auth
