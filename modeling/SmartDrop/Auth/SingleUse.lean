/-
# A refresh token presented several times at once

Any number of calls of `refreshTokens` present one raw token, one command at a time.  Whether
the token is used is decided on the record that a call has read, and the used record is stored
afterwards, so two calls that both read before either writes are both given a new pair
(`token_refreshed_twice`).  At most one call gets a pair when every write of the used record
finds the token still unused (`refreshed_once`): the write is what a pair needs, and it can be
made once.
-/
import SmartDrop.Auth.Tokens
import SmartDrop.Lib.Once

namespace SmartDrop.Auth

open Conc Redis

/-! ## 1. The concurrent system -/

/-- A store and what each call of `refreshTokens` has still to do. -/
abbrev Refreshes (τ : Type) := Pool sig (Except Err TokenPair) τ Store

section

variable {τ : Type} (P : Platform) (config : Config)

/-- Every call is about to begin, with the same raw token and options of its own. -/
def beginRefreshes (raw : String) (options : τ → TokenOptions) (s : Store) : Refreshes τ :=
  ⟨s, fun i => (refreshTokens P config raw (options i)).prog⟩

/-- The calls act on one Redis; the environment's answers are the times of the steps. -/
def refreshMachine : Machine sig τ ℕ Store := (machine P).comap fun _ => ()

/-- Call `i` has returned a new pair. -/
def GotPair (c : Refreshes τ) (i : τ) : Prop := ∃ pair, c.prog i = .ret (.ok pair)

end

/-- The token with this hash is stored as unused, whether or not it has run out. -/
def Unspent (h : String) (s : Store) : Prop :=
  ∃ e, s.tokens h = some e ∧ e.value.used = false

instance (h : String) (s : Store) : Decidable (Unspent h s) :=
  decidable_of_iff (∃ e ∈ s.tokens h, e.value.used = false) Iff.rfl

/-- The command stores the token with this hash as used. -/
def Op.Spends (h : String) : Op → Prop
  | .setToken h' record _ => h' = h ∧ record.used = true
  | _ => False

instance (h : String) (op : Op) : Decidable (op.Spends h) := by
  cases op <;> unfold Op.Spends <;> infer_instance

/-- A write of the used record finds the token unused. -/
def FindsUnspent (h : String) (op : Op) (_ : ℕ) (s : Store) : Prop := op.Spends h → Unspent h s

instance (h : String) (op : Op) (x : ℕ) (s : Store) : Decidable (FindsUnspent h op x s) :=
  inferInstanceAs (Decidable (op.Spends h → Unspent h s))

/-- Records are stored under the hash they carry. -/
def Keyed (s : Store) : Prop := ∀ h e, s.tokens h = some e → e.value.tokenHash = h

/-- The token with this hash was issued before. -/
def IssuedBefore (P : Platform) (h : String) (s : Store) : Prop :=
  ∃ n < s.tokensDrawn, h = P.sha256 (P.randomToken n)

/-! ## 2. What a call issues -/

/-- Replies that can be relied on: a record carries the hash it is stored under, and no draw
has the hash `h`. -/
def Honest (P : Platform) (h : String) : (op : Op) → op.Ret → Prop
  | .getToken h', reply => ∀ record, reply = some record → record.tokenHash = h'
  | .randomBytes, reply => P.sha256 reply ≠ h
  | _, _ => True

/-- Commands that never store the token with the hash `h` as unused. -/
def Op.Spares (h : String) : Op → Prop
  | .setToken h' record _ => record.tokenHash = h' ∧ (h' = h → record.used = true)
  | _ => True

variable {P : Platform} {config : Config} {h : String}

/-- As long as the replies are honest, the commands spare `h` and `Q` holds of the result. -/
def Sparing (P : Platform) (h : String) {α : Type} (Q : α → Prop) (t : Code α) : Prop :=
  Throws.Assuming (S := sig) (Honest P h) (Op.Spares h) Q t

theorem sparing_redis {op : Op} (hop : op.Spares h) :
    Sparing P h (fun r => Honest P h op r) (redis op) :=
  Throws.Assuming.call hop fun _ hr => hr

theorem sparing_quiet {op : Op} (hop : op.Spares h) :
    Sparing P h (fun _ => True) (redis op) :=
  Throws.Assuming.call hop fun _ _ => trivial

/-- Storing a record that is used, or is not the token at hand. -/
theorem sparing_storeRefreshToken {record : RefreshRecord} {ttl : ℕ+}
    (hrecord : record.tokenHash = h → record.used = true) :
    Sparing P h (fun _ => True) (storeRefreshToken record ttl) := by
  refine Throws.Assuming.bind (sparing_quiet ⟨rfl, hrecord⟩) fun _ _ => ?_
  split
  · exact Throws.Assuming.pure trivial
  · refine Throws.Assuming.bind (sparing_quiet trivial) fun _ _ => ?_
    exact sparing_quiet trivial

theorem sparing_delTokens (hashes : List String) :
    Sparing P h (fun _ => True) (delTokens hashes) := by
  induction hashes with
  | nil => exact Throws.Assuming.pure trivial
  | cons hash hashes ih => exact Throws.Assuming.bind (sparing_quiet trivial) fun _ _ => ih

theorem sparing_revokeFamily (familyId : String) :
    Sparing P h (fun _ => True) (revokeFamily familyId) := by
  unfold revokeFamily
  split
  · exact Throws.Assuming.pure trivial
  · refine Throws.Assuming.bind (sparing_quiet trivial) fun hashes _ => ?_
    refine Throws.Assuming.bind (sparing_delTokens hashes) fun _ _ => ?_
    exact sparing_quiet trivial

theorem sparing_signJwt (payload : List (String × Option JsonText.Json)) (secret : String)
    (options : JwtOptions) : Sparing P h (fun _ => True) (signJwt P payload secret options) := by
  unfold signJwt
  split
  · exact Throws.Assuming.throw_bind _ _
  · refine Throws.Assuming.bind (sparing_quiet trivial) fun _ _ => ?_
    exact Throws.Assuming.pure trivial

theorem sparing_chooseFamily (options : TokenOptions) :
    Sparing P h (fun _ => True) (chooseFamily options) := by
  unfold chooseFamily
  split
  · exact Throws.Assuming.pure trivial
  · exact sparing_quiet trivial

/-- A new pair is stored under the hash of a new draw. -/
theorem sparing_createTokenPair (user : User) (options : TokenOptions) :
    Sparing P h (fun _ => True) (createTokenPair P config user options) := by
  unfold createTokenPair
  split
  · exact Throws.Assuming.throw_bind _ _
  refine Throws.Assuming.bind (sparing_chooseFamily options) fun familyId _ => ?_
  refine Throws.Assuming.bind (sparing_signJwt _ _ _) fun accessToken _ => ?_
  refine Throws.Assuming.bind (sparing_redis trivial) fun rawRefreshToken hraw => ?_
  refine Throws.Assuming.bind (sparing_quiet trivial) fun now _ => ?_
  refine Throws.Assuming.bind (sparing_quiet trivial) fun tokenId _ => ?_
  refine Throws.Assuming.bind (sparing_storeRefreshToken fun hh => absurd hh hraw) fun _ _ => ?_
  exact Throws.Assuming.pure trivial

/-- **A call spares the token it presents**: it is stored again as used only. -/
theorem sparing_refreshTokens (raw : String) (options : TokenOptions) :
    Sparing P h (fun _ => True) (refreshTokens P config raw options) := by
  unfold refreshTokens
  split
  · exact Throws.Assuming.throw_bind _ _
  refine Throws.Assuming.bind (sparing_redis trivial) ?_
  rintro (_ | record) hrecord
  · exact Throws.Assuming.throw _
  dsimp only
  split
  · refine Throws.Assuming.bind (sparing_revokeFamily _) fun _ _ => ?_
    exact Throws.Assuming.throw_bind _ _
  refine Throws.Assuming.bind (sparing_quiet trivial) fun now _ => ?_
  split
  · refine Throws.Assuming.bind (sparing_quiet trivial) fun _ _ => ?_
    exact Throws.Assuming.throw_bind _ _
  refine Throws.Assuming.bind (sparing_storeRefreshToken fun _ => rfl) fun _ _ => ?_
  exact sparing_createTokenPair _ _

/-- **A new pair needs the write of the used record.** -/
theorem needs_refreshTokens (raw : String) (options : TokenOptions) :
    Throws.Needs (S := sig) (Honest P (hashToken P (JsText.trim raw)))
      (Op.Spends (hashToken P (JsText.trim raw))) (refreshTokens P config raw options) := by
  unfold refreshTokens
  split
  · exact Throws.Needs.throw_bind _ _
  refine Throws.Needs.of_bind (sparing_redis trivial) ?_
  rintro (_ | record) hrecord
  · exact Throws.Needs.throw _
  dsimp only
  split
  · refine Throws.Needs.of_bind (sparing_revokeFamily _) fun _ _ => ?_
    exact Throws.Needs.throw_bind _ _
  refine Throws.Needs.of_bind (sparing_quiet trivial) fun now _ => ?_
  split
  · refine Throws.Needs.of_bind (sparing_quiet trivial) fun _ _ => ?_
    exact Throws.Needs.throw_bind _ _
  exact Throws.Needs.bind (Throws.Needs.bind (Throws.Needs.call_bind ⟨hrecord record rfl, rfl⟩))

/-! ## 3. What Redis does -/

/-- **The token can be spent once**: its write as used ends that it is unspent, and no command
that spares it brings that back. -/
theorem spends_refreshMachine {τ : Type} (P : Platform) (h : String) :
    Pool.Spends (refreshMachine P : Machine sig τ ℕ Store)
      (fun s => Keyed s ∧ IssuedBefore P h s) (Unspent h) (Honest P h) (Op.Spares h)
      (Op.Spends h) where
  keep i op x s hop hs := by
    obtain ⟨hkeyed, n, hn, hh⟩ := hs
    refine ⟨fun h' e he => ?_, n, ?_, hh⟩
    · rcases Store.exec_tokens he with he | ⟨record, ttl, rfl, rfl⟩
      · exact hkeyed h' e he
      · exact hop.1
    · cases op with
      | randomBytes => exact Nat.lt_succ_of_lt hn
      | _ => exact hn
  reply i op x s hop hs := by
    obtain ⟨hkeyed, n, hn, hh⟩ := hs
    cases op with
    | getToken h' =>
      intro record hrecord
      obtain ⟨e, he, -, rfl⟩ := Timed.readAt_eq_some.mp hrecord
      exact hkeyed h' e he
    | randomBytes =>
      intro heq
      have hnew : P.sha256 (P.randomToken s.tokensDrawn) = P.sha256 (P.randomToken n) :=
        heq.trans hh
      exact Nat.lt_irrefl n (P.hash_inj hnew ▸ hn)
    | _ => trivial
  spent i op x s hop hs hspend := by
    cases op with
    | setToken h' record ttl =>
      obtain ⟨rfl, hused⟩ := hspend
      rintro ⟨e, he, hunused⟩
      rw [show ((refreshMachine P).exec i (.setToken h' record ttl) x s).2.tokens h' =
        some ⟨record, some (ttlEnd x ttl)⟩ from Function.update_self ..] at he
      obtain rfl := Option.some.inj he
      exact Bool.noConfusion (hused.symm.trans hunused)
    | _ => exact hspend.elim
  lost i op x s hop hs hno := by
    rintro ⟨e, he, hunused⟩
    rcases Store.exec_tokens he with he | ⟨record, ttl, rfl, rfl⟩
    · exact hno ⟨e, he, hunused⟩
    · exact Bool.noConfusion ((hop.2 rfl).symm.trans hunused)

/-! ## 4. Every interleaving -/

/-- **A refresh token is used once.**  Any number of calls present one issued raw token, in any
interleaving and at any times.  If every write of its used record finds it unused, then at most
one of the calls returns a new pair. -/
theorem refreshed_once {τ : Type} [DecidableEq τ] (P : Platform) (config : Config) (raw : String)
    (options : τ → TokenOptions) (s : Store) (ls : List (τ × ℕ)) (hkeyed : Keyed s)
    (hissued : IssuedBefore P (hashToken P (JsText.trim raw)) s)
    (hls : Along (Pool.step (refreshMachine P))
      (Pool.Issues (FindsUnspent (hashToken P (JsText.trim raw))))
      (beginRefreshes P config raw options s) ls) :
    ∀ i j, GotPair (run (Pool.step (refreshMachine P)) (beginRefreshes P config raw options s) ls) i →
      GotPair (run (Pool.step (refreshMachine P)) (beginRefreshes P config raw options s) ls) j →
      i = j := by
  rintro i j ⟨a, hi⟩ ⟨b, hj⟩
  have hissue : ∀ i, ((beginRefreshes P config raw options s).prog i).Assuming
      (Honest P (hashToken P (JsText.trim raw))) (Op.Spares (hashToken P (JsText.trim raw)))
      fun _ => True :=
    fun i => Prog.Assuming.mono (sparing_refreshTokens raw (options i)) fun _ _ => trivial
  have hneeds : ∀ i, ((beginRefreshes P config raw options s).prog i).Needs
      (Honest P (hashToken P (JsText.trim raw))) (Op.Spends (hashToken P (JsText.trim raw)))
      fun r => ∃ pair, r = .ok pair :=
    fun i => needs_refreshTokens raw (options i)
  exact Pool.once (spends_refreshMachine P _) ⟨hkeyed, hissued⟩ hissue hneeds hls
    hi ⟨a, rfl⟩ hj ⟨b, rfl⟩

/-! ## 5. Two calls that overlap -/

theorem sampleToken_inj : Function.Injective fun n => String.ofList (List.replicate (n + 1) 'a') :=
  JsText.repeat_inj 'a' 1

theorem sampleToken_ne_empty (n : ℕ) : String.ofList (List.replicate (n + 1) 'a') ≠ "" :=
  JsText.repeat_ne_empty 'a' n

theorem sampleUUID_inj : Function.Injective fun n => String.ofList (List.replicate (n + 1) 'u') :=
  JsText.repeat_inj 'u' 1

theorem sampleUUID_ne_empty (n : ℕ) : String.ofList (List.replicate (n + 1) 'u') ≠ "" :=
  JsText.repeat_ne_empty 'u' n

/-- A platform whose digest keeps the text as it is. -/
def samplePlatform : Platform where
  sha256 := id
  hmac _ _ _ := []
  randomToken n := String.ofList (List.replicate (n + 1) 'a')
  randomUUID n := String.ofList (List.replicate (n + 1) 'u')
  hash_inj := sampleToken_inj
  token_ne_empty := sampleToken_ne_empty
  uuid_inj := sampleUUID_inj
  uuid_ne_empty := sampleUUID_ne_empty

def sampleConfig : Config := ⟨none⟩

def sampleUser : User := ⟨"user_1", none, none, none⟩

/-- A user has logged in. -/
def sampleStore : Store :=
  ((createTokenPair samplePlatform sampleConfig sampleUser {}).prog.runAt
    (machine samplePlatform) () 0 .init).2

/-- The two calls take turns, the first one with the first step. -/
def sampleTurns (n : ℕ) : List (Bool × ℕ) :=
  (List.replicate n [(false, 1), (true, 1)]).flatten

/-- Both calls read the token before either stores it as used, and both get a pair. -/
theorem token_refreshed_twice :
    ¬ ∀ i j, GotPair (run (Pool.step (refreshMachine samplePlatform))
        (beginRefreshes samplePlatform sampleConfig "a" (fun _ => {}) sampleStore)
        (sampleTurns 13)) i →
      GotPair (run (Pool.step (refreshMachine samplePlatform))
        (beginRefreshes samplePlatform sampleConfig "a" (fun _ => {}) sampleStore)
        (sampleTurns 13)) j → i = j := by
  intro h
  have hboth : ∀ i, GotPair (run (Pool.step (refreshMachine samplePlatform))
      (beginRefreshes samplePlatform sampleConfig "a" (fun _ => {}) sampleStore)
      (sampleTurns 13)) i := by
    rintro (_ | _) <;> exact ⟨_, rfl⟩
  exact Bool.noConfusion (h false true (hboth false) (hboth true))

/-- The first call runs to its end before the second one begins. -/
def sampleQueue : List (Bool × ℕ) := List.replicate 13 (false, 1) ++ List.replicate 6 (true, 2)

/-- One after the other, only the first call gets a pair. -/
theorem refreshed_once_sample :
    GotPair (run (Pool.step (refreshMachine samplePlatform))
      (beginRefreshes samplePlatform sampleConfig "a" (fun _ => {}) sampleStore) sampleQueue)
      false ∧
    ∀ i j, GotPair (run (Pool.step (refreshMachine samplePlatform))
        (beginRefreshes samplePlatform sampleConfig "a" (fun _ => {}) sampleStore) sampleQueue) i →
      GotPair (run (Pool.step (refreshMachine samplePlatform))
        (beginRefreshes samplePlatform sampleConfig "a" (fun _ => {}) sampleStore) sampleQueue) j →
      i = j := by
  refine ⟨⟨_, rfl⟩, refreshed_once samplePlatform sampleConfig "a" (fun _ => {}) sampleStore
    sampleQueue (fun h e he => ?_) ⟨0, by decide, by decide⟩ (by decide +kernel)⟩
  have hstore : sampleStore.tokens = Function.update (fun _ => none) "a" (sampleStore.tokens "a") := rfl
  by_cases heq : h = "a"
  · subst heq
    cases he
    rfl
  · rw [hstore, Function.update_of_ne heq] at he
    cases he

end SmartDrop.Auth
