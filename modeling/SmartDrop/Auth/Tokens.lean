/-
# Refresh tokens

`auth/tokenRefresh.js` over a connected Redis.  A refresh token is stored under its SHA-256
(`rt:<hash>`) with a time to live, and the hashes of a family are kept in a set
(`rt_fam:<familyId>`) that a reuse of a token empties.  A rotation stores the old record again
as used for sixty seconds, and then issues a new pair.

Redis commands, the clock and the random source are the atomic steps; the environment's answer
at a step is the time.
-/
import SmartDrop.Lib.Prog
import SmartDrop.Lib.RedisTypes
import SmartDrop.Lib.Bytes
import SmartDrop.Lib.JsText
import Mathlib.Data.PNat.Basic

namespace SmartDrop.Auth

open Conc Redis JsonText

/-! ## 1. Data -/

/-- What the module is given.  `randomToken n` is the text of the `n`-th
`crypto.randomBytes(32)`; no two of these have one SHA-256, and no UUID comes twice.  Neither
text is empty. -/
structure Platform where
  sha256 : String → String
  hmac : (algorithm key message : String) → List UInt8
  randomToken : ℕ → String
  randomUUID : ℕ → String
  hash_inj : Function.Injective fun n => sha256 (randomToken n)
  token_ne_empty : ∀ n, randomToken n ≠ ""
  uuid_inj : Function.Injective randomUUID
  uuid_ne_empty : ∀ n, randomUUID n ≠ ""

/-- The environment variables it reads. -/
structure Config where
  jwtSecret : Option String

/-- A user, as far as tokens carry one. -/
structure User where
  id : String
  email : Option String
  username : Option String
  scopes : Option (List String)
deriving DecidableEq

/-- The record of a refresh token. -/
structure RefreshRecord where
  tokenId : String
  tokenHash : String
  userId : String
  user : User
  familyId : String
  createdAt : ℕ
  expiresAt : ℕ
  used : Bool
deriving DecidableEq

/-- The options of `createTokenPair`. -/
structure TokenOptions where
  jwtSecret : Option String := none
  accessTokenTtlSeconds : Option ℕ := none
  refreshTokenTtlSeconds : Option ℕ+ := none
  familyId : Option String := none
  scopes : Option (List String) := none

/-- A new token pair and what is said of it; the user comes without scopes. -/
structure TokenPair where
  tokenType : String
  accessToken : String
  refreshToken : String
  expiresIn : ℕ
  refreshExpiresIn : ℕ
  user : User
deriving DecidableEq

/-- What the module throws: an `AppError`, or an `Error` with a message. -/
inductive Err where
  | app (code message : String) (status : ℕ)
  | error (message : String)
deriving DecidableEq

/-! ## 2. Redis, as the module uses it -/

/-- The two kinds of keys, and how much randomness has been drawn so far. -/
structure Store where
  tokens : String → Option (Timed RefreshRecord)
  families : String → Option (Timed (RSet String))
  tokensDrawn : ℕ
  uuidsDrawn : ℕ

/-- The database before the first token. -/
def Store.init : Store := ⟨fun _ => none, fun _ => none, 0, 0⟩

/-- The atomic steps of the module. -/
inductive Op where
  | now
  | randomBytes
  | randomUUID
  | getToken (tokenHash : String)
  | setToken (tokenHash : String) (record : RefreshRecord) (ttlSeconds : ℕ+)
  | delToken (tokenHash : String)
  | saddFamily (familyId tokenHash : String)
  | expireFamily (familyId : String) (ttlSeconds : ℕ+)
  | smembersFamily (familyId : String)
  | delFamily (familyId : String)

/-- Their replies. -/
abbrev Op.Ret : Op → Type
  | .now => ℕ
  | .randomBytes | .randomUUID => String
  | .getToken _ => Option RefreshRecord
  | .smembersFamily _ => List String
  | .setToken .. | .delToken _ | .saddFamily .. | .expireFamily .. | .delFamily _ => Unit

abbrev sig : Sig := ⟨Op, Op.Ret⟩

/-- The last millisecond of a time to live that starts at `now`. -/
def ttlEnd (now : ℕ) (ttlSeconds : ℕ+) : ℕ := now + ttlSeconds * 1000

/-- What is left at `now` of a family: nothing, once it has expired. -/
def Store.family (s : Store) (now : ℕ) (familyId : String) : Option (Timed (RSet String)) :=
  (s.families familyId).filter fun e => decide (e.LiveAt now)

/-- What a step replies and does at the time `now`. -/
def Store.exec (P : Platform) (now : ℕ) (s : Store) : (op : Op) → op.Ret × Store
  | .now => (now, s)
  | .randomBytes => (P.randomToken s.tokensDrawn, { s with tokensDrawn := s.tokensDrawn + 1 })
  | .randomUUID => (P.randomUUID s.uuidsDrawn, { s with uuidsDrawn := s.uuidsDrawn + 1 })
  | .getToken h => (Timed.readAt now (s.tokens h), s)
  | .setToken h record ttl =>
    ((), { s with tokens := Function.update s.tokens h (some ⟨record, some (ttlEnd now ttl)⟩) })
  | .delToken h => ((), { s with tokens := Function.update s.tokens h none })
  | .saddFamily f h =>
    let entry : Timed (RSet String) := (s.family now f).getD ⟨.empty, none⟩
    ((), { s with
      families := Function.update s.families f (some { entry with value := entry.value.sadd h }) })
  | .expireFamily f ttl =>
    ((), { s with
      families := Function.update s.families f
        ((s.family now f).map fun e => { e with expiresAt := some (ttlEnd now ttl) }) })
  | .smembersFamily f => (((s.family now f).map fun e => e.value.members).getD [], s)
  | .delFamily f => ((), { s with families := Function.update s.families f none })

/-- Where the entry of a hash comes from after a step: it was there, or the step stored it. -/
theorem Store.exec_tokens {P : Platform} {now : ℕ} {s : Store} {op : Op} {h : String}
    {e : Timed RefreshRecord} (he : (s.exec P now op).2.tokens h = some e) :
    s.tokens h = some e ∨
      ∃ record ttl, op = .setToken h record ttl ∧ e = ⟨record, some (ttlEnd now ttl)⟩ := by
  cases op with
  | setToken h' record ttl =>
    by_cases heq : h = h'
    · subst heq
      rw [show (s.exec P now (.setToken h record ttl)).2.tokens h =
        some ⟨record, some (ttlEnd now ttl)⟩ from Function.update_self ..] at he
      exact Or.inr ⟨record, ttl, rfl, (Option.some.inj he).symm⟩
    · exact Or.inl ((Function.update_of_ne heq _ _).symm.trans he)
  | delToken h' =>
    by_cases heq : h = h'
    · subst heq
      rw [show (s.exec P now (.delToken h)).2.tokens h = none from Function.update_self ..] at he
      cases he
    · exact Or.inl ((Function.update_of_ne heq _ _).symm.trans he)
  | _ => exact Or.inl he

/-- Redis, the clock and the random source. -/
def machine (P : Platform) : Machine sig Unit ℕ Store where
  exec _ op now s := s.exec P now op

/-- A piece of the module's code. -/
abbrev Code := Throws sig Err

def redis (op : Op) : Code op.Ret := Throws.call (S := sig) op

/-! ## 3. The module -/

def DEFAULT_ACCESS_TOKEN_TTL_SECONDS : ℕ := 900

def DEFAULT_REFRESH_TOKEN_TTL_SECONDS : ℕ+ := 604800

def DEV_JWT_SECRET : String := "smartdrop-dev-jwt-secret-do-not-use-in-production"

/-- The time to live of a used record. -/
def GRACE_SECONDS : ℕ+ := 60

variable (P : Platform) (config : Config)

/-- `hashToken`. -/
def hashToken (rawToken : String) : String := P.sha256 rawToken

/-- `base64UrlEncode`. -/
def base64UrlEncode (bytes : List UInt8) : String :=
  let text := (Bytes.base64 bytes).map fun c => if c = '+' then '-' else if c = '/' then '_' else c
  String.ofList (text.reverse.dropWhile (· = '=')).reverse

/-- The options of `signJwt`. -/
structure JwtOptions where
  expiresInSeconds : ℕ := DEFAULT_ACCESS_TOKEN_TTL_SECONDS
  issuer : String := "smartdrop-api"
  audience : String := "smartdrop-client"
  algorithm : String := "HS256"

/-- The digest of a JWT algorithm. -/
def hashAlg (algorithm : String) : String :=
  if algorithm = "HS384" then "sha384" else if algorithm = "HS512" then "sha512" else "sha256"

/-- `signJwt`; an undefined claim is left out. -/
def signJwt (payload : List (String × Option Json)) (secret : String) (options : JwtOptions) :
    Code String := do
  if secret = "" then throw (.error "signJwt: secret is required")
  let header := Json.obj [("alg", .str options.algorithm), ("typ", .str "JWT")]
  let clock : ℕ ← redis .now
  let now := clock / 1000
  let fullPayload := Json.ofFields (payload ++ [
    ("iat", some (.ofNat now)),
    ("nbf", some (.ofNat now)),
    ("exp", some (.ofNat (now + options.expiresInSeconds))),
    ("iss", some (.str options.issuer)),
    ("aud", some (.str options.audience))])
  let data := base64UrlEncode (stringify header).toUTF8.toList ++ "." ++
    base64UrlEncode (stringify fullPayload).toUTF8.toList
  return data ++ "." ++ base64UrlEncode (P.hmac (hashAlg options.algorithm) secret data)

/-- `generateRawRefreshToken`. -/
def generateRawRefreshToken : Code String := redis .randomBytes

/-- `storeRefreshToken`. -/
def storeRefreshToken (record : RefreshRecord) (ttlSeconds : ℕ+) : Code Unit := do
  redis (.setToken record.tokenHash record ttlSeconds)
  unless record.familyId = "" do
    redis (.saddFamily record.familyId record.tokenHash)
    redis (.expireFamily record.familyId ttlSeconds)

/-- `getRefreshTokenRecord`. -/
def getRefreshTokenRecord (tokenHash : String) : Code (Option RefreshRecord) :=
  redis (.getToken tokenHash)

/-- `deleteRefreshToken`. -/
def deleteRefreshToken (tokenHash : String) : Code Unit := redis (.delToken tokenHash)

/-- Delete the records of some hashes, one after the other. -/
def delTokens : List String → Code Unit
  | [] => pure ()
  | hash :: hashes => do
    redis (.delToken hash)
    delTokens hashes

/-- `revokeFamily`. -/
def revokeFamily (familyId : String) : Code Unit := do
  if familyId = "" then return ()
  let hashes ← redis (.smembersFamily familyId)
  delTokens hashes
  redis (.delFamily familyId)

/-- The family of a new token: the caller's, or a new one. -/
def chooseFamily (options : TokenOptions) : Code String :=
  match options.familyId with
  | some familyId => pure familyId
  | none => redis .randomUUID

/-- `createTokenPair`. -/
def createTokenPair (user : User) (options : TokenOptions) : Code TokenPair := do
  if user.id = "" then
    throw (.app "INTERNAL_ERROR" "createTokenPair: user with id is required" 500)
  let jwtSecret := options.jwtSecret.getD ((config.jwtSecret.filter (· ≠ "")).getD DEV_JWT_SECRET)
  let accessTokenTtlSeconds :=
    options.accessTokenTtlSeconds.getD DEFAULT_ACCESS_TOKEN_TTL_SECONDS
  let refreshTokenTtlSeconds :=
    options.refreshTokenTtlSeconds.getD DEFAULT_REFRESH_TOKEN_TTL_SECONDS
  let familyId ← chooseFamily options
  let scopes := options.scopes.getD (user.scopes.getD ["default"])
  let accessToken ← signJwt P [
    ("sub", some (.str user.id)),
    ("userId", some (.str user.id)),
    ("email", user.email.map .str),
    ("username", user.username.map .str),
    ("scopes", some (.arr (scopes.map .str)))] jwtSecret
    { expiresInSeconds := accessTokenTtlSeconds }
  let rawRefreshToken ← generateRawRefreshToken
  let now : ℕ ← redis .now
  let tokenId ← redis .randomUUID
  let record : RefreshRecord := {
    tokenId
    tokenHash := hashToken P rawRefreshToken
    userId := user.id
    user := { user with scopes := some scopes }
    familyId
    createdAt := now
    expiresAt := ttlEnd now refreshTokenTtlSeconds
    used := false }
  storeRefreshToken record refreshTokenTtlSeconds
  return {
    tokenType := "Bearer"
    accessToken
    refreshToken := rawRefreshToken
    expiresIn := accessTokenTtlSeconds
    refreshExpiresIn := refreshTokenTtlSeconds
    user := { user with scopes := none } }

def reuseMessage : String :=
  "Invalid refresh token: token reuse detected. All sessions in this chain have been terminated."

/-- The options of the new pair of a rotation: the family is kept unless the caller names one. -/
def rotationOptions (record : RefreshRecord) (options : TokenOptions) : TokenOptions :=
  { options with familyId := some (options.familyId.getD record.familyId) }

/-- The rotation of a token whose record is neither used nor expired. -/
def rotate (record : RefreshRecord) (options : TokenOptions) : Code TokenPair := do
  storeRefreshToken { record with used := true } GRACE_SECONDS
  createTokenPair P config record.user (rotationOptions record options)

/-- `refreshTokens`. -/
def refreshTokens (rawRefreshToken : String) (options : TokenOptions) : Code TokenPair := do
  if rawRefreshToken = "" then throw (.app "UNAUTHORIZED" "Refresh token is required" 401)
  let tokenHash := hashToken P (JsText.trim rawRefreshToken)
  match ← getRefreshTokenRecord tokenHash with
  | none => throw (.app "UNAUTHORIZED" "Invalid or expired refresh token" 401)
  | some record =>
    if record.used then
      revokeFamily record.familyId
      throw (.app "UNAUTHORIZED" reuseMessage 401)
    let now : ℕ ← redis .now
    if record.expiresAt < now then
      deleteRefreshToken tokenHash
      throw (.app "UNAUTHORIZED" "Refresh token has expired" 401)
    rotate P config record options

end SmartDrop.Auth
