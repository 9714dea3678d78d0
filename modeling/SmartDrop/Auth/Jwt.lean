/-
# JSON web tokens

`verifyJwt` of `middleware/jwtAuth.js` and `signJwt` of `auth/tokenRefresh.js`.  The HMAC is any
function.

A text is accepted exactly when it has three parts that pass every check (`verifyJwt_eq_ok_iff`), so
that an accepted text is signed and in force, and a signed one is accepted until it expires
(`jwt_laws`).
-/
import SmartDrop.Auth.Tokens
import SmartDrop.Lib.IntegerText
import SmartDrop.Lib.JsonRoundTrip
import SmartDrop.Lib.Utf8

namespace SmartDrop.Auth.Jwt

open JsonText JsNumber

/-! ## 1. The two functions -/

/-- The number of UTF-16 code units of a text. -/
def length16 (text : List Char) : ℕ := (text.map fun c => if c.toNat < 0x10000 then 1 else 2).sum

/-- `base64UrlDecode`. -/
def base64UrlDecode (str : String) : List UInt8 :=
  let padded := str.toList ++ List.replicate ((4 - length16 str.toList % 4) % 4) '='
  Bytes.ofBase64 (padded.map fun c => if c = '-' then '+' else if c = '_' then '/' else c)

def ALLOWED_ALGORITHMS : List String := ["HS256", "HS384", "HS512"]

def ALGORITHM_HASHES : List (String × String) :=
  [("HS256", "sha256"), ("HS384", "sha384"), ("HS512", "sha512")]

/-- What `Date.now()` gives: a time value of the language. -/
structure TimeValue where
  ms : ℕ
  le_max : ms ≤ 8640000000000000

/-- `Math.floor(Date.now() / 1000)`. -/
def TimeValue.seconds (t : TimeValue) : ℕ := t.ms / 1000

/-- A number of seconds that the language has. -/
structure Seconds where
  val : ℤ
  isNumber : ofRat val = .finite val

section Sign

/-- The options of `signJwt`. -/
structure SignOptions where
  expiresInSeconds : Seconds := ⟨900, by decide +kernel⟩
  issuer : String := "smartdrop-api"
  audience : String := "smartdrop-client"
  algorithm : String := "HS256"

variable (options : SignOptions) (clock : TimeValue)

/-- `now + expiresInSeconds`. -/
def expiry : Number := (Number.finite clock.seconds).add (.finite options.expiresInSeconds.val)

/-- The claims that `signJwt` adds. -/
def registered : List (String × Json) :=
  [("iat", .ofNat clock.seconds),
    ("nbf", .ofNat clock.seconds),
    ("exp", toJson (expiry options clock)),
    ("iss", .str options.issuer),
    ("aud", .str options.audience)]

variable (hmac : (algorithm key message : String) → List UInt8)

/-- `signJwt`. -/
def signJwt (payload : List (String × Json)) (secret : String) : Except Err String :=
  if secret = "" then throw (.error "signJwt: secret is required")
  else
    let header := Json.obj [("alg", .str options.algorithm), ("typ", .str "JWT")]
    let fullPayload := (Json.obj payload).spread (registered options clock)
    let headerB64 := base64UrlEncode (Utf8.encode (stringify header))
    let payloadB64 := base64UrlEncode (Utf8.encode (stringify fullPayload))
    let data := headerB64 ++ "." ++ payloadB64
    let sig := hmac (hashAlg options.algorithm) secret data
    pure (data ++ "." ++ base64UrlEncode sig)

end Sign

section Verify

/-- The options of `verifyJwt`. -/
structure VerifyOptions where
  issuer : Option String
  audience : Option String

/-- `new AppError('UNAUTHORIZED', message, 401)`. -/
def unauthorized (message : String) : Err := .app "UNAUTHORIZED" message 401

/-- One of the two JSON parts of a token. -/
def readPart (message part : String) : Except Err Json :=
  match parse (Utf8.decode (base64UrlDecode part)) with
  | some value => pure value
  | none => throw (unauthorized message)

/-- `value.key`, where the value can be `null`. -/
def property (value : Json) (key : String) : Except Err (Option Json) :=
  match value with
  | .null => throw (.error ("Cannot read properties of null (reading '" ++ key ++ "')"))
  | value => pure (value.get? key)

/-- The algorithm whitelist. -/
def checkAlgorithm (header : Json) : Except Err String := do
  match ← property header "alg" with
  | some (.str alg) =>
    if alg ∈ ALLOWED_ALGORITHMS then pure alg else throw (unauthorized "Invalid JWT algorithm")
  | _ => throw (unauthorized "Invalid JWT algorithm")

variable (hmac : (algorithm key message : String) → List UInt8)

/-- `hmacSign`. -/
def hmacSign (data secret algorithm : String) : Except Err (List UInt8) :=
  match ALGORITHM_HASHES.lookup algorithm with
  | some hash => pure (hmac hash secret data)
  | none => throw (.error "The \"hmac\" argument must be of type string. Received undefined")

/-- The signature verification. -/
def checkSignature (headerB64 payloadB64 signatureB64 secret alg : String) : Except Err Unit := do
  let expectedSig ← hmacSign hmac (headerB64 ++ "." ++ payloadB64) secret alg
  if expectedSig = base64UrlDecode signatureB64 then pure ()
  else throw (unauthorized "Invalid JWT signature")

/-- `CLOCK_SKEW_LEEWAY_SECONDS`, from the environment variable. -/
def clockSkewLeeway (AUTH_CLOCK_SKEW_SECONDS : Option String) : Number :=
  let n := parseInt (AUTH_CLOCK_SKEW_SECONDS.getD "undefined").toList
  if n.truthy then n else .finite 60

/-- The expiration check. -/
def checkExpiry (leeway : Number) (now : ℕ) (payload : Json) : Except Err Unit := do
  match ← property payload "exp" with
  | some (.num exp) =>
    if ((read exp.chars).add leeway).less (.finite now) then throw (unauthorized "Invalid token")
    else pure ()
  | _ => throw (unauthorized "Invalid token")

/-- The not-before check. -/
def checkNotBefore (now : ℕ) (payload : Json) : Except Err Unit :=
  match payload.get? "nbf" with
  | some (.num nbf) =>
    if (Number.finite now).less (read nbf.chars) then throw (unauthorized "JWT not yet valid")
    else pure ()
  | _ => pure ()

variable (options : VerifyOptions)

/-- The issuer validation. -/
def checkIssuer (payload : Json) : Except Err Unit :=
  match options.issuer.filter (· ≠ "") with
  | some issuer =>
    if Json.isStr (payload.get? "iss") issuer then pure ()
    else throw (unauthorized "Invalid JWT issuer")
  | none => pure ()

/-- `payload.aud` as an array. -/
def audiences (payload : Json) : List (Option Json) :=
  match payload.get? "aud" with
  | some (.arr xs) => xs.map some
  | aud => [aud]

/-- The audience validation. -/
def checkAudience (payload : Json) : Except Err Unit :=
  match options.audience.filter (· ≠ "") with
  | some audience =>
    if (audiences payload).any (Json.isStr · audience) then pure ()
    else throw (unauthorized "Invalid JWT audience")
  | none => pure ()

/-- `verifyJwt`. -/
def verifyJwt (clockSkew : Option String) (clock : TimeValue) (token secret : String) :
    Except Err Json :=
  match JsText.split ['.'] token.toList with
  | [headerPart, payloadPart, signaturePart] => do
    let headerB64 := String.ofList headerPart
    let payloadB64 := String.ofList payloadPart
    let header ← readPart "Invalid JWT header" headerB64
    let alg ← checkAlgorithm header
    checkSignature hmac headerB64 payloadB64 (String.ofList signaturePart) secret alg
    let payload ← readPart "Invalid JWT payload" payloadB64
    checkExpiry (clockSkewLeeway clockSkew) clock.seconds payload
    checkNotBefore clock.seconds payload
    checkIssuer options payload
    checkAudience options payload
    pure payload
  | _ => throw (unauthorized "Invalid JWT format")

end Verify

/-! ## 2. base64url -/

/-- A character of base64url. -/
def urlDigit (n : ℕ) : Char :=
  let c := Bytes.base64Digit n
  if c = '+' then '-' else if c = '/' then '_' else c

theorem urlDigit_exchanged {n : ℕ} (h : n < 64) : urlDigit n ≠ '=' ∧ urlDigit n ≠ '.' ∧
    (if urlDigit n = '-' then '+' else if urlDigit n = '_' then '/' else urlDigit n) =
      Bytes.base64Digit n := by
  have halphabet : ∀ c ∈ Bytes.alphabet,
      let d := if c = '+' then '-' else if c = '/' then '_' else c
      d ≠ '=' ∧ d ≠ '.' ∧ (if d = '-' then '+' else if d = '_' then '/' else d) = c := by
    rw [Bytes.alphabet_eq, ← List.all_iff_forall_prop]
    decide +kernel
  exact halphabet _ (Bytes.base64Digit_mem h)

theorem urlDigit_ne_pad (n : ℕ) (h : n < 64) : urlDigit n ≠ '=' := (urlDigit_exchanged h).1

theorem urlDigit_ne_dot (n : ℕ) (h : n < 64) : urlDigit n ≠ '.' := (urlDigit_exchanged h).2.1

/-- The two characters are exchanged back. -/
theorem base64Digit_of_urlDigit (n : ℕ) (h : n < 64) :
    (if urlDigit n = '-' then '+' else if urlDigit n = '_' then '/' else urlDigit n) =
      Bytes.base64Digit n := (urlDigit_exchanged h).2.2

/-- The text of some bytes, without padding. -/
theorem base64UrlEncode_eq (bytes : List UInt8) :
    base64UrlEncode bytes = String.ofList ((Bytes.sextets bytes).map urlDigit) := by
  obtain ⟨k, hk⟩ := Bytes.base64_eq bytes
  have hstrip : ∀ cs : List Char, (∀ c ∈ cs, c ≠ '=') →
      ((cs ++ List.replicate k '=').reverse.dropWhile (· = '=')).reverse = cs := by
    intro cs hcs
    rw [List.reverse_append, List.reverse_replicate,
      List.dropWhile_append_of_pos fun c hc => decide_eq_true (List.eq_of_mem_replicate hc)]
    cases hrev : cs.reverse with
    | nil => simpa using hrev.symm
    | cons c r =>
      have hc : c ≠ '=' := hcs c (by rw [← List.mem_reverse, hrev]; exact List.mem_cons_self)
      rw [List.dropWhile_cons_of_neg (by simpa using hc), ← hrev, List.reverse_reverse]
  have hmap : (Bytes.base64 bytes).map
      (fun c => if c = '+' then '-' else if c = '/' then '_' else c) =
        (Bytes.sextets bytes).map urlDigit ++ List.replicate k '=' := by
    rw [hk, List.map_append, List.map_map, List.map_replicate]
    rfl
  rw [base64UrlEncode, hmap, hstrip]
  intro c hc
  obtain ⟨n, hn, rfl⟩ := List.mem_map.mp hc
  exact urlDigit_ne_pad n (Bytes.sextets_lt bytes n hn)

/-- **Round trip** of bytes. -/
@[simp] theorem base64UrlDecode_encode (bytes : List UInt8) :
    base64UrlDecode (base64UrlEncode bytes) = bytes := by
  have hlt := Bytes.sextets_lt bytes
  have hback : ((Bytes.sextets bytes).map urlDigit).map
      (fun c => if c = '-' then '+' else if c = '_' then '/' else c) =
        (Bytes.sextets bytes).map Bytes.base64Digit := by
    rw [List.map_map]
    exact List.map_congr_left fun n hn => base64Digit_of_urlDigit n (hlt n hn)
  rw [base64UrlEncode_eq, base64UrlDecode, String.toList_ofList, List.map_append, hback,
    List.map_replicate]
  exact (Bytes.ofBase64_digits hlt _).trans (Bytes.ofSextets_sextets bytes)

theorem dot_not_mem_encode (bytes : List UInt8) : '.' ∉ (base64UrlEncode bytes).toList := by
  rw [base64UrlEncode_eq, String.toList_ofList]
  intro h
  obtain ⟨n, hn, heq⟩ := List.mem_map.mp h
  exact urlDigit_ne_dot n (Bytes.sextets_lt bytes n hn) heq

/-! ## 3. Accepted texts -/

/-- The parts of a token. -/
structure Parts where
  header : String
  payload : String
  signature : String

/-- The text that is signed. -/
def Parts.data (p : Parts) : String := p.header ++ "." ++ p.payload

/-- The text of a token. -/
def Parts.token (p : Parts) : String := p.data ++ "." ++ p.signature

/-- No part has a dot. -/
structure Parts.Plain (p : Parts) : Prop where
  header : '.' ∉ p.header.toList
  payload : '.' ∉ p.payload.toList
  signature : '.' ∉ p.signature.toList

theorem Parts.toList_token (p : Parts) :
    p.token.toList = p.header.toList ++ ('.' :: (p.payload.toList ++ '.' :: p.signature.toList)) := by
  simp [Parts.token, Parts.data]

/-- A text is split into the parts of a token in one way. -/
theorem split_token {p : Parts} (hp : p.Plain) :
    JsText.split ['.'] p.token.toList =
      [p.header.toList, p.payload.toList, p.signature.toList] := by
  have hrest := JsText.split_append [] hp.payload p.signature.toList
  have hall := JsText.split_append [] hp.header (p.payload.toList ++ '.' :: p.signature.toList)
  rw [JsText.split_part hp.signature] at hrest
  simp only [List.singleton_append] at hrest hall
  rw [p.toList_token, hall, hrest]

theorem token_of_split {token : String} {header payload signature : List Char}
    (h : JsText.split ['.'] token.toList = [header, payload, signature]) :
    let p : Parts := ⟨.ofList header, .ofList payload, .ofList signature⟩
    p.Plain ∧ token = p.token := by
  intro p
  have hmem : ∀ part ∈ [header, payload, signature], '.' ∉ part :=
    h ▸ JsText.not_mem_of_mem_splitFrom List.not_mem_nil
  have hjoin := JsText.intercalate_splitFrom (s := '.') token.toList []
  rw [← JsText.split, h] at hjoin
  refine ⟨⟨?_, ?_, ?_⟩, ?_⟩
  · simpa [p] using hmem header (by simp)
  · simpa [p] using hmem payload (by simp)
  · simpa [p] using hmem signature (by simp)
  · rw [← String.toList_inj, p.toList_token]
    simpa [p, List.intercalate_cons_cons] using hjoin.symm

section Checks

variable (clockSkew : Option String) (clock : TimeValue) (options : VerifyOptions) (payload : Json)

/-- The token has an expiry, and that has not passed by more than the leeway. -/
def NotExpired : Prop :=
  ∃ exp, payload.get? "exp" = some (.num exp) ∧
    ((read exp.chars).add (clockSkewLeeway clockSkew)).less (.finite clock.seconds) = false

/-- A numeric `nbf` has come. -/
def NotEarly : Prop :=
  ∀ nbf, payload.get? "nbf" = some (.num nbf) →
    (Number.finite clock.seconds).less (read nbf.chars) = false

/-- The issuer that is asked for, if one is. -/
def IssuerHolds : Prop :=
  ∀ issuer ∈ options.issuer, issuer ≠ "" → payload.get? "iss" = some (.str issuer)

/-- The audience that is asked for, if one is, alone or among others. -/
def AudienceHolds : Prop :=
  ∀ audience ∈ options.audience, audience ≠ "" →
    payload.get? "aud" = some (.str audience) ∨
      ∃ xs, payload.get? "aud" = some (.arr xs) ∧ .str audience ∈ xs

variable (hmac : (algorithm key message : String) → List UInt8) (secret : String)

/-- The parts of a token pass every check, and its payload is `payload`. -/
structure Accepted (p : Parts) (header : Json) (alg : String) : Prop where
  plain : p.Plain
  header_eq : parse (Utf8.decode (base64UrlDecode p.header)) = some header
  alg_eq : header.get? "alg" = some (.str alg)
  allowed : alg ∈ ALLOWED_ALGORITHMS
  mac : hmac (hashAlg alg) secret p.data = base64UrlDecode p.signature
  payload_eq : parse (Utf8.decode (base64UrlDecode p.payload)) = some payload
  notExpired : NotExpired clockSkew clock payload
  notEarly : NotEarly clock payload
  issuer : IssuerHolds options payload
  audience : AudienceHolds options payload

end Checks

variable {hmac : (algorithm key message : String) → List UInt8} {clockSkew : Option String}
  {clock : TimeValue} {options : VerifyOptions} {secret : String} {payload header : Json}
  {alg : String}

theorem bind_eq_ok {α β : Type} {x : Except Err α} {f : α → Except Err β} {b : β} :
    (x >>= f) = .ok b ↔ ∃ a, x = .ok a ∧ f a = .ok b := by
  cases x with
  | ok a => exact ⟨fun h => ⟨a, rfl, h⟩, fun ⟨_, ha, h⟩ => Except.ok.inj ha ▸ h⟩
  | error e => exact ⟨fun h => (nomatch h), fun ⟨_, ha, _⟩ => (nomatch ha)⟩

theorem readPart_eq_ok {message part : String} {value : Json} :
    readPart message part = .ok value ↔ parse (Utf8.decode (base64UrlDecode part)) = some value := by
  unfold readPart
  cases parse (Utf8.decode (base64UrlDecode part)) with
  | some v => exact ⟨fun h => congrArg some (Except.ok.inj h), fun h => congrArg _ (Option.some.inj h)⟩
  | none => exact ⟨fun h => (nomatch h), fun h => (nomatch h)⟩

/-- Whatever is not `null` has properties. -/
theorem property_eq_ok {value : Json} {key : String} {v : Json} :
    property value key = .ok (some v) ↔ value.get? key = some v := by
  cases value with
  | null => exact ⟨fun h => (nomatch h), fun h => (nomatch h)⟩
  | _ => exact ⟨fun h => Except.ok.inj h, fun h => congrArg _ h⟩

theorem checkAlgorithm_eq_ok :
    checkAlgorithm header = .ok alg ↔
      header.get? "alg" = some (.str alg) ∧ alg ∈ ALLOWED_ALGORITHMS := by
  rw [checkAlgorithm, bind_eq_ok]
  constructor
  · rintro ⟨a, ha, h⟩
    split at h
    · rename_i alg'
      split at h
      · rename_i hallowed
        obtain rfl := Except.ok.inj h
        exact ⟨property_eq_ok.mp ha, hallowed⟩
      · cases h
    · cases h
  · rintro ⟨hget, hallowed⟩
    exact ⟨_, property_eq_ok.mpr hget, if_pos hallowed⟩

/-- The two tables of digests agree. -/
theorem lookup_hash (h : alg ∈ ALLOWED_ALGORITHMS) :
    ALGORITHM_HASHES.lookup alg = some (hashAlg alg) := by
  simp only [ALLOWED_ALGORITHMS, List.mem_cons, List.not_mem_nil, or_false] at h
  rcases h with rfl | rfl | rfl <;> decide

theorem checkSignature_eq_ok {p : Parts} (h : alg ∈ ALLOWED_ALGORITHMS) :
    checkSignature hmac p.header p.payload p.signature secret alg = .ok () ↔
      hmac (hashAlg alg) secret p.data = base64UrlDecode p.signature := by
  have hsign : hmacSign hmac p.data secret alg = .ok (hmac (hashAlg alg) secret p.data) := by
    rw [hmacSign, lookup_hash h]
    rfl
  rw [checkSignature, bind_eq_ok]
  constructor
  · rintro ⟨mac, hmac, h⟩
    split at h
    · rename_i heq
      exact (Except.ok.inj (hsign.symm.trans hmac)).trans heq
    · cases h
  · intro heq
    exact ⟨_, hsign, if_pos heq⟩

theorem checkExpiry_eq_ok :
    checkExpiry (clockSkewLeeway clockSkew) clock.seconds payload = .ok () ↔
      NotExpired clockSkew clock payload := by
  rw [checkExpiry, bind_eq_ok]
  constructor
  · rintro ⟨a, ha, h⟩
    split at h
    · rename_i exp
      split at h
      · cases h
      · rename_i hless
        exact ⟨exp, property_eq_ok.mp ha, Bool.eq_false_iff.mpr hless⟩
    · cases h
  · rintro ⟨exp, hget, hless⟩
    exact ⟨_, property_eq_ok.mpr hget, if_neg (Bool.eq_false_iff.mp hless)⟩

theorem checkNotBefore_eq_ok :
    checkNotBefore clock.seconds payload = .ok () ↔ NotEarly clock payload := by
  unfold checkNotBefore NotEarly
  split
  · rename_i nbf hget
    rw [hget]
    split
    · rename_i hless
      exact ⟨fun h => (nomatch h), fun h => absurd hless (by rw [h nbf rfl]; decide)⟩
    · rename_i hless
      refine ⟨fun _ nbf' heq => ?_, fun _ => rfl⟩
      obtain rfl : nbf = nbf' := by simpa using heq
      exact Bool.eq_false_iff.mpr hless
  · rename_i hnone
    exact ⟨fun _ nbf hget => absurd hget (hnone nbf), fun _ => rfl⟩

theorem isStr_iff {v : Option Json} {text : String} :
    Json.isStr v text = true ↔ v = some (.str text) := by
  unfold Json.isStr
  split
  · simp
  · rename_i h
    exact ⟨fun h' => absurd h' (by simp), fun h' => absurd h' (h text)⟩

theorem checkIssuer_eq_ok :
    checkIssuer options payload = .ok () ↔ IssuerHolds options payload := by
  unfold checkIssuer IssuerHolds
  split
  · rename_i issuer hissuer
    obtain ⟨hmem, hne⟩ := Option.filter_eq_some_iff.mp hissuer
    split
    · rename_i hstr
      refine ⟨fun _ issuer' hmem' _ => ?_, fun _ => rfl⟩
      rw [hmem, Option.mem_some] at hmem'
      exact hmem' ▸ isStr_iff.mp hstr
    · rename_i hstr
      refine ⟨fun h => (nomatch h), fun h => absurd (isStr_iff.mpr (h issuer hmem ?_)) hstr⟩
      simpa using hne
  · rename_i hnone
    refine ⟨fun _ issuer hmem hne => ?_, fun _ => rfl⟩
    rw [Option.mem_def.mp hmem, Option.filter_some, if_pos (by simpa using hne)] at hnone
    cases hnone

theorem mem_audiences {audience : String} :
    (audiences payload).any (Json.isStr · audience) = true ↔
      payload.get? "aud" = some (.str audience) ∨
        ∃ xs, payload.get? "aud" = some (.arr xs) ∧ .str audience ∈ xs := by
  unfold audiences
  split
  · rename_i xs hget
    rw [hget]
    simp [isStr_iff]
  · rename_i harr
    rw [List.any_cons, List.any_nil, Bool.or_false, isStr_iff]
    refine ⟨.inl, ?_⟩
    rintro (h | ⟨xs, hget, -⟩)
    · exact h
    · exact absurd hget (harr xs)

theorem checkAudience_eq_ok :
    checkAudience options payload = .ok () ↔ AudienceHolds options payload := by
  unfold checkAudience AudienceHolds
  split
  · rename_i audience haudience
    obtain ⟨hmem, hne⟩ := Option.filter_eq_some_iff.mp haudience
    split
    · rename_i hany
      refine ⟨fun _ audience' hmem' _ => ?_, fun _ => rfl⟩
      rw [hmem, Option.mem_some] at hmem'
      exact hmem' ▸ mem_audiences.mp hany
    · rename_i hany
      refine ⟨fun h => (nomatch h), fun h => absurd (mem_audiences.mpr (h audience hmem ?_)) hany⟩
      simpa using hne
  · rename_i hnone
    refine ⟨fun _ audience hmem hne => ?_, fun _ => rfl⟩
    rw [Option.mem_def.mp hmem, Option.filter_some, if_pos (by simpa using hne)] at hnone
    cases hnone

/-- **Which texts are accepted**: those whose parts pass every check. -/
theorem verifyJwt_eq_ok_iff {token : String} :
    verifyJwt hmac options clockSkew clock token secret = .ok payload ↔
      ∃ p header alg, token = Parts.token p ∧
        Accepted clockSkew clock options payload hmac secret p header alg := by
  constructor
  · intro h
    unfold verifyJwt at h
    split at h
    · rename_i headerPart payloadPart signaturePart hsplit
      obtain ⟨hplain, htoken⟩ := token_of_split hsplit
      obtain ⟨header, hheader, h⟩ := bind_eq_ok.mp h
      obtain ⟨alg, halg, h⟩ := bind_eq_ok.mp h
      obtain ⟨⟨⟩, hsignature, h⟩ := bind_eq_ok.mp h
      obtain ⟨payload', hpayload, h⟩ := bind_eq_ok.mp h
      obtain ⟨⟨⟩, hexpiry, h⟩ := bind_eq_ok.mp h
      obtain ⟨⟨⟩, hnotBefore, h⟩ := bind_eq_ok.mp h
      obtain ⟨⟨⟩, hissuer, h⟩ := bind_eq_ok.mp h
      obtain ⟨⟨⟩, haudience, h⟩ := bind_eq_ok.mp h
      obtain rfl := Except.ok.inj h
      obtain ⟨hget, hallowed⟩ := checkAlgorithm_eq_ok.mp halg
      refine ⟨_, header, alg, htoken, hplain, readPart_eq_ok.mp hheader, hget, hallowed, ?_,
        readPart_eq_ok.mp hpayload, checkExpiry_eq_ok.mp hexpiry,
        checkNotBefore_eq_ok.mp hnotBefore, checkIssuer_eq_ok.mp hissuer,
        checkAudience_eq_ok.mp haudience⟩
      exact (checkSignature_eq_ok
        (p := ⟨.ofList headerPart, .ofList payloadPart, .ofList signaturePart⟩) hallowed).mp
          hsignature
    · cases h
  · rintro ⟨p, header, alg, rfl, hp⟩
    unfold verifyJwt
    rw [split_token hp.plain]
    simp only [String.ofList_toList]
    refine bind_eq_ok.mpr ⟨header, readPart_eq_ok.mpr hp.header_eq, ?_⟩
    refine bind_eq_ok.mpr ⟨alg, checkAlgorithm_eq_ok.mpr ⟨hp.alg_eq, hp.allowed⟩, ?_⟩
    refine bind_eq_ok.mpr ⟨(), (checkSignature_eq_ok hp.allowed).mpr hp.mac, ?_⟩
    refine bind_eq_ok.mpr ⟨payload, readPart_eq_ok.mpr hp.payload_eq, ?_⟩
    refine bind_eq_ok.mpr ⟨(), checkExpiry_eq_ok.mpr hp.notExpired, ?_⟩
    refine bind_eq_ok.mpr ⟨(), checkNotBefore_eq_ok.mpr hp.notEarly, ?_⟩
    refine bind_eq_ok.mpr ⟨(), checkIssuer_eq_ok.mpr hp.issuer, ?_⟩
    exact bind_eq_ok.mpr ⟨(), checkAudience_eq_ok.mpr hp.audience, rfl⟩

/-! ## 4. Signed texts -/

/-- The issuer and the audience that are asked for are those of the token. -/
def Matches (sign : SignOptions) (check : VerifyOptions) : Prop :=
  (∀ issuer ∈ check.issuer, issuer ≠ "" → issuer = sign.issuer) ∧
    ∀ audience ∈ check.audience, audience ≠ "" → audience = sign.audience

/-- A time from the issue of a token until its expiry and the leeway. -/
def InForce (clockSkew : Option String) (sign : SignOptions) (issued clock : TimeValue) : Prop :=
  issued.seconds ≤ clock.seconds ∧
    ((expiry sign issued).add (clockSkewLeeway clockSkew)).less (.finite clock.seconds) = false

/-- The registered claims, and beside them the claims that were signed. -/
def Carries (claims : List (String × Json)) (sign : SignOptions) (issued : TimeValue)
    (payload : Json) : Prop :=
  (∀ field ∈ registered sign issued, payload.get? field.1 = some field.2) ∧
    ∀ key, key ∉ (registered sign issued).map Prod.fst →
      payload.get? key = (Json.obj claims).get? key

variable {claims : List (String × Json)} {sign : SignOptions} {issued : TimeValue}

theorem TimeValue.seconds_lt (t : TimeValue) : t.seconds < 2 ^ 53 := by
  have h := t.le_max
  rw [TimeValue.seconds]
  omega

/-- The expiry is an integer of the language. -/
theorem expiry_eq (sign : SignOptions) (issued : TimeValue) :
    ∃ q, expiry sign issued = .finite q ∧ IsInteger q :=
  ofRat_add_finite sign.expiresInSeconds.isNumber issued.seconds_lt

theorem registered_keys : ((registered sign issued).map Prod.fst).Nodup := by
  simp [registered]

theorem spread_carries (claims : List (String × Json)) (sign : SignOptions) (issued : TimeValue) :
    Carries claims sign issued ((Json.obj claims).spread (registered sign issued)) := by
  constructor
  · rintro ⟨key, value⟩ hfield
    have hget : (Json.obj (registered sign issued)).get? key = some value := by
      have hkeys : (((registered sign issued).map fun f => (f.1, some f.2)).map Prod.fst).Nodup := by
        simpa [Function.comp_def] using registered_keys
      have := Json.get?_ofFields (k := key) (v := value) hkeys (List.mem_map_of_mem hfield)
      simpa [Json.ofFields, List.filterMap_map, Function.comp_def] using this
    rw [Json.get?_spread_eq, hget, Option.some_or]
  · intro key hkey
    exact Json.get?_spread fun f hf heq => hkey (heq ▸ List.mem_map_of_mem hf)

/-- What is registered is among the claims. -/
theorem Carries.get? (h : Carries claims sign issued payload) (key : String) (value : Json)
    (hfield : (key, value) ∈ registered sign issued) : payload.get? key = some value :=
  h.1 (key, value) hfield

/-- The claims of a signed token pass the checks while it is in force. -/
theorem Carries.checks (h : Carries claims sign issued payload)
    (hforce : InForce clockSkew sign issued clock) (hmatch : Matches sign options) :
    NotExpired clockSkew clock payload ∧ NotEarly clock payload ∧ IssuerHolds options payload ∧
      AudienceHolds options payload := by
  refine ⟨?_, ?_, ?_, ?_⟩
  · obtain ⟨q, hq, hint⟩ := expiry_eq sign issued
    obtain ⟨literal, hjson, hread⟩ := toJson_int hint
    refine ⟨literal, ?_, ?_⟩
    · rw [h.get? "exp" (toJson (expiry sign issued)) (by simp [registered]), hq,
        hjson]
    · rw [hread, ← hq]
      exact hforce.2
  · intro nbf hnbf
    rw [h.get? "nbf" (.ofNat issued.seconds) (by simp [registered])] at hnbf
    obtain rfl := Json.num.inj (Option.some.inj hnbf)
    have hread : read (Nat.toDigits 10 issued.seconds) = .finite issued.seconds :=
      read_toDigits issued.seconds_lt
    have hle : (issued.seconds : ℚ) ≤ clock.seconds := by exact_mod_cast hforce.1
    rw [hread, Number.less]
    exact decide_eq_false (not_lt.mpr hle)
  · intro issuer hmem hne
    rw [h.get? "iss" (.str sign.issuer) (by simp [registered]),
      hmatch.1 issuer hmem hne]
  · intro audience hmem hne
    refine .inl ?_
    rw [h.get? "aud" (.str sign.audience) (by simp [registered]),
      hmatch.2 audience hmem hne]

/-- The parts of a signed token. -/
def signedParts (hmac : (algorithm key message : String) → List UInt8)
    (claims : List (String × Json)) (sign : SignOptions) (issued : TimeValue) (secret : String) :
    Parts :=
  let headerB64 := base64UrlEncode
    (Utf8.encode (stringify (.obj [("alg", .str sign.algorithm), ("typ", .str "JWT")])))
  let payloadB64 := base64UrlEncode
    (Utf8.encode (stringify ((Json.obj claims).spread (registered sign issued))))
  ⟨headerB64, payloadB64,
    base64UrlEncode (hmac (hashAlg sign.algorithm) secret (headerB64 ++ "." ++ payloadB64))⟩

theorem signJwt_eq (hsecret : secret ≠ "") :
    signJwt sign issued hmac claims secret =
      .ok (signedParts hmac claims sign issued secret).token := by
  rw [signJwt, if_neg hsecret]
  rfl

/-- **A signed token is accepted** while it is in force. -/
theorem signed_accepted (halg : sign.algorithm ∈ ALLOWED_ALGORITHMS)
    (hforce : InForce clockSkew sign issued clock) (hmatch : Matches sign options) :
    Accepted clockSkew clock options ((Json.obj claims).spread (registered sign issued)) hmac secret
      (signedParts hmac claims sign issued secret)
      (.obj [("alg", .str sign.algorithm), ("typ", .str "JWT")]) sign.algorithm := by
  obtain ⟨hexpired, hearly, hissuer, haudience⟩ :=
    (spread_carries claims sign issued).checks hforce hmatch
  refine ⟨⟨dot_not_mem_encode _, dot_not_mem_encode _, dot_not_mem_encode _⟩, ?_, ?_, halg, ?_, ?_,
    hexpired, hearly, hissuer, haudience⟩
  · simp [signedParts]
  · simp [Json.get?]
  · simp [signedParts, Parts.data]
  · simp [signedParts]

/-- **JSON web tokens.**  base64url loses no byte; a signed token is accepted while it is in force,
with the claims that were signed and the registered ones; and whatever text is accepted passes
every check. -/
theorem jwt_laws (hmac : (algorithm key message : String) → List UInt8) :
    (∀ bytes, base64UrlDecode (base64UrlEncode bytes) = bytes) ∧
      (∀ claims sign secret options clockSkew issued clock, secret ≠ "" →
        sign.algorithm ∈ ALLOWED_ALGORITHMS → Matches sign options →
        InForce clockSkew sign issued clock →
        ∃ token payload, signJwt sign issued hmac claims secret = .ok token ∧
          verifyJwt hmac options clockSkew clock token secret = .ok payload ∧
          Carries claims sign issued payload) ∧
      ∀ token secret options clockSkew clock payload,
        verifyJwt hmac options clockSkew clock token secret = .ok payload →
        ∃ p header alg, token = Parts.token p ∧
          Accepted clockSkew clock options payload hmac secret p header alg := by
  refine ⟨base64UrlDecode_encode, ?_, fun _ _ _ _ _ _ h => verifyJwt_eq_ok_iff.mp h⟩
  intro claims sign secret options clockSkew issued clock hsecret halg hmatch hforce
  exact ⟨_, _, signJwt_eq hsecret,
    verifyJwt_eq_ok_iff.mpr ⟨_, _, _, rfl, signed_accepted halg hforce hmatch⟩,
    spread_carries claims sign issued⟩

/-- A token that is checked at the end of its fifteen minutes. -/
theorem jwt_laws_sample :
    let hmac : (algorithm key message : String) → List UInt8 :=
      fun algorithm key message => Utf8.encode (algorithm ++ key ++ message)
    let issued : TimeValue := ⟨1000000, by decide⟩
    let clock : TimeValue := ⟨1900000, by decide⟩
    let options : VerifyOptions := ⟨some "smartdrop-api", some "smartdrop-client"⟩
    base64UrlDecode (base64UrlEncode [251, 255]) = [251, 255] ∧
      ∃ token payload, signJwt {} issued hmac [("sub", .str "u")] "k" = .ok token ∧
        verifyJwt hmac options none clock token "k" = .ok payload ∧
        Carries [("sub", .str "u")] {} issued payload ∧
        ∃ p header alg, token = Parts.token p ∧
          Accepted none clock options payload hmac "k" p header alg := by
  intro hmac issued clock options
  have hforce : InForce none {} issued clock := ⟨by decide, by decide +kernel⟩
  have hmatch : Matches {} options := by
    refine ⟨fun issuer h _ => ?_, fun audience h _ => ?_⟩
    · exact (Option.some.inj h).symm
    · exact (Option.some.inj h).symm
  obtain ⟨token, payload, hsign, hverify, hcarries⟩ :=
    (jwt_laws hmac).2.1 [("sub", .str "u")] {} "k" options none issued clock (by decide) (by decide)
      hmatch hforce
  exact ⟨(jwt_laws hmac).1 _, token, payload, hsign, hverify, hcarries,
    (jwt_laws hmac).2.2 _ _ _ _ _ _ hverify⟩

end SmartDrop.Auth.Jwt
