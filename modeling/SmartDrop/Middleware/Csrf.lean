/-
# CSRF tokens

`middleware/csrf.js`.  A token is `<salt>.<MAC>`, and the MAC is over `<session>:<salt>`.  Both sides of
the colon come from the client: the session from a cookie, and the salt from the token.  So text can be
moved from one side to the other while the MAC stays: the token of session `x:y` with salt `s` becomes
`y:s.<MAC>`, which verifies for session `x`.  A request without a session is bound to `anonymous`, which
a cookie can name as well.

`bound_iff` says for which pairs of sessions the tokens of the one are not good for the other.
-/
import SmartDrop.Lib.Bytes
import SmartDrop.Lib.JsText
import SmartDrop.Lib.Utf8

namespace SmartDrop.Csrf

open Bytes JsText JsonText

/-! ## 1. The session of a request -/

/-- The character that these bytes are the encoding of. -/
def encodedChar (bytes : List UInt8) : Option Char :=
  (Utf8.decodeFrom none bytes).head?.filter fun c => String.utf8EncodeChar c = bytes

/-- `decodeURIComponent`, after the bytes of a character that is not complete.  It is `none` where a
`URIError` is thrown. -/
def decodeURI : List UInt8 → List Char → Option (List Char)
  | [], [] => some []
  | _ :: _, [] => none
  | pending, '%' :: a :: b :: cs =>
    match hexValue a, hexValue b with
    | some x, some y =>
      match encodedChar (pending ++ [UInt8.ofNat (16 * x + y)]) with
      | some c => (decodeURI [] cs).map (c :: ·)
      | none => decodeURI (pending ++ [UInt8.ofNat (16 * x + y)]) cs
    | _, _ => none
  | _, '%' :: _ => none
  | [], c :: cs => (decodeURI [] cs).map (c :: ·)
  | _ :: _, _ :: _ => none

/-- `session_id=([^;]+)` here. -/
def valueHere (cs : List Char) : Option (List Char) :=
  if "session_id=".toList.isPrefixOf cs then
    some ((cs.drop 11).takeWhile (· ≠ ';')) |>.filter (· ≠ [])
  else none

/-- `;\s*session_id=([^;]+)`, here or further on. -/
def valueLater : List Char → Option (List Char)
  | [] => none
  | c :: cs =>
    if c = ';' then (valueHere (cs.dropWhile JsText.isSpace)).or (valueLater cs) else valueLater cs

/-- What the middleware reads of a request.  The names of headers are in lower case. -/
structure Request where
  method : String := "POST"
  path : String := ""
  originalUrl : String := ""
  headers : String → Option String := fun _ => none
  query : Option Json := none
  body : Option Json := none
  csrfExempt : Bool := false
  sessionId : Option String := none

/-- What the middleware gives to `next`, or throws. -/
inductive Err where
  | app (code message : String) (statusCode : ℕ)
  | uri
deriving DecidableEq

/-- A text that is not empty. -/
def given (text : Option String) : Option String := text.filter (· ≠ "")

/-- `extractSessionId`. -/
def extractSessionId (req : Request) : Except Err (Option String) :=
  match given req.sessionId with
  | some id => return some id
  | none =>
    let rawCookie := ((given (req.headers "cookie")).getD "").toList
    match (valueHere rawCookie).or (valueLater rawCookie) with
    | some value =>
      match decodeURI [] value with
      | some id => return some (String.ofList id)
      | none => throw .uri
    | none => return none

/-! ## 2. Tokens -/

/-- `crypto` and the URL parser, which gives the origin of a URL.  A digest is not empty, and no two
messages have one digest. -/
structure Platform where
  hmacSha256 : (key message : String) → List UInt8
  origin : String → Option String
  hmac_ne_nil : ∀ key message, hmacSha256 key message ≠ []
  hmac_inj : ∀ key, Function.Injective (hmacSha256 key)

variable (P : Platform)

def boundId (sessionId : Option String) : String := (given sessionId).getD "anonymous"

/-- The MAC of a session and a salt. -/
def mac (secret : String) (sessionId : Option String) (salt : List Char) : List Char :=
  hex (P.hmacSha256 secret (boundId sessionId ++ ":" ++ String.ofList salt))

/-- `<salt>.<MAC>`. -/
def tokenText (salt mac : List Char) : String := String.ofList (salt ++ '.' :: mac)

/-- `generateCsrfToken`, which has drawn these random bytes. -/
def generateCsrfToken (randomBytes : List UInt8) (sessionId : Option String) (secret : String) :
    String :=
  let salt := hex randomBytes
  tokenText salt (mac P secret sessionId salt)

def verifyCsrfToken (token : String) (sessionId : Option String) (secret : String) : Bool :=
  match split ['.'] token.toList with
  | [salt, receivedHmac] =>
    salt ≠ [] && receivedHmac ≠ [] && receivedHmac == mac P secret sessionId salt
  | _ => false

/-! ## 3. The middleware -/

def METHOD_OVERRIDE_HEADERS : List String :=
  ["x-http-method-override", "x-method-override", "x-http-method"]

def SAFE_METHODS : List String := ["GET", "HEAD", "OPTIONS"]

def DEFAULT_EXEMPT_PATHS : List String :=
  ["/health", "/metrics", "/api-docs", "/csrf-token", "/api/v1/csrf-token", "/v1/csrf-token"]

/-- `req.get`, which looks for a referer under both of its spellings. -/
def Request.get (req : Request) (name : String) : Option String :=
  if name = "referer" then (given (req.headers "referrer")).or (req.headers "referer")
  else req.headers name

def hasMethodOverride (req : Request) : Bool :=
  METHOD_OVERRIDE_HEADERS.any (fun header => (given (req.headers header)).isSome) ||
    Json.truthy (req.query.bind (·.get? "_method")) ||
    match req.body with
    | some (.obj fields) => Json.truthy ((Json.obj fields).get? "_method")
    | _ => false

/-- The origin of a URL is that of an allowed one; an allowed text that is no URL is compared with the
given text. -/
def matchesOrigin (allowedOrigins : List String) (url : String) (shown : String → String) : Bool :=
  match P.origin url with
  | some base => allowedOrigins.any fun allowed =>
    match P.origin allowed with
    | some origin => origin == base
    | none => trim allowed == trim (shown base)
  | none => false

def isAllowedOrigin (req : Request) (allowedOrigins : List String) : Bool :=
  match given (req.get "origin") with
  | some origin => matchesOrigin P allowedOrigins origin fun _ => origin
  | none =>
    match given (req.get "referer") with
    | some referer => matchesOrigin P allowedOrigins referer id
    | none => false

/-- A header that is there and not blank. -/
def isFilled (text : Option String) : Bool := text.any fun text => trim text ≠ ""

def isHeaderAuthenticated (req : Request) : Bool :=
  isFilled (req.get "authorization") || isFilled (req.get "x-api-key") ||
    isFilled ((given (req.get "x-webhook-signature")).or (req.get "x-signature"))

def isExemptPath (path : String) (customExemptions : List String) : Bool :=
  let cleanPath := path.toList.takeWhile (· ≠ '?')
  path ≠ "" && (DEFAULT_EXEMPT_PATHS ++ customExemptions).any fun exempt =>
    if exempt.toList.getLast? = some '*' then exempt.toList.dropLast.isPrefixOf cleanPath
    else cleanPath == exempt.toList || cleanPath == exempt.toList ++ ['/']

/-- The options of `createCsrfProtectionMiddleware`, with their defaults filled in. -/
structure Options where
  allowedOrigins : List String
  exemptPaths : List String
  secret : String

def FORBIDDEN (message : String) : Err := .app "FORBIDDEN" message 403

/-- The steps before the token: whether the request is let through without one. -/
def isExempt (options : Options) (req : Request) : Bool :=
  SAFE_METHODS.contains (String.ofList (req.method.toList.map upper)) || req.csrfExempt ||
    isExemptPath ((given req.path).getD req.originalUrl) options.exemptPaths ||
    isHeaderAuthenticated req

/-- `csrfProtectionMiddleware`. -/
def csrfProtectionMiddleware (options : Options) (req : Request) : Except Err Unit :=
  if hasMethodOverride req then throw (FORBIDDEN "Method override is prohibited")
  else if isExempt options req then return ()
  else if options.allowedOrigins ≠ [] ∧ isAllowedOrigin P req options.allowedOrigins = false then
    throw (FORBIDDEN "Cross-origin request rejected")
  else match given ((given (req.get "x-csrf-token")).or (req.get "x-xsrf-token")) with
  | none => throw (FORBIDDEN "Missing CSRF token")
  | some token => do
    let sessionId ← extractSessionId req
    if verifyCsrfToken P token sessionId options.secret then return ()
    else throw (FORBIDDEN "Invalid CSRF token")

/-! ## 4. When a token verifies -/

section Tokens

variable {P} {secret : String} {a b : Option String} {salt : List Char}

theorem dot_not_mem_hex (bytes : List UInt8) : '.' ∉ hex bytes :=
  not_mem_hex (by decide) bytes

theorem colon_not_mem_hex (bytes : List UInt8) : ':' ∉ hex bytes :=
  not_mem_hex (by decide) bytes

theorem mac_ne_nil : mac P secret a salt ≠ [] := fun h => P.hmac_ne_nil _ _ (hex_eq_nil.mp h)

/-- A text with a separator has two pieces at least. -/
theorem split_two (s : Char) (text rest : List Char) :
    ∃ p q pieces, split [s] (text ++ s :: rest) = p :: q :: pieces := by
  have hne : ∀ cs, ∃ q pieces, split [s] cs = q :: pieces := fun cs =>
    List.exists_cons_of_ne_nil (splitFrom_ne_nil 0 [] cs)
  by_cases hs : s ∈ text
  · obtain ⟨part, more, rfl, hpart⟩ := List.eq_append_cons_of_mem hs
    obtain ⟨q, pieces, hpieces⟩ := hne (more ++ s :: rest)
    refine ⟨part, q, pieces, ?_⟩
    rw [List.append_assoc, List.cons_append, split_cons hpart, hpieces]
  · obtain ⟨q, pieces, hpieces⟩ := hne rest
    exact ⟨text, q, pieces, by rw [split_cons hs, hpieces]⟩

/-- A token whose second part has no dot verifies if that is the MAC of its first part. -/
theorem verify_tokenText {received : List Char} (hdot : '.' ∉ received) (hne : received ≠ []) :
    verifyCsrfToken P (tokenText salt received) b secret = true ↔
      salt ≠ [] ∧ '.' ∉ salt ∧ received = mac P secret b salt := by
  rw [verifyCsrfToken, tokenText, String.toList_ofList]
  by_cases hsalt : '.' ∈ salt
  · obtain ⟨part, more, rfl, hpart⟩ := List.eq_append_cons_of_mem hsalt
    obtain ⟨p, q, pieces, hpieces⟩ := split_two '.' more received
    rw [List.append_assoc, List.cons_append, split_cons hpart, hpieces]
    simp [hsalt]
  · rw [split_cons hsalt, split_part hdot]
    simp [hsalt, hne]

/-- Two sessions and salts have one MAC only if they are the same text with its colon. -/
theorem mac_inj {salt' : List Char} (h : mac P secret a salt = mac P secret b salt') :
    (boundId a).toList ++ ':' :: salt = (boundId b).toList ++ ':' :: salt' := by
  have hbytes := congrArg ofHex h
  rw [mac, mac, ofHex_hex, ofHex_hex] at hbytes
  simpa using congrArg String.toList (P.hmac_inj secret hbytes)

theorem mac_congr {salt' : List Char}
    (h : (boundId a).toList ++ ':' :: salt = (boundId b).toList ++ ':' :: salt') :
    mac P secret a salt = mac P secret b salt' := by
  have hmessage : boundId a ++ ":" ++ String.ofList salt = boundId b ++ ":" ++ String.ofList salt' := by
    apply String.toList_inj.mp
    simpa using h
  rw [mac, mac, hmessage]

end Tokens

/-! ## 5. The binding -/

/-- A token with the MAC that was made for session `a`, whatever its salt part is, verifies for session
`b` only if they are the same. -/
def Bound (secret : String) (a b : Option String) (randomBytes : List UInt8) : Prop :=
  ∀ salt, verifyCsrfToken P (tokenText salt (mac P secret a (hex randomBytes))) b secret = true → a = b

/-- The sessions are bound to different texts, and that of `a` does not go on from that of `b` with a
colon and text without a dot. -/
def Apart (a b : Option String) : Prop :=
  boundId a ≠ boundId b ∧
    ∀ more, '.' ∉ more → (boundId a).toList ≠ (boundId b).toList ++ ':' :: more

variable {P} in
/-- A token for another session, where the texts of the two are not apart. -/
theorem exists_moved {secret : String} {a b : Option String} {randomBytes : List UInt8}
    (hrandom : randomBytes ≠ []) (h : ¬ Apart a b) :
    ∃ salt, verifyCsrfToken P (tokenText salt (mac P secret a (hex randomBytes))) b secret = true := by
  rw [Apart, not_and_or, not_not] at h
  rcases h with hsame | hmore
  · refine ⟨hex randomBytes, (verify_tokenText (dot_not_mem_hex _) mac_ne_nil).mpr
      ⟨fun hnil => hrandom (hex_eq_nil.mp hnil), dot_not_mem_hex _, mac_congr (by rw [hsame])⟩⟩
  · push Not at hmore
    obtain ⟨more, hdot, htext⟩ := hmore
    refine ⟨more ++ ':' :: hex randomBytes, (verify_tokenText (dot_not_mem_hex _) mac_ne_nil).mpr
      ⟨by simp, ?_, mac_congr (by rw [htext, List.append_assoc, List.cons_append])⟩⟩
    intro hmem
    rcases List.mem_append.mp hmem with hmem | hmem
    · exact hdot hmem
    · rcases List.mem_cons.mp hmem with hmem | hmem
      · exact absurd hmem (by decide)
      · exact dot_not_mem_hex _ hmem

/-- **When a token is bound to its session**: for any two sessions and any salt that is drawn, exactly if
they are the same or their texts are apart. -/
theorem bound_iff (P : Platform) (secret : String) (a b : Option String) (randomBytes : List UInt8)
    (hrandom : randomBytes.length = 16) :
    Bound P secret a b randomBytes ↔ a = b ∨ Apart a b := by
  have hne : randomBytes ≠ [] := by
    rintro rfl
    cases hrandom
  constructor
  · intro h
    by_cases hapart : Apart a b
    · exact .inr hapart
    · obtain ⟨salt, hverify⟩ := exists_moved hne hapart
      exact .inl (h salt hverify)
  · rintro (rfl | ⟨hother, hmore⟩) salt hverify
    · rfl
    · obtain ⟨-, hdot, hmac⟩ := (verify_tokenText (dot_not_mem_hex _) mac_ne_nil).mp hverify
      rcases append_cons_cases_last (colon_not_mem_hex randomBytes) (mac_inj hmac) with
        ⟨hsame, -⟩ | ⟨more, htext, hsalt⟩
      · exact absurd (String.toList_inj.mp hsame) hother
      · refine absurd htext (hmore more fun hmem => hdot ?_)
        rw [← hsalt]
        exact List.mem_append_left _ hmem

/-- What the middleware asks of a request that is not exempt and has an allowed origin. -/
theorem middleware_ok_iff (P : Platform) (options : Options) (req : Request)
    (hoverride : hasMethodOverride req = false) (hexempt : isExempt options req = false)
    (horigin : options.allowedOrigins ≠ [] → isAllowedOrigin P req options.allowedOrigins = true) :
    csrfProtectionMiddleware P options req = .ok () ↔
      ∃ token sessionId, given ((given (req.get "x-csrf-token")).or (req.get "x-xsrf-token")) = some token ∧
        extractSessionId req = .ok sessionId ∧
        verifyCsrfToken P token sessionId options.secret = true := by
  have horiginOk : ¬ (options.allowedOrigins ≠ [] ∧
      isAllowedOrigin P req options.allowedOrigins = false) := by
    rintro ⟨hne, hbad⟩
    rw [horigin hne] at hbad
    cases hbad
  rw [csrfProtectionMiddleware, hoverride, hexempt, if_neg Bool.false_ne_true,
    if_neg Bool.false_ne_true, if_neg horiginOk]
  cases given ((given (req.get "x-csrf-token")).or (req.get "x-xsrf-token")) with
  | none =>
    constructor
    · intro h
      cases h
    · rintro ⟨_, _, htoken, -⟩
      cases htoken
  | some token =>
    dsimp only
    cases hsession : extractSessionId req with
    | error e =>
      constructor
      · intro h
        cases h
      · rintro ⟨_, _, -, hid, -⟩
        cases hid
    | ok sessionId =>
      constructor
      · intro h
        refine ⟨token, sessionId, rfl, rfl, ?_⟩
        by_contra hbad
        have hthrown : (Except.error (FORBIDDEN "Invalid CSRF token") : Except Err Unit) = .ok () :=
          (if_neg hbad).symm.trans h
        cases hthrown
      · rintro ⟨_, _, htoken, hid, hverify⟩
        obtain rfl := Option.some.inj htoken
        obtain rfl := Except.ok.inj hid
        exact if_pos hverify

/-- A digest from which the message can be read. -/
def sampleHmac (_key message : String) : List UInt8 := 0 :: Utf8.encode message

theorem sampleHmac_inj (key : String) : Function.Injective (sampleHmac key) := by
  intro m m' h
  simpa [sampleHmac] using congrArg (fun bytes => Utf8.decode bytes.tail) h

theorem sampleHmac_ne_nil (key message : String) : sampleHmac key message ≠ [] :=
  List.cons_ne_nil _ _

def samplePlatform : Platform where
  hmacSha256 := sampleHmac
  origin := some
  hmac_ne_nil := sampleHmac_ne_nil
  hmac_inj := sampleHmac_inj

/-- Two sessions of which neither text begins the other. -/
theorem bound_iff_sample :
    Bound samplePlatform "secret" (some "alice") (some "bob") (List.replicate 16 7) ↔
      some "alice" = some "bob" ∨ Apart (some "alice") (some "bob") :=
  bound_iff samplePlatform "secret" (some "alice") (some "bob") (List.replicate 16 7) rfl

/-- A request with this cookie. -/
def withCookie (cookie : String) : Request where
  headers name := if name = "cookie" then some cookie else none

/-- The token of the session that one cookie names is good for the session of another. -/
theorem moved_verifies : ¬ ∀ reqA reqB a b, extractSessionId reqA = .ok a →
    extractSessionId reqB = .ok b → ∀ randomBytes : List UInt8, randomBytes.length = 16 →
      Bound samplePlatform "secret" a b randomBytes := by
  intro h
  have hbound := h (withCookie "session_id=x:y") (withCookie "theme=dark; session_id=x") (some "x:y")
    (some "x") (by decide +kernel) (by decide +kernel) (List.replicate 16 7) rfl
  obtain ⟨salt, hverify⟩ := @exists_moved samplePlatform "secret" (some "x:y") (some "x")
    (List.replicate 16 7) (by decide) fun hapart => hapart.2 ['y'] (by decide) (by decide)
  exact absurd (hbound salt hverify) (by decide)

end SmartDrop.Csrf
