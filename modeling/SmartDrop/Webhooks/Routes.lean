/-
# Who may delete a webhook

`routes/webhooks.js` with the middleware before it: `requireApiKey` (`middleware/auth.js`),
`requireCsrfHeader` (`middleware/csrf.js`) and `requireResourcePermission`
(`middleware/permissions.js`).  `POST` stores the address of its client with the webhook, and no
later request changes it (`owner_recorded`).  `DELETE` is to ask for this address, but it asks
`findById`, whose answers have no owner, and before that for a user, whom an API key does not
bring along.  So no webhook is ever deleted, not even by its owner (`delete_authorised_iff`).
-/
import SmartDrop.Lib.Lift
import SmartDrop.Lib.Run
import SmartDrop.Webhooks.Repository

namespace SmartDrop.Webhooks.Routes

open Bytes Conc JsonText Redis

/-! ## 1. What a route may ask for -/

/-- An API key, as `validateApiKey` answers it. -/
structure ApiKey where
  id : String
  scopes : List String
deriving DecidableEq

/-- The steps of the routes besides those of the repositories. -/
inductive RouteOp where
  | validateApiKey (token : String)
  | zcardOwner (ownerIp : String)
  | probeReachability (url : String)

/-- What they answer. -/
@[reducible] def RouteOp.Ret : RouteOp → Type
  | .validateApiKey _ => Option ApiKey
  | .zcardOwner _ => ℕ
  | .probeReachability _ => Bool

def routeSig : Sig where
  Op := RouteOp
  Rep op := Except Err op.Ret

/-- The steps of the webhook service beside these. -/
abbrev sig : Sig := Webhooks.sig.sum routeSig

/-- The environment at a step: of the service, what the key store knows of the token, and whether
the target of a new webhook answers. -/
structure Env where
  webhook : Webhooks.Env
  apiKey : Except Err (Option ApiKey) := .ok none
  reachable : Bool := true

/-- The keys of the service, with the key store and the network around it. -/
def machine (P : Platform) : Machine sig Caller Env Store where
  exec
    | i, .inl op, x, s => (Webhooks.machine P).exec i op x.webhook s
    | _, .inr (.validateApiKey _), x, s => (x.apiKey, s)
    | _, .inr (.zcardOwner ownerIp), x, s =>
      (if x.webhook.fault = .none then .ok (s.owners ownerIp).zcard
        else .error "Redis command failed", s)
    | _, .inr (.probeReachability _), x, s => (.ok x.reachable, s)

/-- A piece of a route. -/
abbrev Code := Throws sig Err

/-- A piece of the webhook service. -/
def service {α : Type} (code : Webhooks.Code α) : Code α := Throws.inl code

/-- One step of the routes' own. -/
def ask (op : RouteOp) : Code op.Ret :=
  (Prog.call (S := sig) (.inr op) : Prog sig (Except Err op.Ret))

/-! ## 2. Requests and responses -/

/-- A header that was sent once, or several times. -/
inductive HeaderValue where
  | one (value : String)
  | many (values : List String)
deriving DecidableEq

/-- What a session would attach to a request. -/
structure User where
  id : Option String := none
  userId : Option String := none
deriving DecidableEq

/-- A request: its headers by their names in lower case, the addresses it came from, the `id` of
its path, and what has been attached to it. -/
structure HttpRequest where
  header : String → Option HeaderValue
  ip : Option String := none
  remoteAddress : Option String := none
  id : String := ""
  apiKey : Option ApiKey := none
  user : Option User := none

/-- `publicView`. -/
structure PublicView where
  id : String
  url : String
  events : List String
  filters : Option Filters
  active : Bool
  description : Option String
  created_at : ℕ
  updated_at : ℕ
  secret_preview : Option String
deriving DecidableEq

/-- The body with which `POST` answers. -/
structure CreatedView extends PublicView where
  secret : String
  secret_warning : String
  reachability : String
  warning : Option String
deriving DecidableEq

/-- A response: an error for the error handler, or a body with its status. -/
inductive Response where
  | appError (code message : String) (status : ℕ)
  | refusal (status : ℕ) (message : String)
  | created (body : CreatedView)
  | updated (body : PublicView)
  | deleted (id : String)
deriving DecidableEq

/-- A middleware answers, or passes the request on. -/
abbrev Middleware := HttpRequest → Code (Except Response HttpRequest)

/-- A route: its middlewares, one after the other, and its handler. -/
def route : List Middleware → (HttpRequest → Code Response) → HttpRequest → Code Response
  | [], handler, req => handler req
  | m :: ms, handler, req => do
    match ← m req with
    | .error response => return response
    | .ok req => route ms handler req

/-! ## 3. The middlewares -/

/-- `[\n\r\u2028\u2029]`, which `.` does not match. -/
def isLineTerminator (c : Char) : Bool := [0x0A, 0x0D, 0x2028, 0x2029].contains c.toNat

/-- `extractBearerToken`: what follows `Bearer` and white space.  An empty token is as good as
none. -/
def extractBearerToken : Option HeaderValue → Option String
  | some (.one header) =>
    let cs := header.toList
    let token := (cs.drop 6).dropWhile JsText.isSpace
    if (cs.take 6).map JsText.upper = "BEARER".toList ∧ token.length < (cs.drop 6).length ∧
        token ≠ [] ∧ token.all (! isLineTerminator ·) then
      some (JsText.trim (String.ofList token))
    else none
  | _ => none

/-- `hasScopes`. -/
def hasScopes (apiKey : ApiKey) (requiredScopes : List String) : Bool :=
  requiredScopes.isEmpty || apiKey.scopes.contains "admin" ||
    requiredScopes.all fun scope => apiKey.scopes.contains scope

def unauthorized : Response := .appError "UNAUTHORIZED" "Missing or invalid API key" 401

/-- `attachApiKey`. -/
def attachApiKey : Middleware := fun req => do
  if req.apiKey.isSome then return .ok req
  match extractBearerToken (req.header "authorization") with
  | none => return .ok req
  | some token =>
    tryCatch (do
      match ← ask (.validateApiKey token) with
      | none => return .ok req
      | some apiKey => return .ok { req with apiKey := some apiKey }) fun _ => return .ok req

/-- `req.apiKey || (await apiKeys.validateApiKey(token))`. -/
def resolveApiKey (req : HttpRequest) (token : String) : Code (Option ApiKey) :=
  match req.apiKey with
  | some apiKey => return some apiKey
  | none => ask (.validateApiKey token)

/-- `requireApiKey`. -/
def requireApiKey (requiredScopes : List String) : Middleware := fun req =>
  match extractBearerToken (req.header "authorization") with
  | none => return .error unauthorized
  | some token =>
    tryCatch (do
      match ← resolveApiKey req token with
      | none => return .error unauthorized
      | some apiKey =>
        if hasScopes apiKey requiredScopes then return .ok { req with apiKey := some apiKey }
        else return .error (.appError "FORBIDDEN" "Insufficient API key scope" 403))
      fun _ => return .error unauthorized

/-- `requireCsrfHeader`. -/
def requireCsrfHeader : Middleware := fun req =>
  match req.header "x-requested-with" with
  | none | some (.one "") =>
    return .error (.appError "CSRF_HEADER_REQUIRED" "Missing required X-Requested-With header" 403)
  | some _ => return .ok req

/-- `[A-Za-z0-9_-]`. -/
def isIdChar (c : Char) : Bool :=
  JsText.isUpper c || JsText.isLower c || JsText.isDigit c || c = '_' || c = '-'

/-- `routeIdParamsSchema`. -/
def isRouteId (id : String) : Bool :=
  1 ≤ (JsText.trim id).toList.length && (JsText.trim id).toList.length ≤ 128 &&
    (JsText.trim id).toList.all isIdChar

/-- `validate(routeIdParamsSchema, "params")`. -/
def validateRouteIdParams : Middleware := fun req =>
  if isRouteId req.id then return .ok req
  else return .error (.appError "VALIDATION_ERROR" "Validation failed" 400)

/-- The options of `requireResourcePermission`. -/
structure PermissionOptions where
  resourceName : String := "resource"
  getResourceOwner : HttpRequest → Code (Option String)
  isAllowed : Option (HttpRequest → String → Bool) := none

/-- `req.user?.id || req.user?.userId`. -/
def userIdOf (req : HttpRequest) : Option String :=
  req.user.bind fun user => (user.id.filter (· ≠ "")) <|> (user.userId.filter (· ≠ ""))

/-- `requireResourcePermission`. -/
def requireResourcePermission (options : PermissionOptions) : Middleware := fun req =>
  tryCatch (do
    match userIdOf req with
    | none => return .error (.refusal 401 "Authentication required")
    | some userId =>
      match (← options.getResourceOwner req).filter (· ≠ "") with
      | none => return .error (.refusal 404 (options.resourceName ++ " not found"))
      | some ownerId =>
        let allowed := match options.isAllowed with
          | some isAllowed => isAllowed req ownerId
          | none => ownerId = userId
        if allowed then return .ok req
        else return .error (.refusal 403
          ("You do not have permission to access this " ++ options.resourceName)))
    fun _ => return .error (.refusal 500 "Permission check failed")

/-! ## 4. The routes -/

/-- `text.replace(/^::ffff:/, "")`. -/
def stripMapped (text : String) : String :=
  if "::ffff:".toList.isPrefixOf text.toList then String.ofList (text.toList.drop 7) else text

/-- `text.split(",")[0]`. -/
def firstListed (text : String) : String := String.ofList (text.toList.takeWhile (· ≠ ','))

/-- The address of the connection. -/
def connectionIp (req : HttpRequest) : String :=
  stripMapped (((req.ip.filter (· ≠ "")) <|> (req.remoteAddress.filter (· ≠ ""))).getD "unknown")

/-- `clientIpFromRequest`. -/
def clientIpFromRequest (req : HttpRequest) : String :=
  match req.header "x-forwarded-for" with
  | some (.one forwardedFor) =>
    if JsText.trim forwardedFor ≠ "" then stripMapped (JsText.trim (firstListed forwardedFor))
    else connectionIp req
  | some (.many (forwardedFor :: _)) =>
    if forwardedFor ≠ "" then stripMapped (JsText.trim forwardedFor) else connectionIp req
  | _ => connectionIp req

/-- `publicView`. -/
def publicView (webhook : Webhook) : PublicView where
  id := webhook.id
  url := webhook.url
  events := webhook.events
  filters := webhook.filters
  active := webhook.active
  description := webhook.description
  created_at := webhook.created_at
  updated_at := webhook.updated_at
  secret_preview := (webhook.secret.filter (· ≠ "")).map fun secret =>
    String.ofList (secret.toList.take 10) ++ "…"

/-- A body that `webhookCreateBodySchema` has let pass. -/
structure CreateBody where
  url : String
  events : List String
  secret : Option String := none
  description : Option String := none
  filters : Option Filters := none

/-- `countByOwner`: a failed read counts none. -/
def countByOwner (ownerIp : String) : Code ℕ :=
  if ownerIp = "" then return 0
  else tryCatch (ask (.zcardOwner ownerIp)) fun _ => return 0

/-- `generateSecret`. -/
def generateSecret : Code String := do
  let bytes ← service (redis (.randomBytes 32))
  return "whsec_" ++ String.ofList (hex bytes)

/-- `body.secret || signatureService.generateSecret()`. -/
def secretOf (body : CreateBody) : Code String :=
  match body.secret.filter (· ≠ "") with
  | some secret => return secret
  | none => generateSecret

variable (P : Platform) (config : Config)

/-- The handler of `POST /webhooks`.  `maxPerSubscriber` is configured. -/
def createWebhook (maxPerSubscriber : ℕ) (body : CreateBody) (req : HttpRequest) :
    Code Response := do
  let ownerIp := clientIpFromRequest req
  let existingCount ← countByOwner ownerIp
  if maxPerSubscriber ≤ existingCount then
    return .appError "WEBHOOK_LIMIT_EXCEEDED"
      ("Webhook limit of " ++ String.ofList (Nat.toDigits 10 maxPerSubscriber) ++
        " per subscriber exceeded") 429
  match ← service (redis (.assertPublicTarget body.url)) with
  | .error e => throw e.message
  | .ok _ =>
    let secret ← secretOf body
    let reachable ← ask (.probeReachability body.url)
    let webhook ← service (webhookRepository.create P config
      { url := body.url, events := body.events, secret, description := body.description,
        filters := body.filters, owner_ip := some ownerIp })
    return .created
      { publicView webhook with
        secret
        secret_warning := "Store this secret now — it will not be shown again in plaintext."
        reachability := if reachable then "reachable" else "unreachable"
        warning := if reachable then none
          else some "Webhook target is unreachable during registration: check the URL and try again" }

/-- The routes of webhooks ask for an API key of this scope. -/
def authenticated : List Middleware := [attachApiKey, requireApiKey ["webhooks"]]

/-- `POST /webhooks`, for a body that is valid. -/
def postWebhooks (maxPerSubscriber : ℕ) (body : CreateBody) : HttpRequest → Code Response :=
  route (authenticated ++ [requireCsrfHeader]) (createWebhook P config maxPerSubscriber body)

def webhookNotFound : Response := .appError "WEBHOOK_NOT_FOUND" "Webhook not found" 404

/-- The handler of `PATCH /webhooks/:id`. -/
def updateWebhook (patch : WebhookPatch) (req : HttpRequest) : Code Response := do
  match ← service (webhookRepository.update P config req.id patch) with
  | none => return webhookNotFound
  | some updated => return .updated (publicView updated)

/-- `PATCH /webhooks/:id`, for a patch that is valid. -/
def patchWebhook (patch : WebhookPatch) : HttpRequest → Code Response :=
  route (authenticated ++ [requireCsrfHeader, validateRouteIdParams]) (updateWebhook P config patch)

/-- `webhook.owner_ip`, for what the repository returns: `normalize` does not copy the owner. -/
def ownerOf (_ : Webhook) : Option String := none

/-- The ownership check of `DELETE /webhooks/:id`. -/
def webhookPermission : PermissionOptions where
  resourceName := "webhook"
  getResourceOwner req := do
    let webhook ← service (webhookRepository.findById P config req.id)
    return webhook.bind ownerOf
  isAllowed := some fun req ownerId => clientIpFromRequest req = ownerId

/-- The handler of `DELETE /webhooks/:id`. -/
def removeWebhook (req : HttpRequest) : Code Response := do
  match ← service (webhookRepository.remove P config req.id) with
  | none => return webhookNotFound
  | some _ => return .deleted req.id

/-- `DELETE /webhooks/:id`. -/
def deleteWebhook : HttpRequest → Code Response :=
  route (authenticated ++ [requireCsrfHeader, validateRouteIdParams,
    requireResourcePermission (webhookPermission P config)]) (removeWebhook P config)

/-! ## 5. A request alone -/

/-- Nothing interferes, and any command may fail. -/
def undisturbed {S : Sig} {ι σ : Type} : Contract S ι σ := .alone fun _ _ _ => True

variable {α : Type} {P : Platform} {config : Config} {caller : Caller} {I : Store → Prop}

/-- The routes' own steps only read. -/
theorem satE_ask (op : RouteOp) :
    SatE (machine P) caller undisturbed (ask op) I (fun _ => I) fun _ => I := by
  intro x s hs _
  have hstore : ((machine P).exec caller (.inr op) x s).2 = s := by cases op <;> rfl
  refine ⟨trivial, I, fun _ _ h he => he ▸ h, hstore.symm ▸ hs, ?_⟩
  cases ((machine P).exec caller (.inr op) x s).1 <;> exact fun _ h => h

/-- A piece of the service does in a route what it does elsewhere. -/
theorem satE_service {code : Webhooks.Code α} {Q : α → Store → Prop}
    {E : Err → Store → Prop}
    (h : SatE (Webhooks.machine P) caller undisturbed code I Q E) :
    SatE (machine P) caller undisturbed (service code) I Q E :=
  Sat.embed (fun _ _ _ _ => rfl) (fun _ _ _ _ => trivial) h

/-- Responses that report an error. -/
def Response.Denies : Response → Prop
  | .appError .. | .refusal .. => True
  | _ => False

/-- A request that is passed on still comes from the same client, and one that is not is denied. -/
structure Passed (req : HttpRequest) (r : Except Response HttpRequest) : Prop where
  client : ∀ req', r = .ok req' → clientIpFromRequest req' = clientIpFromRequest req
  denied : ∀ response, r = .error response → response.Denies

theorem Passed.answered (req : HttpRequest) {response : Response} (h : response.Denies) :
    Passed req (.error response) where
  client req' heq := by cases heq
  denied response' heq := by
    cases heq
    exact h

theorem Passed.withKey (req : HttpRequest) (apiKey : Option ApiKey) :
    Passed req (.ok { req with apiKey }) where
  client req' heq := by
    cases heq
    rfl
  denied response heq := by cases heq

theorem Passed.same (req : HttpRequest) : Passed req (.ok req) := .withKey req req.apiKey

/-- What holds of every middleware: it keeps any assertion, and does not change the client. -/
structure Transparent (P : Platform) (m : Middleware) : Prop where
  sat : ∀ (caller : Caller) (I : Store → Prop) (req : HttpRequest),
    SatE (machine P) caller undisturbed (m req) I (fun r s => Passed req r ∧ I s) fun _ => I

theorem transparent_attachApiKey : Transparent P attachApiKey := by
  refine ⟨fun caller I req => ?_⟩
  unfold attachApiKey
  split
  · exact SatE.pure fun _ h => ⟨.same req, h⟩
  cases extractBearerToken (req.header "authorization") with
  | none => exact SatE.pure fun _ h => ⟨.same req, h⟩
  | some token =>
    refine SatE.tryCatch (E := fun _ => I) (SatE.bind (satE_ask _) fun apiKey => ?_)
      fun _ => SatE.pure fun _ h => ⟨.same req, h⟩
    cases apiKey with
    | none => exact SatE.pure fun _ h => ⟨.same req, h⟩
    | some apiKey => exact SatE.pure fun _ h => ⟨.withKey req _, h⟩

theorem transparent_requireApiKey (scopes : List String) : Transparent P (requireApiKey scopes) := by
  refine ⟨fun caller I req => ?_⟩
  unfold requireApiKey
  cases extractBearerToken (req.header "authorization") with
  | none => exact SatE.pure fun _ h => ⟨.answered req trivial, h⟩
  | some token =>
    refine SatE.tryCatch (E := fun _ => I) (SatE.bind (Q := fun _ => I) ?_ fun apiKey => ?_)
      fun _ => SatE.pure fun _ h => ⟨.answered req trivial, h⟩
    · unfold resolveApiKey
      cases req.apiKey with
      | none => exact satE_ask _
      | some apiKey => exact SatE.pure fun _ h => h
    · cases apiKey with
      | none => exact SatE.pure fun _ h => ⟨.answered req trivial, h⟩
      | some apiKey =>
        dsimp only
        split
        · exact SatE.pure fun _ h => ⟨.withKey req _, h⟩
        · exact SatE.pure fun _ h => ⟨.answered req trivial, h⟩

theorem transparent_requireCsrfHeader : Transparent P requireCsrfHeader := by
  refine ⟨fun caller I req => ?_⟩
  unfold requireCsrfHeader
  split
  · exact SatE.pure fun _ h => ⟨.answered req trivial, h⟩
  · exact SatE.pure fun _ h => ⟨.answered req trivial, h⟩
  · exact SatE.pure fun _ h => ⟨.same req, h⟩

theorem transparent_validateRouteIdParams : Transparent P validateRouteIdParams := by
  refine ⟨fun caller I req => ?_⟩
  unfold validateRouteIdParams
  cases isRouteId req.id with
  | true => exact SatE.pure fun _ h => ⟨.same req, h⟩
  | false => exact SatE.pure fun _ h => ⟨.answered req trivial, h⟩

theorem transparent_authenticated : ∀ m ∈ authenticated, Transparent P m := by
  simp only [authenticated, List.forall_mem_cons]
  exact ⟨transparent_attachApiKey, transparent_requireApiKey _, by simp⟩

/-- A route does what its handler does for the same client, or answers before. -/
theorem satE_route {ms : List Middleware} {handler : HttpRequest → Code Response}
    {Q : Response → Store → Prop} {req : HttpRequest} (hms : ∀ m ∈ ms, Transparent P m)
    (hanswer : ∀ response s, response.Denies → I s → Q response s)
    (hhandler : ∀ req', clientIpFromRequest req' = clientIpFromRequest req →
      SatE (machine P) caller undisturbed (handler req') I Q fun _ => I) :
    SatE (machine P) caller undisturbed (route ms handler req) I Q fun _ => I := by
  induction ms generalizing req with
  | nil => exact hhandler req rfl
  | cons m ms ih =>
    rw [List.forall_mem_cons] at hms
    refine SatE.bind (hms.1.sat caller I req) fun r => SatE.assume fun hpassed => ?_
    cases r with
    | error response =>
      have hdenied := hpassed.denied response rfl
      exact SatE.pure fun s h => hanswer response s hdenied h
    | ok req' =>
      have hclient := hpassed.client req' rfl
      exact ih hms.2 fun req'' h => hhandler req'' (h.trans hclient)

theorem route_append (ms ms' : List Middleware) (handler : HttpRequest → Code Response) :
    route (ms ++ ms') handler = route ms (route ms' handler) := by
  induction ms with
  | nil => rfl
  | cons m ms ih =>
    funext req
    rw [List.cons_append, route, route, ih]

/-! ## 6. The owner survives storage -/

/-- Requests that write webhooks; bodies and patches are valid. -/
inductive Call where
  | post (body : CreateBody)
  | patch (patch : WebhookPatch)
  | delete

/-- A request, made while nothing else runs. -/
structure Turn where
  caller : Caller
  request : HttpRequest
  call : Call
  env : ℕ → Env

/-- The store, and who has created which webhook. -/
structure World where
  store : Store
  creators : String → Option String

/-- Nothing stored. -/
def World.init : World := ⟨Store.init, fun _ => none⟩

/-- The route of a call. -/
def Call.route (P : Platform) (config : Config) (maxPerSubscriber : ℕ) : Call → HttpRequest → Code Response
  | .post body => postWebhooks P config maxPerSubscriber body
  | .patch p => patchWebhook P config p
  | .delete => deleteWebhook P config

/-- Whom a response says to have created which webhook. -/
def note (req : HttpRequest) (creators : String → Option String) :
    Except Err Response → String → Option String
  | .ok (.created body) => Function.update creators body.id (some (clientIpFromRequest req))
  | _ => creators

/-- What a request leaves, and how it is answered. -/
def respond (P : Platform) (config : Config) (maxPerSubscriber : ℕ) (s : Store) (t : Turn) :
    Except Err Response × Store :=
  (t.call.route P config maxPerSubscriber t.request).prog.runWith (machine P) t.caller t.env s

/-- One request from its start to its end. -/
def routeStep (P : Platform) (config : Config) (maxPerSubscriber : ℕ) (w : World) (t : Turn) : World where
  store := (respond P config maxPerSubscriber w.store t).2
  creators := note t.request w.creators (respond P config maxPerSubscriber w.store t).1

/-- Webhooks have ids that were drawn, and the owners who created them. -/
structure Owned (P : Platform) (creators : String → Option String) (s : Store) : Prop where
  drawn : ∀ id r, s.webhooks id = some r → ∃ n < s.uuidsDrawn, id = "wh_" ++ P.randomUUID n
  created : ∀ id o, creators id = some o → ∃ n < s.uuidsDrawn, id = "wh_" ++ P.randomUUID n
  owner : ∀ id o r, creators id = some o → s.webhooks id = some r →
    r.owner_ip = (some o).filter (· ≠ "")

variable {creators : String → Option String} {s s' : Store}

theorem Owned.init : Owned P (fun _ => none) Store.init where
  drawn id r h := by cases h
  created id o h := by cases h
  owner id o r h := by cases h

/-- What the owners depend on. -/
structure SameWebhooks (s s' : Store) : Prop where
  webhooks : s'.webhooks = s.webhooks
  uuidsDrawn : s'.uuidsDrawn = s.uuidsDrawn

theorem Owned.congr (h : Owned P creators s) (hs : SameWebhooks s s') : Owned P creators s' where
  drawn := by
    rw [hs.webhooks, hs.uuidsDrawn]
    exact h.drawn
  created := by
    rw [hs.uuidsDrawn]
    exact h.created
  owner := by
    rw [hs.webhooks]
    exact h.owner

/-- Steps that leave the webhooks as they are. -/
def Keeps (P : Platform) (op : Op) : Prop :=
  ∀ caller x s, SameWebhooks s (s.exec P caller x op).2

/-- Such a step keeps whatever depends on nothing else. -/
theorem satE_keeps {code : Webhooks.Code α} (huses : Throws.Uses (Keeps P) code)
    (hI : ∀ s s', SameWebhooks s s' → I s → I s') :
    SatE (Webhooks.machine P) caller undisturbed code I (fun _ => I) fun _ => I := by
  refine SatE.frame (fun _ _ h he => he ▸ h) (fun op hop x s hs _ => ⟨trivial, ?_⟩) huses
  exact machine_store_of hs (hI s _ (hop caller x s) hs)

theorem uses_step {op : Op} (h : Keeps P op) : Throws.Uses (Keeps P) (redis op) :=
  ⟨h, fun _ => trivial⟩

theorem uses_unchecked {op : Op} (h : Keeps P op) : Throws.Uses (Keeps P) (unchecked op) :=
  Throws.Uses.tryCatch ((uses_step h).bind fun _ => Throws.uses_pure _) fun _ => Throws.uses_pure _

theorem uses_encryptSecretNow (secret : String) :
    Throws.Uses (Keeps P) (webhookRepository.encryptSecretNow P config secret) := by
  refine (uses_step fun _ _ _ => ⟨rfl, rfl⟩).bind fun iv => ?_
  cases encryptSecret P config iv secret with
  | error e => exact Throws.uses_throw _
  | ok packed => exact Throws.uses_pure _

theorem uses_removeEventIndexes (id : String) (events : List String) :
    Throws.Uses (Keeps P) (webhookRepository.removeEventIndexes id events) := by
  induction events with
  | nil => exact Throws.uses_pure _
  | cons e events ih => exact (uses_unchecked fun _ _ _ => ⟨rfl, rfl⟩).bind fun _ => ih

theorem uses_addEventIndexes (id : String) (events : List String) :
    Throws.Uses (Keeps P) (webhookRepository.addEventIndexes id events) := by
  induction events with
  | nil => exact Throws.uses_pure _
  | cons e events ih => exact (uses_unchecked fun _ _ _ => ⟨rfl, rfl⟩).bind fun _ => ih

/-- What `update` does between its read and its write. -/
theorem uses_reindex (id : String) (existing : WebhookRecord) (events : Option (List String)) :
    Throws.Uses (Keeps P) (webhookRepository.reindex id existing events) := by
  cases events with
  | none => exact Throws.uses_pure _
  | some events => exact (uses_removeEventIndexes id _).bind fun _ => uses_addEventIndexes id events

theorem uses_nextSecret (existing : WebhookRecord) (patch : WebhookPatch) :
    Throws.Uses (Keeps P) (webhookRepository.nextSecret P config existing patch) := by
  unfold webhookRepository.nextSecret
  cases patch.secret.filter (· ≠ "") with
  | none => exact Throws.uses_pure _
  | some secret => exact uses_encryptSecretNow secret

/-- An id that has just been drawn. -/
structure Fresh (P : Platform) (creators : String → Option String) (id : String) (s : Store) :
    Prop where
  owned : Owned P creators s
  drawn : ∃ n < s.uuidsDrawn, id = "wh_" ++ P.randomUUID n
  unstored : s.webhooks id = none
  unknown : creators id = none

theorem Fresh.congr {id : String} (h : Fresh P creators id s) (hs : SameWebhooks s s') :
    Fresh P creators id s' where
  owned := h.owned.congr hs
  drawn := by
    rw [hs.uuidsDrawn]
    exact h.drawn
  unstored := by
    rw [hs.webhooks]
    exact h.unstored
  unknown := h.unknown

/-- The next id is not in use. -/
theorem Owned.fresh (h : Owned P creators s) :
    Fresh P creators ("wh_" ++ P.randomUUID s.uuidsDrawn)
      { s with uuidsDrawn := s.uuidsDrawn + 1 } := by
  have hnew : ¬ ∃ n < s.uuidsDrawn, "wh_" ++ P.randomUUID s.uuidsDrawn = "wh_" ++ P.randomUUID n := by
    rintro ⟨n, hn, he⟩
    have huuid : P.randomUUID s.uuidsDrawn = P.randomUUID n := by simpa [String.ext_iff] using he
    exact absurd (P.uuid_inj huuid) (by omega)
  have hlater : ∀ id, (∃ n < s.uuidsDrawn, id = "wh_" ++ P.randomUUID n) →
      ∃ n < s.uuidsDrawn + 1, id = "wh_" ++ P.randomUUID n := by
    rintro id ⟨n, hn, he⟩
    exact ⟨n, Nat.lt_succ_of_lt hn, he⟩
  constructor
  · exact ⟨fun id r hr => hlater id (h.drawn id r hr), fun id o ho => hlater id (h.created id o ho),
      h.owner⟩
  · exact ⟨s.uuidsDrawn, Nat.lt_succ_self _, rfl⟩
  · rw [Option.eq_none_iff_forall_ne_some]
    exact fun r hr => hnew (h.drawn _ r hr)
  · rw [Option.eq_none_iff_forall_ne_some]
    exact fun o ho => hnew (h.created _ o ho)

/-- A new webhook is stored, whether or not its creator is told. -/
theorem Fresh.insert {id o secret : String} {w : NewWebhook} (h : Fresh P creators id s)
    (howner : w.owner_ip = some o) (now score : ℕ) (x : Webhooks.Env) :
    Owned P creators
        (s.exec P caller x (.insertWebhook (webhookRepository.newRecord w id secret now) score)).2 ∧
      Owned P (Function.update creators id (some o))
        (s.exec P caller x (.insertWebhook (webhookRepository.newRecord w id secret now) score)).2 := by
  have hdrawn : ∀ j r, Function.update s.webhooks id
      (some (webhookRepository.newRecord w id secret now)) j = some r →
      ∃ n < s.uuidsDrawn, j = "wh_" ++ P.randomUUID n := by
    intro j r hr
    by_cases hj : j = id
    · exact hj ▸ h.drawn
    · rw [Function.update_of_ne hj] at hr
      exact h.owned.drawn j r hr
  have howners : ∀ j o' r, Function.update creators id (some o) j = some o' →
      Function.update s.webhooks id (some (webhookRepository.newRecord w id secret now)) j = some r →
      r.owner_ip = (some o').filter (· ≠ "") := by
    intro j o' r ho hr
    by_cases hj : j = id
    · subst hj
      rw [Function.update_self, Option.some.injEq] at ho hr
      subst ho hr
      rw [webhookRepository.newRecord, howner]
    · rw [Function.update_of_ne hj] at ho hr
      exact h.owned.owner j o' r ho hr
  constructor
  · refine ⟨hdrawn, h.owned.created, fun j o' r ho hr => howners j o' r ?_ hr⟩
    have hj : j ≠ id := by
      rintro rfl
      rw [h.unknown] at ho
      cases ho
    rwa [Function.update_of_ne hj]
  · refine ⟨hdrawn, fun j o' ho => ?_, howners⟩
    by_cases hj : j = id
    · exact hj ▸ h.drawn
    · rw [Function.update_of_ne hj] at ho
      exact h.owned.created j o' ho

/-- `create` stores the owner that it is given. -/
theorem satE_create {w : NewWebhook} {o : String} (howner : w.owner_ip = some o) :
    SatE (Webhooks.machine P) caller undisturbed (webhookRepository.create P config w)
      (Owned P creators) (fun v => Owned P (Function.update creators v.id (some o)))
      fun _ => Owned P creators := by
  unfold webhookRepository.create
  split
  · exact SatE.throw fun s hs => hs
  refine SatE.bind (Q := Fresh P creators) ?_ fun id => ?_
  · refine SatE.bind (Q := fun u => Fresh P creators ("wh_" ++ u)) ?_ fun u => SatE.pure fun _ h => h
    exact satE_alone (fun x s _ hs => hs.fresh) fun hlocal => by cases hlocal
  have hcongr : ∀ s s', SameWebhooks s s' → Fresh P creators id s → Fresh P creators id s' :=
    fun s s' hs h => h.congr hs
  refine SatE.bind (satE_keeps (uses_step fun _ _ _ => ⟨rfl, rfl⟩) hcongr |>.mono (fun _ h => h)
    (fun _ _ h => h) fun _ _ h => h.owned) fun now => ?_
  refine SatE.bind (satE_keeps (uses_encryptSecretNow w.secret) hcongr |>.mono (fun _ h => h)
    (fun _ _ h => h) fun _ _ h => h.owned) fun secret => ?_
  refine SatE.bind (Q := fun _ => Owned P (Function.update creators id (some o))) ?_
    fun _ => SatE.pure fun _ h => h
  refine satE_alone (fun x s _ h => (h.insert howner now now x).2) fun _ _ x s _ h => ?_
  exact ⟨h.owned, (h.insert howner now now x).1⟩

/-- Writing a record with the owner that it had. -/
theorem Owned.overwrite {id : String} {existing record : WebhookRecord} (h : Owned P creators s)
    (hstored : s.webhooks id = some existing) (howner : record.owner_ip = existing.owner_ip)
    (x : Webhooks.Env) : Owned P creators (s.exec P caller x (.setWebhook id record)).2 where
  drawn j r hr := by
    by_cases hj : j = id
    · exact hj ▸ h.drawn id existing hstored
    · simp only [Store.exec, Function.update_of_ne hj] at hr
      exact h.drawn j r hr
  created := h.created
  owner j o r ho hr := by
    by_cases hj : j = id
    · subst hj
      simp only [Store.exec, Function.update_self, Option.some.injEq] at hr
      rw [← hr, howner]
      exact h.owner j o existing ho hstored
    · simp only [Store.exec, Function.update_of_ne hj] at hr
      exact h.owner j o r ho hr

/-- `update` keeps every owner. -/
theorem satE_update (id : String) (patch : WebhookPatch) :
    SatE (Webhooks.machine P) caller undisturbed (webhookRepository.update P config id patch)
      (Owned P creators) (fun _ => Owned P creators) fun _ => Owned P creators := by
  refine SatE.bind (Q := fun r s => s.webhooks id = r ∧ Owned P creators s)
    (satE_alone (fun x s _ hs => ⟨rfl, hs⟩) fun _ _ x s _ hs => ⟨hs, hs⟩) fun r => ?_
  cases r with
  | none => exact SatE.pure fun _ h => h.2
  | some existing =>
    have hcongr : ∀ s s', SameWebhooks s s' → s.webhooks id = some existing ∧ Owned P creators s →
        s'.webhooks id = some existing ∧ Owned P creators s' := by
      intro s s' hs h
      exact ⟨(congrFun hs.webhooks id).trans h.1, h.2.congr hs⟩
    refine SatE.bind (satE_keeps (uses_nextSecret existing patch) hcongr |>.mono (fun _ h => h)
      (fun _ _ h => h) fun _ _ h => h.2) fun secret => ?_
    refine SatE.bind (satE_keeps (uses_step fun _ _ _ => ⟨rfl, rfl⟩) hcongr |>.mono (fun _ h => h)
      (fun _ _ h => h) fun _ _ h => h.2) fun now => ?_
    refine SatE.bind (satE_keeps (uses_reindex id existing patch.events) hcongr |>.mono (fun _ h => h)
      (fun _ _ h => h) fun _ _ h => h.2) fun _ => ?_
    refine SatE.bind (Q := fun _ => Owned P creators) ?_ fun _ => SatE.pure fun _ h => h
    have hwrite : ∀ x s, s.webhooks id = some existing ∧ Owned P creators s → Owned P creators
        (s.exec P caller x (.setWebhook id (webhookRepository.patched existing patch secret now))).2 := by
      intro x s h
      have howner : (webhookRepository.patched existing patch secret now).owner_ip =
        existing.owner_ip := rfl
      exact h.2.overwrite h.1 howner x
    exact satE_alone (fun x s _ h => hwrite x s h) fun _ _ x s _ h => ⟨h.2, hwrite x s h⟩

/-- The check of the owner answers every request: it finds no owner. -/
theorem satE_webhookPermission (req : HttpRequest) :
    SatE (machine P) caller undisturbed
      (requireResourcePermission (webhookPermission P config) req) I
      (fun r s => (∃ response, r = .error response ∧ response.Denies) ∧ I s) fun _ => I := by
  refine SatE.tryCatch (E := fun _ => I) ?_ fun _ => SatE.pure fun _ h => ⟨⟨_, rfl, trivial⟩, h⟩
  cases userIdOf req with
  | none => exact SatE.pure fun _ h => ⟨⟨_, rfl, trivial⟩, h⟩
  | some userId =>
    have hread : SatE (Webhooks.machine P) caller undisturbed
        (webhookRepository.findById P config req.id) I (fun _ => I) fun _ => I := by
      refine SatE.tryCatch (E := fun _ => I) (SatE.bind (Q := fun _ => I) ?_
        fun _ => SatE.pure fun _ h => h) fun _ => SatE.pure fun _ h => h
      exact satE_alone (fun x s _ hs => hs) fun _ _ x s _ hs => ⟨hs, hs⟩
    refine SatE.bind (Q := fun owner s => owner = none ∧ I s) ?_ fun owner => SatE.assume fun ho => ?_
    · refine SatE.bind (satE_service hread) fun webhook => SatE.pure fun _ h => ⟨?_, h⟩
      cases webhook <;> rfl
    · subst ho
      exact SatE.pure fun _ h => ⟨⟨_, rfl, trivial⟩, h⟩

/-- `DELETE` is always denied, and keeps any assertion on the store. -/
theorem satE_deleteWebhook (req : HttpRequest) :
    SatE (machine P) caller undisturbed (deleteWebhook P config req) I
      (fun response s => response.Denies ∧ I s) fun _ => I := by
  have hms : ∀ m ∈ authenticated ++ [requireCsrfHeader, validateRouteIdParams], Transparent P m := by
    rw [List.forall_mem_append]
    simp only [List.forall_mem_cons]
    exact ⟨transparent_authenticated, transparent_requireCsrfHeader,
      transparent_validateRouteIdParams, by simp⟩
  have hsplit : authenticated ++ [requireCsrfHeader, validateRouteIdParams,
      requireResourcePermission (webhookPermission P config)] =
      (authenticated ++ [requireCsrfHeader, validateRouteIdParams]) ++
        [requireResourcePermission (webhookPermission P config)] := rfl
  rw [deleteWebhook, hsplit, route_append]
  refine satE_route hms (fun _ _ hdenied h => ⟨hdenied, h⟩) fun req' _ => ?_
  refine SatE.bind (satE_webhookPermission req') fun r => SatE.assume fun hr => ?_
  obtain ⟨response, rfl, hdenied⟩ := hr
  exact SatE.pure fun _ h => ⟨hdenied, h⟩

/-- A denial makes nobody an owner. -/
theorem note_denied {req : HttpRequest} {response : Response} (h : response.Denies) :
    note req creators (.ok response) = creators := by
  cases response with
  | appError => rfl
  | refusal => rfl
  | created => exact h.elim
  | updated => rfl
  | deleted => rfl

theorem satE_countByOwner (ownerIp : String) :
    SatE (machine P) caller undisturbed (countByOwner ownerIp) I (fun _ => I) fun _ => I := by
  unfold countByOwner
  split
  · exact SatE.pure fun _ h => h
  · exact SatE.tryCatch (E := fun _ => I) (satE_ask _) fun _ => SatE.pure fun _ h => h

theorem satE_secretOf (body : CreateBody) (hI : ∀ s s', SameWebhooks s s' → I s → I s') :
    SatE (machine P) caller undisturbed (secretOf body) I (fun _ => I) fun _ => I := by
  unfold secretOf
  cases body.secret.filter (· ≠ "") with
  | none =>
    refine SatE.bind (satE_service (satE_keeps (P := P) (uses_step fun _ _ _ => ⟨rfl, rfl⟩) hI))
      fun bytes => SatE.pure fun _ h => h
  | some secret => exact SatE.pure fun _ h => h

theorem keeps_assertPublicTarget (url : String) : Keeps P (.assertPublicTarget url) := by
  intro caller x s
  simp only [Store.exec]
  split <;> exact ⟨rfl, rfl⟩

/-- `POST` notes whose webhook it has stored. -/
theorem satE_postWebhooks (maxPerSubscriber : ℕ) (body : CreateBody) (req : HttpRequest) :
    SatE (machine P) caller undisturbed (postWebhooks P config maxPerSubscriber body req)
      (Owned P creators) (fun response => Owned P (note req creators (.ok response)))
      fun _ => Owned P creators := by
  have hms : ∀ m ∈ authenticated ++ [requireCsrfHeader], Transparent P m := by
    rw [List.forall_mem_append, List.forall_mem_singleton]
    exact ⟨transparent_authenticated, transparent_requireCsrfHeader⟩
  have hcongr : ∀ s s', SameWebhooks s s' → Owned P creators s → Owned P creators s' :=
    fun s s' hs h => h.congr hs
  refine satE_route hms (fun response s hdenied h => (note_denied hdenied).symm ▸ h) fun req' hclient => ?_
  unfold createWebhook
  refine SatE.bind (satE_countByOwner _) fun existingCount => ?_
  split
  · exact SatE.pure fun _ h => h
  refine SatE.bind (satE_service (satE_keeps (uses_step (keeps_assertPublicTarget body.url)) hcongr))
    fun target => ?_
  cases target with
  | error e => exact SatE.throw fun _ h => h
  | ok target =>
    refine SatE.bind (satE_secretOf body hcongr) fun secret => ?_
    refine SatE.bind (satE_ask _) fun reachable => ?_
    refine SatE.bind (satE_service (satE_create rfl)) fun webhook => SatE.pure fun s h => ?_
    rw [hclient] at h
    exact h

/-- `PATCH` keeps every owner. -/
theorem satE_patchWebhook (patch : WebhookPatch) (req : HttpRequest) :
    SatE (machine P) caller undisturbed (patchWebhook P config patch req)
      (Owned P creators) (fun response => Owned P (note req creators (.ok response)))
      fun _ => Owned P creators := by
  have hms : ∀ m ∈ authenticated ++ [requireCsrfHeader, validateRouteIdParams], Transparent P m := by
    rw [List.forall_mem_append]
    simp only [List.forall_mem_cons]
    exact ⟨transparent_authenticated, transparent_requireCsrfHeader,
      transparent_validateRouteIdParams, by simp⟩
  refine satE_route hms (fun response s hdenied h => (note_denied hdenied).symm ▸ h) fun req' _ => ?_
  refine SatE.bind (satE_service (satE_update req'.id patch)) fun updated => ?_
  cases updated with
  | none => exact SatE.pure fun _ h => h
  | some updated => exact SatE.pure fun _ h => h

/-- **Every request** keeps what the owners are. -/
theorem Owned.step {maxPerSubscriber : ℕ} {w : World} (h : Owned P w.creators w.store) (t : Turn) :
    Owned P (routeStep P config maxPerSubscriber w t).creators
      (routeStep P config maxPerSubscriber w t).store := by
  have hsat : SatE (machine P) t.caller undisturbed (t.call.route P config maxPerSubscriber t.request)
      (Owned P w.creators) (fun response => Owned P (note t.request w.creators (.ok response)))
      fun _ => Owned P w.creators := by
    cases t.call with
    | post body => exact satE_postWebhooks maxPerSubscriber body t.request
    | patch p => exact satE_patchWebhook p t.request
    | delete =>
      refine (satE_deleteWebhook t.request).mono (fun _ h => h) (fun response s h => ?_) fun _ _ h => h
      rw [note_denied h.1]
      exact h.2
  have hend := Sat.runWith hsat t.env (fun _ _ _ => trivial) h
  unfold routeStep respond
  split at hend
  · rename_i response heq
    dsimp only
    rw [heq]
    exact hend
  · rename_i e heq
    dsimp only
    rw [heq]
    exact hend

/-- **The owner survives storage**: after any requests, a webhook is stored with the address of
the client that created it. -/
theorem owner_recorded (P : Platform) (config : Config) (maxPerSubscriber : ℕ) (turns : List Turn)
    {id o : String} {r : WebhookRecord}
    (ho : (run (routeStep P config maxPerSubscriber) World.init turns).creators id = some o)
    (hr : (run (routeStep P config maxPerSubscriber) World.init turns).store.webhooks id = some r) :
    r.owner_ip = (some o).filter (· ≠ "") := by
  have howned : Owned P (run (routeStep P config maxPerSubscriber) World.init turns).creators
      (run (routeStep P config maxPerSubscriber) World.init turns).store :=
    run_inv_of_step (I := fun w : World => Owned P w.creators w.store) (fun _ t h => h.step t) Owned.init
  exact howned.owner id o r ho hr

/-! ## 7. Deletion -/

/-- Deleting a webhook, when it is stored and its creator is known, is authorised exactly for the
creator: it removes the webhook, or leaves it as it is. -/
def Authorised (w : World) (s' : Store) (id client : String) : Prop :=
  ∀ o, w.creators id = some o → w.store.webhooks id ≠ none →
    (s'.webhooks id = none ↔ client = o) ∧
      (client ≠ o → s'.webhooks id = w.store.webhooks id)

/-- The response to `DELETE` and what it leaves, whichever commands fail. -/
def deletion (P : Platform) (config : Config) (s : Store) (caller : Caller) (req : HttpRequest)
    (env : ℕ → Env) : Except Err Response × Store :=
  (deleteWebhook P config req).prog.runWith (machine P) caller env s

/-- **Deletion is authorised** exactly for the requests that do not come from the creator of a
stored webhook: whatever was requested before, nobody can delete anything. -/
theorem delete_authorised_iff (P : Platform) (config : Config) (maxPerSubscriber : ℕ)
    (turns : List Turn) (caller : Caller) (req : HttpRequest) (env : ℕ → Env) :
    Authorised (run (routeStep P config maxPerSubscriber) World.init turns)
        (deletion P config (run (routeStep P config maxPerSubscriber) World.init turns).store caller
          req env).2 req.id (clientIpFromRequest req) ↔
      ((run (routeStep P config maxPerSubscriber) World.init turns).store.webhooks req.id ≠ none →
        (run (routeStep P config maxPerSubscriber) World.init turns).creators req.id ≠
          some (clientIpFromRequest req)) := by
  generalize run (routeStep P config maxPerSubscriber) World.init turns = w
  have hsame : (deletion P config w.store caller req env).2 = w.store := by
    have hsat : SatE (machine P) caller undisturbed (deleteWebhook P config req) (· = w.store)
        (fun response s => response.Denies ∧ s = w.store) fun _ s => s = w.store :=
      satE_deleteWebhook req
    have hend := Sat.runWith hsat env (fun _ _ _ => trivial) rfl
    unfold deletion
    split at hend
    · exact hend.2
    · exact hend
  rw [hsame]
  constructor
  · intro h hstored hcreator
    obtain ⟨hremoved, -⟩ := h _ hcreator hstored
    exact hstored (hremoved.mpr rfl)
  · intro h o hcreator hstored
    have hother : clientIpFromRequest req ≠ o := by
      rintro rfl
      exact h hstored hcreator
    exact ⟨⟨fun hremoved => absurd hremoved hstored, fun heq => absurd heq hother⟩, fun _ => rfl⟩

/-- The request carries a valid API key of the right scope, and the required header. -/
structure Authentic (req : HttpRequest) (apiKey : ApiKey) (env : ℕ → Env) : Prop where
  token : (extractBearerToken (req.header "authorization")).isSome
  known : ∀ n, (env n).apiKey = .ok (some apiKey)
  allowed : hasScopes apiKey ["webhooks"] = true
  requested : req.header "x-requested-with" = some (.one "XMLHttpRequest")

/-- A client with an API key. -/
def sampleRequest (id : String) : HttpRequest where
  header name :=
    if name = "authorization" then some (.one "Bearer sk_0")
    else if name = "x-requested-with" then some (.one "XMLHttpRequest")
    else none
  ip := some "203.0.113.5"
  id

def sampleKey : ApiKey := ⟨"key_0", ["webhooks"]⟩

/-- The key is valid, and the target of the webhook has a public address. -/
def sampleEnv (_ : ℕ) : Env where
  webhook := { now := 1, lookup := .ok ["93.184.216.34"] }
  apiKey := .ok (some sampleKey)

/-- The client creates a webhook. -/
def samplePost : Turn where
  caller := ⟨0, none⟩
  request := sampleRequest ""
  call := .post ⟨"https://example.com", ["pool.created"], some "whsec_sample", none, none⟩
  env := sampleEnv

/-- The client has created a webhook. -/
def sampleWorld : World := routeStep samplePlatform sampleConfig 100 World.init samplePost

/-- The owner of a webhook cannot delete it. -/
theorem owner_cannot_delete :
    Authentic (sampleRequest "wh_") sampleKey sampleEnv ∧
      clientIpFromRequest (sampleRequest "wh_") = clientIpFromRequest samplePost.request ∧
      sampleWorld.creators "wh_" = some "203.0.113.5" ∧
      (deletion samplePlatform sampleConfig sampleWorld.store ⟨0, none⟩ (sampleRequest "wh_")
        sampleEnv).1 = .ok (.refusal 401 "Authentication required") ∧
      ¬ Authorised sampleWorld (deletion samplePlatform sampleConfig sampleWorld.store ⟨0, none⟩
        (sampleRequest "wh_") sampleEnv).2 "wh_" (clientIpFromRequest (sampleRequest "wh_")) := by
  have hcreator : sampleWorld.creators "wh_" = some "203.0.113.5" := by decide +kernel
  have hclient : clientIpFromRequest (sampleRequest "wh_") = "203.0.113.5" := by decide +kernel
  have hleft : (deletion samplePlatform sampleConfig sampleWorld.store ⟨0, none⟩ (sampleRequest "wh_")
      sampleEnv).2.webhooks "wh_" ≠ none := by decide +kernel
  refine ⟨⟨?_, fun n => rfl, ?_, rfl⟩, rfl, hcreator, ?_, fun h => ?_⟩
  · decide +kernel
  · decide +kernel
  · decide +kernel
  · have hstored : sampleWorld.store.webhooks "wh_" ≠ none := by decide +kernel
    exact hleft ((h _ hcreator hstored).1.mpr hclient)

end SmartDrop.Webhooks.Routes
