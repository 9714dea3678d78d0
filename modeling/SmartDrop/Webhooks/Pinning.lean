/-
# The address that is tested and the address that is used

Before each request the guard resolves the host of the URL and tests what it found; the target
it pins is dropped, and the HTTP client is given the URL and looks the host up again.  With a
host name the two lookups can differ, so the address that is connected to need not be one that
was tested.  With an address as host there is nothing to look up, and a URL that is neither
`http` nor `https` is always refused: these are exactly the URLs for which every attempt
connects to what it tested (`pinned_iff`).
-/
import SmartDrop.Webhooks.Attempt

namespace SmartDrop.Webhooks

open Conc dispatcher

variable (P : Platform) (config : Config)

/-! ## 1. Statements -/

/-- Every connection that is made for `url` goes to an address that the guard resolved and
tested in this traffic. -/
def Pinned (url : String) (traffic : List (Caller × Traffic)) : Prop :=
  ∀ t ∈ traffic, ∀ request address, t.2 = .posted request (some address) → request.url = url →
    ∃ addresses, (t.1, .passed url addresses) ∈ traffic ∧ address ∈ addresses ∧
      ∀ a ∈ addresses, isPrivateIp P a = false

/-- What is seen on the network of one attempt. -/
def attemptTraffic (s : Store) (proc : ℕ) (d : String) (sequence : Option ℕ) (xs : ℕ → Env) :
    List (Caller × Traffic) :=
  ((attempt P config d sequence).prog.runWith (machine P) ⟨proc, some d⟩ xs
    { s with traffic := [] }).2.traffic

variable {P} {config} {url : String}

theorem Pinned.cons {traffic : List (Caller × Traffic)} (h : Pinned P url traffic)
    {entry : Caller × Traffic} (hentry : ∀ request address, entry.2 = .posted request (some address) →
      request.url = url → ∃ addresses, (entry.1, .passed url addresses) ∈ traffic ∧
        address ∈ addresses ∧ ∀ a ∈ addresses, isPrivateIp P a = false) :
    Pinned P url (entry :: traffic) := by
  intro t ht request address hposted hurl
  rcases List.mem_cons.mp ht with rfl | ht
  · obtain ⟨addresses, hmem, haddress⟩ := hentry request address hposted hurl
    exact ⟨addresses, List.mem_cons_of_mem _ hmem, haddress⟩
  · obtain ⟨addresses, hmem, haddress⟩ := h t ht request address hposted hurl
    exact ⟨addresses, List.mem_cons_of_mem _ hmem, haddress⟩

/-! ## 2. URLs that are safe -/

/-- The client is given an address, or the guard never lets the URL pass. -/
def FixedTarget (P : Platform) (url : String) : Prop :=
  hostIsLiteral P url = true ∨ ∃ e, assertProtocol P url = .error e

/-- What the guard has let pass for a URL with a fixed target is what a client connects to. -/
theorem FixedTarget.connect (h : FixedTarget P url) {lookup : Except Thrown (List String)}
    {target : Target} {addresses : List String}
    (hpass : assertPublicTarget P url lookup = .ok (target, addresses)) {found : Except Thrown String}
    {address : String} (hc : connectAddress P url found = .ok address) : address ∈ addresses := by
  rcases h with hlit | ⟨e, he⟩
  · exact connectAddress_mem hpass hlit hc
  · rw [assertPublicTarget, he] at hpass
    cases hpass

/-- A round for any URL keeps the connections for `url` pinned. -/
theorem pinned_makeRound (h : FixedTarget P url) (caller : Caller) (webhook : Webhook)
    (headers : List (String × String)) (body : String) :
    SatE (machine P) caller solo (makeRound config webhook headers body)
      (fun s => Pinned P url s.traffic) (fun _ s => Pinned P url s.traffic)
      fun _ s => Pinned P url s.traffic := by
  refine SatE.bind (Q := fun r s => Pinned P url s.traffic ∧ ∀ target, r = .ok target →
    ∃ lookup addresses, assertPublicTarget P webhook.url lookup = .ok (target, addresses) ∧
      (caller, .passed webhook.url addresses) ∈ s.traffic) ?_ ?_
  · refine satE_solo_local rfl ?_
    intro x s hs
    simp only [Store.exec]
    split
    · exact ⟨hs.cons fun _ _ ht => (by cases ht), fun _ hr => (by cases hr)⟩
    · rename_i target addresses hpass
      refine ⟨hs.cons fun _ _ ht => (by cases ht), ?_⟩
      rintro _ ⟨⟩
      exact ⟨x.lookup, addresses, hpass, List.mem_cons_self⟩
  · rintro (err | target)
    · exact SatE.pure fun _ hs => hs.1
    · refine SatE.bind (Q := fun _ s => Pinned P url s.traffic) ?_ ?_
      · refine satE_solo_local rfl ?_
        rintro x s ⟨hs, hpassed⟩
        obtain ⟨lookup, addresses, hpass, hmem⟩ := hpassed target rfl
        simp only [Store.exec]
        split
        · exact hs.cons fun _ _ ht => by cases ht
        · rename_i address hc
          refine hs.cons ?_
          rintro request a ⟨⟩ rfl
          exact ⟨addresses, hmem, h.connect hpass hc, addresses_public hpass⟩
      · rintro (err | status) <;> exact SatE.pure fun _ hs => hs

/-- So does an attempt. -/
theorem pinned_attempt (h : FixedTarget P url) (caller : Caller) (d : String) (sequence : Option ℕ) :
    SatE (machine P) caller solo (attempt P config d sequence)
      (fun s => Pinned P url s.traffic) (fun _ s => Pinned P url s.traffic)
      fun _ s => Pinned P url s.traffic := by
  have quiet : ∀ {α : Type} {t : Code α}, Uses Op.Quiet t → Uses Op.Silent t :=
    fun ht => uses_silent (uses_recording ht d)
  refine SatE.bind (satE_silent (quiet (uses_findById d))) ?_
  rintro (_ | delivery)
  · exact SatE.pure fun _ hs => hs
  dsimp only
  split
  · exact SatE.pure fun _ hs => hs
  refine SatE.bind (satE_silent (uses_silent (uses_ensureTrace d delivery))) ?_
  intro traceId
  refine SatE.bind (satE_silent (silent_getWebhookForAttempt config _)) ?_
  rintro (_ | webhook)
  · exact satE_silent (uses_silent (uses_markInactive d))
  dsimp only
  split
  · refine SatE.bind (satE_silent (quiet (uses_encryptBody P _ _))) ?_
    intro encryptedPayload
    refine SatE.bind (satE_silent (quiet (uses_buildHeaders P _ _ _ _ _ _))) ?_
    intro headers
    refine SatE.bind (satE_silent (uses_redis (by trivial))) ?_
    intro started
    refine SatE.bind (satE_silent (uses_redis (by trivial))) ?_
    intro _
    refine SatE.bind (pinned_makeRound h caller webhook _ _) ?_
    intro outcome
    refine SatE.bind (satE_silent (uses_redis (by trivial))) ?_
    intro now
    refine SatE.bind (satE_silent (uses_redis (by trivial))) ?_
    intro ended
    exact satE_silent (uses_silent (uses_recordOutcome config d _ _ _ _ _ _))
  · exact satE_silent (uses_silent (uses_markInactive d))

/-! ## 3. URLs that are not -/

/-- The sample store, its webhook having this URL. -/
def storeWith (url : String) : Store :=
  { sampleStore with
    webhooks := Function.update sampleStore.webhooks "wh_0" (some { sampleRecord with url }) }

/-- The guard's lookup finds a public address, and the next one a private address. -/
def rebinding : Env := { answering 200 with connect := .ok "10.0.0.7" }

/-- What is seen of an attempt that the name server has led astray. -/
def Astray (url : String) (traffic : List (Caller × Traffic)) : Prop :=
  ∃ request, request.url = url ∧ traffic =
    [(⟨0, some "dlv_0"⟩, .posted request (some "10.0.0.7")),
      (⟨0, some "dlv_0"⟩, .passed url ["93.184.216.34"])]

theorem Astray.not_pinned {traffic : List (Caller × Traffic)} (h : Astray url traffic) :
    ¬ Pinned P url traffic := by
  obtain ⟨request, hurl, rfl⟩ := h
  intro hpinned
  obtain ⟨addresses, hmem, haddress, -⟩ :=
    hpinned _ List.mem_cons_self request "10.0.0.7" rfl hurl
  obtain rfl : addresses = ["93.184.216.34"] := by simpa using hmem
  exact absurd haddress (by decide)

/-- A host name that the guard resolves to the public address passes. -/
theorem guard_passes (hpublic : P.isIPv4 "93.184.216.34" = true) (h : ¬ FixedTarget P url) :
    ∃ target, assertPublicTarget P url rebinding.lookup = .ok (target, ["93.184.216.34"]) := by
  obtain ⟨hlit, hproto⟩ := not_or.mp h
  have hprivate : isPrivateIp P "93.184.216.34" = false := by
    have htext : "93.184.216.34".toList =
        ['9', '3', '.', '1', '8', '4', '.', '2', '1', '6', '.', '3', '4'] := String.toList_ofList
    have htrim : JsText.trim "93.184.216.34" = "93.184.216.34" :=
      String.toList_inj.mp
        ((JsText.trim_noSpace (List.all_iff_forall_prop.mp (by decide))).trans htext.symm)
    have hv4 : isPrivateIpv4 "93.184.216.34" = false := by
      rw [isPrivateIpv4, htext]
      decide +kernel
    rw [isPrivateIp, htrim, hpublic, hv4]
    rfl
  cases hp : assertProtocol P url with
  | error e => exact absurd ⟨e, hp⟩ hproto
  | ok parsed =>
    have hurl : P.parseURL url = some parsed := by
      rw [assertProtocol] at hp
      split at hp
      · cases hp
      · split at hp <;> simp_all
    have hname : isIP P (normalizeHostname parsed.hostname) = false := by
      simpa [hostIsLiteral, hurl] using hlit
    have hresolve : resolveAddresses P parsed.hostname rebinding.lookup =
        .ok ["93.184.216.34"] := by
      rw [resolveAddresses, hname]
      rfl
    simp only [assertPublicTarget, hp, hresolve, pinTarget, List.any_cons, hprivate, List.any_nil,
      Bool.or_self, bind, Except.bind, Bool.false_eq_true, if_false, pure, Except.pure]
    exact ⟨_, rfl⟩

/-- The client looks the name up again and connects to what it finds. -/
theorem client_connects (h : ¬ FixedTarget P url) :
    connectAddress P url rebinding.connect = .ok "10.0.0.7" := by
  obtain ⟨hlit, hproto⟩ := not_or.mp h
  rw [connectAddress]
  split
  · rename_i hurl
    exact absurd ⟨_, by rw [assertProtocol, hurl]⟩ hproto
  · rename_i parsed hurl
    have hname : isIP P (normalizeHostname parsed.hostname) = false := by
      simpa [hostIsLiteral, hurl] using hlit
    rw [hname]
    rfl

/-- One step of an attempt in the rebinding environment. -/
theorem satE_rebinding {caller : Caller} {op : Op} {I : Store → Prop} {Q : op.Ret → Store → Prop}
    {E : Err → Store → Prop}
    (h : ∀ s, I s → Q (s.exec P caller rebinding op).1 (s.exec P caller rebinding op).2) :
    SatE (machine P) caller (.alone fun _ x _ => x = rebinding) (redis op) I Q E := by
  refine satE_faultless ?_ ?_
  · rintro x s rfl
    rfl
  · rintro x s rfl hs
    exact h s hs

/-- A URL without a fixed target leads an attempt astray. -/
theorem astray_makeRound (hpublic : P.isIPv4 "93.184.216.34" = true) (h : ¬ FixedTarget P url)
    {webhook : Webhook} (hw : webhook.url = url) (headers : List (String × String)) (body : String)
    {E : Err → Store → Prop} :
    SatE (machine P) ⟨0, some "dlv_0"⟩ (.alone fun _ x _ => x = rebinding)
      (makeRound config webhook headers body) (fun s => s.traffic = [])
      (fun _ s => Astray url s.traffic) E := by
  obtain ⟨target, hpass⟩ := guard_passes hpublic h
  refine SatE.bind (Q := fun r s => r = .ok target ∧ s.traffic =
    [(⟨0, some "dlv_0"⟩, .passed url ["93.184.216.34"])]) ?_ ?_
  · refine satE_rebinding ?_
    intro s hs
    simp only [Store.exec, hw, hpass, Store.log, hs]
    exact ⟨trivial, trivial⟩
  · intro r
    refine SatE.assume ?_
    rintro rfl
    refine SatE.bind (Q := fun _ s => Astray url s.traffic) ?_ ?_
    · refine satE_rebinding ?_
      intro s hs
      simp only [Store.exec, hw, client_connects h, Store.log, hs]
      exact ⟨_, rfl, rfl⟩
    · rintro (err | status) <;> exact SatE.pure fun _ hs => hs

/-- The webhook as an attempt finds it. -/
def FoundWith (url : String) (found : Option Webhook) : Prop :=
  ∃ webhook, found = some webhook ∧ webhook.url = url ∧ webhook.active = true ∧
    webhook.secret = some "whsec_sample"

variable (P) (config) in
/-- A legacy secret is read as it is. -/
theorem decrypt_legacy : decryptRecordSecret P config "whsec_sample" = some "whsec_sample" := by
  have hlegacy : isEncrypted "whsec_sample" = false := by
    rw [isEncrypted, show "whsec_".toList = ['w', 'h', 's', 'e', 'c', '_'] from String.toList_ofList,
      show "whsec_sample".toList = ['w', 'h', 's', 'e', 'c', '_', 's', 'a', 'm', 'p', 'l', 'e'] from
        String.toList_ofList]
    rfl
  rw [decryptRecordSecret, hlegacy]
  rfl

/-- It is read from the store, the cache being empty. -/
theorem astray_getWebhook {E : Err → Store → Prop} :
    SatE (machine P) ⟨0, some "dlv_0"⟩ (.alone fun _ x _ => x = rebinding)
      (getWebhookForAttempt P config "wh_0") (· = storeWith url)
      (fun found s => FoundWith url found ∧ s.traffic = []) E := by
  refine SatE.bind (Q := fun found s => found = none ∧ s = storeWith url) ?_ ?_
  · refine satE_rebinding ?_
    rintro s rfl
    exact ⟨rfl, rfl⟩
  intro found
  refine SatE.assume ?_
  rintro rfl
  refine SatE.bind (Q := fun found s => FoundWith url found ∧ s.traffic = []) ?_ ?_
  · refine SatE.tryCatch (E := fun _ _ => False) ?_ fun e => SatE.pure fun _ hf => hf.elim
    refine SatE.bind (Q := fun record s => record = some { sampleRecord with url } ∧
      s.traffic = []) ?_ ?_
    · refine satE_rebinding ?_
      rintro s rfl
      exact ⟨rfl, rfl⟩
    · intro record
      refine SatE.pure ?_
      rintro s ⟨rfl, hs⟩
      have hsecret : (normalize P config { sampleRecord with url }).secret =
          some "whsec_sample" := by
        simp only [normalize, sampleRecord, decrypt_legacy]
      exact ⟨⟨_, rfl, rfl, rfl, hsecret⟩, hs⟩
  intro found
  refine SatE.assume ?_
  rintro ⟨webhook, rfl, hwebhook⟩
  refine SatE.bind (Q := fun _ s => s.traffic = []) ?_ ?_
  · exact satE_rebinding fun s hs => hs
  · intro _
    exact SatE.pure fun s hs => ⟨⟨webhook, rfl, hwebhook⟩, hs⟩

/-- The headers can be built. -/
theorem astray_buildHeaders (body eventType deliveryId : String) (requestId : Option String)
    (sequence : Option ℕ) {E : Err → Store → Prop} :
    SatE (machine P) ⟨0, some "dlv_0"⟩ (.alone fun _ x _ => x = rebinding)
      (buildHeaders P (some "whsec_sample") body eventType deliveryId requestId sequence)
      (fun s => s.traffic = []) (fun _ s => s.traffic = []) E := by
  refine SatE.bind (Q := fun _ s => s.traffic = []) (satE_rebinding fun s hs => hs) ?_
  intro now
  refine SatE.bind (Q := fun _ s => s.traffic = []) (satE_rebinding fun s hs => hs) ?_
  intro nonce
  exact SatE.pure fun _ hs => hs

/-- The attempt at the sample delivery, for a URL without a fixed target. -/
theorem astray_attempt (hpublic : P.isIPv4 "93.184.216.34" = true) (h : ¬ FixedTarget P url) :
    SatE (machine P) ⟨0, some "dlv_0"⟩ (.alone fun _ x _ => x = rebinding)
      (attempt P config "dlv_0" none) (· = storeWith url) (fun _ s => Astray url s.traffic)
      fun _ s => Astray url s.traffic := by
  refine SatE.bind (Q := fun found s => found = some sampleDelivery ∧ s = storeWith url) ?_ ?_
  · refine SatE.tryCatch (E := fun _ _ => False) ?_ fun e => SatE.pure fun _ hf => hf.elim
    refine satE_rebinding ?_
    rintro s rfl
    exact ⟨rfl, rfl⟩
  intro found
  refine SatE.assume ?_
  rintro rfl
  refine SatE.bind (Q := fun _ s => s = storeWith url) (SatE.pure fun _ hs => hs) ?_
  intro traceId
  refine SatE.bind astray_getWebhook ?_
  intro found
  refine SatE.assume ?_
  rintro ⟨webhook, rfl, hurl, hactive, hsecret⟩
  dsimp only
  rw [if_pos hactive, attemptActive, hsecret]
  refine SatE.bind (Q := fun _ s => s.traffic = []) ?_ ?_
  · exact SatE.bind (Q := fun _ s => s.traffic = []) (satE_rebinding fun s hs => hs) fun _ =>
      SatE.pure fun _ hs => hs
  intro encryptedPayload
  refine SatE.bind (astray_buildHeaders _ _ _ _ _) ?_
  intro headers
  refine SatE.bind (Q := fun _ s => s.traffic = []) (satE_rebinding fun s hs => hs) ?_
  intro started
  refine SatE.bind (Q := fun _ s => s.traffic = []) (satE_rebinding fun s hs => hs) ?_
  intro _
  refine SatE.bind (astray_makeRound hpublic h hurl _ _) ?_
  intro outcome
  refine SatE.bind (satE_silent (I := Astray url) (uses_redis (by trivial))) ?_
  intro now
  refine SatE.bind (satE_silent (I := Astray url) (uses_redis (by trivial))) ?_
  intro ended
  exact satE_silent (I := Astray url) (uses_silent (uses_recordOutcome config "dlv_0" _ _ _ _ _ _))

/-! ## 4. Every URL -/

/-- **Attempts at a URL connect to what was tested exactly when its target is fixed.**  For a
URL: in every state, whatever the lookups answer and whatever fails, each connection that an
attempt makes for it goes to an address that the guard resolved and found public in the same
attempt, if and only if the host of the URL is an address or its scheme is never let pass. -/
theorem pinned_iff (P : Platform) (config : Config) (hpublic : P.isIPv4 "93.184.216.34" = true)
    (url : String) :
    (∀ (s : Store) (proc : ℕ) (d : String) (sequence : Option ℕ) (xs : ℕ → Env),
      Pinned P url (attemptTraffic P config s proc d sequence xs)) ↔ FixedTarget P url := by
  constructor
  · intro hall
    by_contra h
    have hend := Sat.runWith (@astray_attempt P config url hpublic h) (fun _ => rebinding)
      (fun _ _ _ => rfl) (rfl : { storeWith url with traffic := [] } = storeWith url)
    have hastray : Astray url (attemptTraffic P config (storeWith url) 0 "dlv_0" none
        fun _ => rebinding) := by
      split at hend <;> exact hend
    exact hastray.not_pinned (hall _ _ _ _ _)
  · intro h s proc d sequence xs
    have hempty : Pinned P url ({ s with traffic := [] } : Store).traffic :=
      fun _ ht => (nomatch ht)
    have hend := Sat.runWith (@pinned_attempt P config url h ⟨proc, some d⟩ d sequence) xs
      (fun _ _ _ => trivial) hempty
    split at hend <;> exact hend

/-- The sample webhook's request goes to the private address. -/
def postedInside : Traffic → Bool
  | .posted request (some address) => request.url = "https://hooks.example" && address = "10.0.0.7"
  | _ => false

/-- A lookup that the guard has let through does not have the private address. -/
def passedOutside : Traffic → Bool
  | .passed _ addresses => "10.0.0.7" ∉ addresses
  | _ => true

/-- The sample webhook has a host name, and its request goes to the private address. -/
theorem rebound_post : ¬ ∀ (s : Store) (proc : ℕ) (d : String) (sequence : Option ℕ)
    (xs : ℕ → Env), Pinned samplePlatform "https://hooks.example"
      (attemptTraffic samplePlatform sampleConfig s proc d sequence xs) := by
  intro h
  have hastray : (attemptTraffic samplePlatform sampleConfig sampleStore 0 "dlv_0" none
      fun _ => rebinding).any fun t => postedInside t.2 := by
    decide +kernel
  have htested : (attemptTraffic samplePlatform sampleConfig sampleStore 0 "dlv_0" none
      fun _ => rebinding).all fun t => passedOutside t.2 := by
    decide +kernel
  obtain ⟨t, ht, hposted⟩ := List.any_eq_true.mp hastray
  unfold postedInside at hposted
  split at hposted
  · rename_i request address hrequest
    obtain ⟨hurl, rfl⟩ : request.url = "https://hooks.example" ∧ address = "10.0.0.7" := by
      simpa using hposted
    obtain ⟨addresses, hmem, haddress, -⟩ :=
      h sampleStore 0 "dlv_0" none _ t ht request "10.0.0.7" hrequest hurl
    have := List.all_eq_true.mp htested _ hmem
    exact absurd haddress (by simpa [passedOutside] using this)
  · cases hposted

/-- The equivalence for the URL of the sample webhook. -/
theorem pinned_iff_sample : (∀ (s : Store) (proc : ℕ) (d : String) (sequence : Option ℕ)
    (xs : ℕ → Env), Pinned samplePlatform "https://hooks.example"
      (attemptTraffic samplePlatform sampleConfig s proc d sequence xs)) ↔
    FixedTarget samplePlatform "https://hooks.example" :=
  pinned_iff samplePlatform sampleConfig ((congrArg (List.all · fun c => JsText.isDigit c || c == '.')
    String.toList_ofList).trans (by decide)) "https://hooks.example"

end SmartDrop.Webhooks
