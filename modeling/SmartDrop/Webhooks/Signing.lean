/-
# What is signed and what is sent

An attempt signs the plaintext of its payload and then sends the encryption of it.  A receiver
computes the digest of what it received, so with the secret of the webhook it refuses every
request that is ever made (`posted_never_verifies`): at any time, for any tolerance, whatever the
payload is and however often the attempt is repeated.
-/
import SmartDrop.Lib.JsonRoundTrip
import SmartDrop.Webhooks.Attempt

namespace SmartDrop.Webhooks

open Conc JsonText dispatcher

variable (P : Platform) (config : Config)

/-! ## 1. Statements -/

/-- A receiver with the secret `k` refuses the request, whenever it looks. -/
def RefusedBy (k : String) (request : Request) : Prop :=
  ∃ header, request.headers.lookup "X-SmartDrop-Signature" = some header ∧
    ∀ (now : ℕ) (maxAgeSeconds : ℚ), verify P now k request.body header maxAgeSeconds = false

/-- What the process knows of the webhook `id` has the secret `k`. -/
structure HasSecret (proc : ℕ) (id k : String) (s : Store) : Prop where
  stored : ∀ record, s.webhooks id = some record → decryptRecordSecret P config record.secret = some k
  cached : ∀ entry, (s.processes proc).webhookCache id = some entry → entry.value.secret = some k

/-- Every request that is not in `old` is refused. -/
def NewRefused (k : String) (old : List (Caller × Traffic)) (s : Store) : Prop :=
  ∀ t ∈ s.traffic, t ∈ old ∨ ∀ request address, t.2 = .posted request address →
    RefusedBy P k request

/-- What holds while an attempt at a delivery to the webhook `id` runs. -/
def Signing (proc : ℕ) (id k : String) (old : List (Caller × Traffic)) (s : Store) : Prop :=
  HasSecret P config proc id k s ∧ NewRefused P k old s

variable {P} {config} {proc : ℕ} {id k : String} {old : List (Caller × Traffic)}

theorem Signing.unseen {s s' : Store} (h : Signing P config proc id k old s) (hu : Unseen s s') :
    Signing P config proc id k old s' := by
  obtain ⟨hsecret, hrefused⟩ := h
  refine ⟨⟨?_, ?_⟩, ?_⟩
  · intro record hrecord
    rw [hu.webhooks] at hrecord
    exact hsecret.stored record hrecord
  · intro entry hentry
    exact hsecret.cached entry (hu.cached proc id entry hentry)
  · intro t ht
    rw [hu.traffic] at ht
    exact hrefused t ht

/-- Traffic that is no request, or a refused one, may be added. -/
theorem Signing.log {s : Store} (h : Signing P config proc id k old s) (caller : Caller)
    {t : Traffic} (ht : ∀ request address, t = .posted request address → RefusedBy P k request) :
    Signing P config proc id k old (s.log caller t) := by
  refine ⟨⟨h.1.stored, h.1.cached⟩, ?_⟩
  intro entry hentry
  rcases List.mem_cons.mp hentry with rfl | hentry
  · exact Or.inr ht
  · exact h.2 entry hentry

/-! ## 2. The webhook that an attempt loads -/

section

variable (P) (config) (proc) (id) (k) (old) in
/-- The webhook that was found has the secret. -/
def Loaded (found : Option Webhook) (s : Store) : Prop :=
  (∀ webhook, found = some webhook → webhook.secret = some k) ∧ Signing P config proc id k old s

variable {d : Option String}

/-- The cache answers with the secret, or not at all. -/
theorem satE_cachedWebhook :
    SatE (machine P) ⟨proc, d⟩ solo (redis (.cachedWebhook id)) (Signing P config proc id k old)
      (Loaded P config proc id k old) fun _ => Signing P config proc id k old := by
  refine satE_solo_local rfl ?_
  intro x s h
  have hop : (Op.cachedWebhook id).Recording "" := trivial
  refine ⟨?_, h.unseen (hop.unseen ⟨proc, d⟩ x s)⟩
  intro webhook hw
  simp only [Store.exec] at hw
  split at hw
  · cases hw
  · rename_i entry hentry
    split at hw
    · rw [← Option.some.inj hw]
      exact h.1.cached entry hentry
    · cases hw

/-- So does the store. -/
theorem satE_webhookById :
    SatE (machine P) ⟨proc, d⟩ solo (webhookRepository.findById P config id)
      (Signing P config proc id k old) (Loaded P config proc id k old)
      fun _ => Signing P config proc id k old := by
  refine SatE.tryCatch (E := fun _ => Signing P config proc id k old) ?_ ?_
  · refine SatE.bind (Q := fun record s => (∀ r, record = some r →
      decryptRecordSecret P config r.secret = some k) ∧ Signing P config proc id k old s) ?_ ?_
    · exact satE_solo (fun x s h => ⟨h.1.stored, h⟩) fun e x s h => ⟨h, h⟩
    · intro record
      refine SatE.pure ?_
      rintro s ⟨hsecret, h⟩
      refine ⟨?_, h⟩
      intro webhook hw
      obtain ⟨r, hr, rfl⟩ := Option.map_eq_some_iff.mp hw
      exact hsecret r hr
  · intro e
    refine SatE.pure ?_
    intro s h
    exact ⟨fun _ hw => (nomatch hw), h⟩

/-- What has the secret may be cached. -/
theorem satE_cacheWebhook {webhook : Webhook} (hsecret : webhook.secret = some k) :
    SatE (machine P) ⟨proc, d⟩ solo (redis (.cacheWebhook webhook)) (Signing P config proc id k old)
      (fun _ => Signing P config proc id k old) fun _ => Signing P config proc id k old := by
  refine satE_solo_local rfl ?_
  rintro x s ⟨hstored, hrefused⟩
  refine ⟨⟨hstored.stored, ?_⟩, hrefused⟩
  intro entry hentry
  simp only [Store.exec, Store.onProcess, Function.update_self] at hentry
  by_cases hid : id = webhook.id
  · subst hid
    rw [Function.update_self] at hentry
    rw [← Option.some.inj hentry]
    exact hsecret
  · rw [Function.update_of_ne hid] at hentry
    exact hstored.cached entry hentry

/-- The webhook is found with its secret. -/
theorem satE_getWebhook :
    SatE (machine P) ⟨proc, d⟩ solo (getWebhookForAttempt P config id)
      (Signing P config proc id k old) (Loaded P config proc id k old)
      fun _ => Signing P config proc id k old := by
  refine SatE.bind satE_cachedWebhook ?_
  rintro (_ | webhook)
  · refine SatE.bind (SatE.mono satE_webhookById (fun s h => h.2) (fun _ _ h => h) fun _ _ h => h) ?_
    rintro (_ | webhook)
    · exact SatE.pure fun _ h => h
    · refine SatE.assume ?_
      intro hsecret
      refine SatE.bind (satE_cacheWebhook (hsecret webhook rfl)) ?_
      intro _
      exact SatE.pure fun s h => ⟨hsecret, h⟩
  · exact SatE.pure fun _ h => h

end

/-! ## 3. The attempt -/

section

variable (hinj : ∀ key, Function.Injective (P.hmacSha256 key))
  (hne : ∀ key iv text, pack P key iv text ≠ text) (hk : k ≠ "") {d : Option String}

include hne hk in
/-- The body is encrypted, and what is sent is not what was signed. -/
theorem satE_encryptBody (payload : Json) :
    SatE (machine P) ⟨proc, d⟩ solo (encryptBody P (stringify payload) (some k))
      (Signing P config proc id k old)
      (fun packed s => (∃ text, packed = some text ∧ text ≠ stringify payload) ∧
        Signing P config proc id k old s)
      fun _ => Signing P config proc id k old := by
  refine SatE.bind (Q := fun _ => Signing P config proc id k old) ?_ ?_
  · exact satE_solo_local rfl fun x s h => h.unseen ⟨rfl, rfl, fun _ _ _ he => he⟩
  · intro iv
    refine SatE.pure ?_
    intro s h
    refine ⟨⟨pack P (P.sha256 k) iv (stringify payload), ?_, hne _ _ _⟩, h⟩
    rw [encryptPayload, if_neg (stringify_ne_empty payload)]
    simp [Option.filter, hk, Except.toOption]

include hk in
/-- The signature header is that of `sign` at some time. -/
theorem satE_buildHeaders (body eventType deliveryId : String) (requestId : Option String)
    (sequence : Option ℕ) :
    SatE (machine P) ⟨proc, d⟩ solo
      (buildHeaders P (some k) body eventType deliveryId requestId sequence)
      (Signing P config proc id k old)
      (fun headers s => (∃ t nonce, t < 2 ^ 53 ∧
        headers.lookup "X-SmartDrop-Signature" = some (signatureHeader P t nonce k body)) ∧
        Signing P config proc id k old s)
      fun _ => Signing P config proc id k old := by
  refine SatE.bind (Q := fun now s => now ≤ 8640000000000000 ∧ Signing P config proc id k old s) ?_ ?_
  · exact satE_solo_local rfl fun x s h => ⟨x.now_le, h⟩
  · intro (now : ℕ)
    refine SatE.assume ?_
    intro (hnow : now ≤ 8640000000000000)
    refine SatE.bind (Q := fun _ => Signing P config proc id k old) ?_ ?_
    · exact satE_solo_local rfl fun x s h => h.unseen ⟨rfl, rfl, fun _ _ _ he => he⟩
    · intro nonce
      have hsign : sign P now nonce (some k) body = .ok (signatureHeader P (now / 1000) nonce k body) := by
        simp [sign, Option.filter, hk]
      rw [hsign]
      refine SatE.pure ?_
      intro s h
      refine ⟨⟨now / 1000, nonce, by omega, ?_⟩, h⟩
      simp [List.lookup_cons]

include hinj in
/-- Another body than the one that was signed is refused. -/
theorem refused_of_ne {request : Request} {t : ℕ} {nonce : List UInt8} {body : String}
    (ht : t < 2 ^ 53) (hheader : request.headers.lookup "X-SmartDrop-Signature" =
      some (signatureHeader P t nonce k body)) (hbody : request.body ≠ body) :
    RefusedBy P k request := by
  refine ⟨_, hheader, ?_⟩
  intro now maxAgeSeconds
  by_contra haccepted
  exact hbody (eq_of_verify hinj ht (by simpa using haccepted))

/-- A round adds what `request` is posted with, if anything. -/
theorem satE_makeRound (webhook : Webhook) {headers : List (String × String)} {body : String}
    (hrefused : RefusedBy P k ⟨webhook.url, headers, body, config.timeoutMs⟩) :
    SatE (machine P) ⟨proc, d⟩ solo (makeRound config webhook headers body)
      (Signing P config proc id k old) (fun _ => Signing P config proc id k old)
      fun _ => Signing P config proc id k old := by
  refine SatE.bind (Q := fun _ => Signing P config proc id k old) ?_ ?_
  · refine satE_solo_local rfl ?_
    intro x s h
    simp only [Store.exec]
    split
    · exact h.log _ fun _ _ ht => by cases ht
    · exact h.log _ fun _ _ ht => by cases ht
  · rintro (err | target)
    · exact SatE.pure fun _ h => h
    · refine SatE.bind (Q := fun _ => Signing P config proc id k old) ?_ ?_
      · refine satE_solo_local rfl ?_
        intro x s h
        simp only [Store.exec]
        split
        · refine h.log _ ?_
          rintro request address ⟨⟩
          exact hrefused
        · refine h.log _ ?_
          rintro request address ⟨⟩
          exact hrefused
      · rintro (err | status) <;> exact SatE.pure fun _ h => h

include hinj hne hk in
/-- The attempt at a delivery to an active webhook with the secret. -/
theorem satE_attemptActive (e : String) (delivery : Delivery) {webhook : Webhook}
    (hsecret : webhook.secret = some k) (traceId : String) (sequence : Option ℕ) :
    SatE (machine P) ⟨proc, d⟩ solo (attemptActive P config e delivery webhook traceId sequence)
      (Signing P config proc id k old) (fun _ => Signing P config proc id k old)
      fun _ => Signing P config proc id k old := by
  have hunseen : ∀ s s', Signing P config proc id k old s → Unseen s s' →
      Signing P config proc id k old s' := fun s s' h hu => h.unseen hu
  unfold attemptActive
  rw [hsecret]
  refine SatE.bind (satE_encryptBody hne hk (payloadOf P delivery)) ?_
  intro packed
  refine SatE.assume ?_
  rintro ⟨text, rfl, htext⟩
  refine SatE.bind (satE_buildHeaders hk _ _ _ _ _) ?_
  intro headers
  refine SatE.assume ?_
  rintro ⟨t, nonce, ht, hheader⟩
  refine SatE.bind (satE_unseen (d := e) (uses_redis (by trivial)) hunseen) ?_
  intro started
  refine SatE.bind (satE_unseen (d := e) (uses_redis (by trivial)) hunseen) ?_
  intro _
  have hsent : (sentHeaders headers (some text)).lookup "X-SmartDrop-Signature" =
      some (signatureHeader P t nonce k (stringify (payloadOf P delivery))) := by
    rw [sentHeaders, List.lookup_append, hheader]
    rfl
  refine SatE.bind (satE_makeRound webhook (refused_of_ne hinj ht hsent htext)) ?_
  intro outcome
  refine SatE.bind (satE_unseen (d := e) (uses_redis (by trivial)) hunseen) ?_
  intro now
  refine SatE.bind (satE_unseen (d := e) (uses_redis (by trivial)) hunseen) ?_
  intro ended
  exact satE_unseen (uses_recordOutcome config e _ _ _ _ _ _) hunseen

include hinj hne hk in
/-- The attempt once the record is loaded. -/
theorem satE_attemptLoaded (e : String) {delivery : Delivery} (hid : delivery.webhook_id = id)
    (sequence : Option ℕ) :
    SatE (machine P) ⟨proc, d⟩ solo (attemptLoaded P config e delivery sequence)
      (Signing P config proc id k old) (fun _ => Signing P config proc id k old)
      fun _ => Signing P config proc id k old := by
  have hunseen : ∀ s s', Signing P config proc id k old s → Unseen s s' →
      Signing P config proc id k old s' := fun s s' h hu => h.unseen hu
  unfold attemptLoaded
  rw [hid]
  refine SatE.bind (satE_unseen (uses_ensureTrace e delivery) hunseen) ?_
  intro traceId
  refine SatE.bind satE_getWebhook ?_
  rintro (_ | webhook)
  · exact (satE_unseen (uses_markInactive e) hunseen).mono (fun _ h => h.2) (fun _ _ h => h)
      fun _ _ h => h
  · refine SatE.assume ?_
    intro hsecret
    dsimp only
    split
    · exact satE_attemptActive hinj hne hk e delivery (hsecret webhook rfl) traceId sequence
    · exact satE_unseen (uses_markInactive e) hunseen

include hinj hne hk in
/-- **The attempt** at a delivery to a webhook with the secret. -/
theorem satE_attempt {s : Store} (e : String) (sequence : Option ℕ)
    (hsecret : ∀ delivery, s.deliveries e = some delivery →
      HasSecret P config proc delivery.webhook_id k s) :
    SatE (machine P) ⟨proc, d⟩ solo (attempt P config e sequence) (· = s)
      (fun _ => NewRefused P k s.traffic) fun _ => NewRefused P k s.traffic := by
  refine SatE.bind (Q := fun found s' => (∀ delivery, found = some delivery →
    s.deliveries e = some delivery) ∧ s'.webhooks = s.webhooks ∧
      s'.processes = s.processes ∧ s'.traffic = s.traffic) ?_ ?_
  · refine SatE.tryCatch (E := fun _ s' => s' = s) ?_ ?_
    · refine satE_solo ?_ fun e x s' h => ⟨h, h⟩
      rintro x s' rfl
      exact ⟨fun _ h => h, rfl, rfl, rfl⟩
    · intro e
      refine SatE.pure ?_
      rintro s' rfl
      exact ⟨fun _ h => (nomatch h), rfl, rfl, rfl⟩
  · intro found
    refine SatE.assume ?_
    intro hfound
    have hold : ∀ s', s'.traffic = s.traffic → NewRefused P k s.traffic s' := by
      intro s' hs' t ht
      exact Or.inl (hs' ▸ ht)
    rcases found with _ | delivery
    · exact SatE.pure fun s' h => hold s' h.2.2
    · dsimp only
      split
      · exact SatE.pure fun s' h => hold s' h.2.2
      · refine SatE.mono (satE_attemptLoaded hinj hne hk e rfl sequence) ?_
          (fun _ _ h => h.2) fun _ _ h => h.2
        rintro s' ⟨hwebhooks, hprocesses, htraffic⟩
        obtain ⟨hstored, hcached⟩ := hsecret delivery (hfound delivery rfl)
        refine ⟨⟨?_, ?_⟩, hold s' htraffic⟩
        · rw [hwebhooks]
          exact hstored
        · rw [hprocesses]
          exact hcached

end

/-! ## 4. Every attempt -/

/-- **No request that an attempt makes is ever accepted.**  Take a delivery to a webhook whose
secret is known and not empty, and an attempt at it, in any state of the world and whatever the
environment answers: every request it makes carries a signature header, and with the secret,
the body and that header `verify` answers no. -/
theorem posted_never_verifies (P : Platform) (config : Config)
    (hinj : ∀ key, Function.Injective (P.hmacSha256 key))
    (hne : ∀ key iv text, pack P key iv text ≠ text) (s : Store) (proc : ℕ) (d : String)
    (sequence : Option ℕ) (xs : ℕ → Env) (k : String) (hk : k ≠ "")
    (hsecret : ∀ delivery, s.deliveries d = some delivery →
      HasSecret P config proc delivery.webhook_id k s) :
    ∀ t ∈ ((attempt P config d sequence).prog.runWith (machine P) ⟨proc, some d⟩ xs s).2.traffic,
      t ∈ s.traffic ∨ ∀ request address, t.2 = .posted request address →
        RefusedBy P k request := by
  have hend := Sat.runWith (satE_attempt (d := some d) hinj hne hk d sequence hsecret) xs
    (fun _ _ _ => trivial) rfl
  split at hend <;> exact hend

/-- What is seen on the network of an attempt at the sample delivery, answered 200. -/
def sampleTraffic : List (Caller × Traffic) :=
  ((attempt samplePlatform sampleConfig "dlv_0" none).prog.runWith (machine samplePlatform)
    ⟨0, some "dlv_0"⟩ (fun _ => answering 200) sampleStore).2.traffic

/-- The process has not cached the sample webhook, and its secret can be read. -/
theorem sample_hasSecret (delivery : Delivery) (hd : sampleStore.deliveries "dlv_0" = some delivery) :
    HasSecret samplePlatform sampleConfig 0 delivery.webhook_id "whsec_sample" sampleStore := by
  obtain rfl : sampleDelivery = delivery := Option.some.inj hd
  refine ⟨?_, ?_⟩
  · intro record hrecord
    obtain rfl : sampleRecord = record := Option.some.inj hrecord
    rfl
  · intro entry hentry
    cases hentry

/-- A request that has left the process. -/
def isSent : Traffic → Bool
  | .posted _ (some _) => true
  | _ => false

theorem sample_sent : (sampleTraffic.any fun t => isSent t.2) = true := by decide +kernel

/-- The request of the sample attempt is refused with its own header when it has just been
signed. -/
theorem sample_post_refused : ¬ ∀ t ∈ sampleTraffic, ∀ request address,
    t.2 = .posted request address → ∃ header,
      request.headers.lookup "X-SmartDrop-Signature" = some header ∧
      verify samplePlatform 1000 "whsec_sample" request.body header 300 = true := by
  intro h
  obtain ⟨t, ht, hpost⟩ := List.any_eq_true.mp sample_sent
  unfold isSent at hpost
  split at hpost
  · rename_i request address hrequest
    obtain ⟨header, hheader, haccepted⟩ := h t ht request (some address) hrequest
    have hend := Sat.runWith (satE_attempt (d := some "dlv_0") samplePlatform_hmac_inj
      samplePlatform_pack_ne (by decide) "dlv_0" none sample_hasSecret) (fun _ => answering 200)
      (fun _ _ _ => trivial) rfl
    have hrefused : NewRefused samplePlatform "whsec_sample" [] ((attempt samplePlatform
        sampleConfig "dlv_0" none).prog.runWith (machine samplePlatform) ⟨0, some "dlv_0"⟩
        (fun _ => answering 200) sampleStore).2 := by
      split at hend <;> exact hend
    rcases hrefused t ht with hold | hnew
    · exact absurd hold List.not_mem_nil
    · obtain ⟨header', hheader', hverify⟩ := hnew request (some address) hrequest
      obtain rfl : header' = header := Option.some.inj (hheader'.symm.trans hheader)
      rw [hverify] at haccepted
      cases haccepted
  · cases hpost

/-- The sample attempt makes a request, and every one that it makes is refused. -/
theorem posted_never_verifies_sample : sampleTraffic.isEmpty = false ∧
    ∀ t ∈ sampleTraffic, t ∈ sampleStore.traffic ∨ ∀ request address,
      t.2 = .posted request address → RefusedBy samplePlatform "whsec_sample" request := by
  obtain ⟨t, ht, -⟩ := List.any_eq_true.mp sample_sent
  refine ⟨List.isEmpty_eq_false_iff.mpr (List.ne_nil_of_mem ht), ?_⟩
  exact posted_never_verifies samplePlatform sampleConfig samplePlatform_hmac_inj
    samplePlatform_pack_ne sampleStore 0 "dlv_0" none (fun _ => answering 200) "whsec_sample"
    (by decide) sample_hasSecret

end SmartDrop.Webhooks
