/-
# What an attempt can issue

Whatever it is answered, an attempt at the delivery `d` writes no record but that of `d`, and
the only steps of it that are seen on the network are those of its round.  `Op.Quiet` are the
steps that change neither a webhook, a delivery, the retry queue nor the traffic, `Op.Recording`
adds the write of the record and the queue, and `Op.OfAttempt` the round and the cache.
-/
import SmartDrop.Webhooks.Dispatcher

namespace SmartDrop.Webhooks

open Conc JsonText Redis

/-! ## 1. Kinds of steps -/

/-- Steps that read, draw, count, or keep the dead letters. -/
def Op.Quiet : Op → Prop
  | .now | .random | .randomUUID | .randomBytes _ | .getWebhook _ | .getDelivery _
  | .expireDelivery _ | .lpushDeadLetter _ | .ltrimDeadLetter _ | .persistMetrics ..
  | .cachedWebhook _ | .recordDeliveryStart .. | .recordDeliveryEnd .. => True
  | _ => False

/-- Steps that record what became of the delivery `d`. -/
def Op.Recording (d : String) : Op → Prop
  | .updateDelivery id .. => id = d
  | .scheduleRetry .. => True
  | op => op.Quiet

/-- Steps of an attempt at the delivery `d`. -/
def Op.OfAttempt (d : String) : Op → Prop
  | .cacheWebhook _ | .assertPublicTarget _ | .post _ => True
  | op => op.Recording d

theorem Op.Quiet.recording {op : Op} (h : op.Quiet) (d : String) : op.Recording d := by
  cases op <;> first | exact h | exact h.elim

theorem Op.Recording.ofAttempt {op : Op} {d : String} (h : op.Recording d) : op.OfAttempt d := by
  cases op <;> first | exact h | exact h.elim

/-- A program all of whose commands satisfy `φ`. -/
abbrev Uses {α : Type} (φ : Op → Prop) (t : Code α) : Prop := Throws.Uses (S := sig) φ t

section

variable {φ : Op → Prop} {op : Op}

theorem uses_redis (h : φ op) : Uses φ (redis op) := (Prog.uses_call (S := sig) φ op).mpr h

theorem uses_unchecked (h : φ op) : Uses φ (unchecked op) :=
  Throws.Uses.tryCatch (Throws.Uses.bind (uses_redis h) fun _ => Throws.uses_pure _) fun _ =>
    Throws.uses_pure _

theorem uses_recording {α : Type} {t : Code α} (h : Uses Op.Quiet t) (d : String) :
    Uses (Op.Recording d) t := Prog.Uses.mono (fun _ hop => hop.recording d) h

theorem uses_ofAttempt {α : Type} {t : Code α} {d : String} (h : Uses (Op.Recording d) t) :
    Uses (Op.OfAttempt d) t := Prog.Uses.mono (fun _ hop => hop.ofAttempt) h

end

/-! ## 2. The parts of an attempt -/

variable (P : Platform) (config : Config) (d : String)

theorem uses_findById : Uses Op.Quiet (deliveryRepository.findById d) :=
  Throws.Uses.tryCatch (uses_redis trivial) fun _ => Throws.uses_pure _

theorem uses_webhookById (id : String) : Uses Op.Quiet (webhookRepository.findById P config id) :=
  Throws.Uses.tryCatch (Throws.Uses.bind (uses_redis trivial) fun _ => Throws.uses_pure _) fun _ =>
    Throws.uses_pure _

theorem uses_update (patch : DeliveryPatch) :
    Uses (Op.Recording d) (deliveryRepository.update d patch) := by
  refine Throws.Uses.bind (uses_redis trivial) ?_
  rintro (_ | existing)
  · exact Throws.uses_pure _
  · have hscore : Uses (Op.Recording d) (deliveryRepository.indexScore existing) := by
      rw [deliveryRepository.indexScore]
      split
      · exact Throws.uses_pure _
      · exact uses_redis trivial
    refine Throws.Uses.bind hscore fun score => ?_
    refine Throws.Uses.bind (uses_redis rfl) fun _ => ?_
    exact Throws.Uses.bind (uses_unchecked trivial) fun _ => Throws.uses_pure _

namespace dispatcher

theorem uses_encryptBody (body : String) (secret : Option String) :
    Uses Op.Quiet (encryptBody P body secret) :=
  Throws.Uses.bind (uses_redis trivial) fun _ => Throws.uses_pure _

theorem uses_buildHeaders (secret : Option String) (body eventType deliveryId : String)
    (requestId : Option String) (sequence : Option ℕ) :
    Uses Op.Quiet (buildHeaders P secret body eventType deliveryId requestId sequence) := by
  refine Throws.Uses.bind (uses_redis trivial) fun now => ?_
  refine Throws.Uses.bind (uses_redis trivial) fun nonce => ?_
  split
  · exact Throws.uses_throw _
  · exact Throws.uses_pure _

theorem uses_recordDeliveryEnd (webhookId : String) (success : Bool) (attempts latencyMs : ℕ) :
    Uses Op.Quiet (recordDeliveryEnd d webhookId success attempts latencyMs) :=
  Throws.Uses.bind (uses_redis trivial) fun _ => uses_unchecked trivial

theorem uses_enqueueDeadLetter (entry : DeadLetter) : Uses Op.Quiet (enqueueDeadLetter entry) :=
  Throws.Uses.tryCatch (Throws.Uses.bind (uses_redis trivial) fun _ => uses_redis trivial) fun _ =>
    Throws.uses_pure _

theorem uses_ensureTrace (delivery : Delivery) : Uses (Op.Recording d) (ensureTrace d delivery) := by
  rw [ensureTrace]
  split
  · exact Throws.uses_pure _
  · refine Throws.Uses.bind (Throws.Uses.bind (uses_redis trivial) fun _ => Throws.uses_pure _) ?_
    exact fun traceId => Throws.Uses.bind (uses_update d _) fun _ => Throws.uses_pure _

theorem uses_markInactive : Uses (Op.Recording d) (markInactive d) :=
  Throws.Uses.bind (uses_redis trivial) fun _ => uses_update d _

theorem uses_retryLater (delivery : Delivery) (attempts now : ℕ) (o : Outcome) :
    Uses (Op.Recording d) (retryLater config d delivery attempts now o) := by
  refine Throws.Uses.bind (uses_redis trivial) fun random => ?_
  refine Throws.Uses.bind (uses_redis trivial) fun nextRetryAt => ?_
  refine Throws.Uses.bind (uses_redis trivial) fun scheduledAt => ?_
  exact Throws.Uses.bind (uses_redis trivial) fun _ => uses_update d _

theorem uses_giveUp (delivery : Delivery) (webhook : Webhook) (traceId : String) (attempts now : ℕ)
    (o : Outcome) : Uses (Op.Recording d) (giveUp d delivery webhook traceId attempts now o) :=
  Throws.Uses.bind (uses_recording (uses_enqueueDeadLetter _) d) fun _ => uses_update d _

theorem uses_recordOutcome (delivery : Delivery) (webhook : Webhook) (traceId : String)
    (latencyMs now : ℕ) (o : Outcome) :
    Uses (Op.Recording d) (recordOutcome config d delivery webhook traceId latencyMs now o) := by
  have hend := fun success attempts =>
    uses_recording (uses_recordDeliveryEnd d webhook.id success attempts latencyMs) d
  rw [recordOutcome]
  split
  · exact Throws.Uses.bind (hend _ _) fun _ => uses_update d _
  · split
    · exact Throws.Uses.bind (hend _ _) fun _ => uses_retryLater config d _ _ _ _
    · exact Throws.Uses.bind (hend _ _) fun _ => uses_giveUp d _ _ _ _ _ _

/-! ## 3. The attempt as a whole -/

theorem uses_getWebhookForAttempt (id : String) :
    Uses (Op.OfAttempt d) (getWebhookForAttempt P config id) := by
  refine Throws.Uses.bind (uses_redis trivial) ?_
  rintro (_ | webhook)
  · refine Throws.Uses.bind (uses_ofAttempt (uses_recording (uses_webhookById P config id) d)) ?_
    rintro (_ | webhook)
    · exact Throws.uses_pure _
    · exact Throws.Uses.bind (uses_redis trivial) fun _ => Throws.uses_pure _
  · exact Throws.uses_pure _

theorem uses_makeRound (webhook : Webhook) (headers : List (String × String)) (body : String) :
    Uses (Op.OfAttempt d) (makeRound config webhook headers body) := by
  refine Throws.Uses.bind (uses_redis trivial) ?_
  rintro (err | target)
  · exact Throws.uses_pure _
  · refine Throws.Uses.bind (uses_redis trivial) ?_
    rintro (err | status) <;> exact Throws.uses_pure _

theorem uses_attemptActive (delivery : Delivery) (webhook : Webhook) (traceId : String)
    (sequence : Option ℕ) :
    Uses (Op.OfAttempt d) (attemptActive P config d delivery webhook traceId sequence) := by
  have quiet : ∀ {α : Type} {t : Code α}, Uses Op.Quiet t → Uses (Op.OfAttempt d) t :=
    fun h => uses_ofAttempt (uses_recording h d)
  refine Throws.Uses.bind (quiet (uses_encryptBody P _ _)) fun encryptedPayload => ?_
  refine Throws.Uses.bind (quiet (uses_buildHeaders P _ _ _ _ _ _)) fun headers => ?_
  refine Throws.Uses.bind (uses_redis trivial) fun started => ?_
  refine Throws.Uses.bind (uses_redis trivial) fun _ => ?_
  refine Throws.Uses.bind (uses_makeRound config d _ _ _) fun outcome => ?_
  refine Throws.Uses.bind (uses_redis trivial) fun now => ?_
  refine Throws.Uses.bind (uses_redis trivial) fun ended => ?_
  exact uses_ofAttempt (uses_recordOutcome config d _ _ _ _ _ _)

/-- **An attempt writes no record but its own.** -/
theorem uses_attempt (sequence : Option ℕ) :
    Uses (Op.OfAttempt d) (attempt P config d sequence) := by
  refine Throws.Uses.bind (uses_ofAttempt (uses_recording (uses_findById d) d)) ?_
  rintro (_ | delivery)
  · exact Throws.uses_pure _
  dsimp only
  split
  · exact Throws.uses_pure _
  refine Throws.Uses.bind (uses_ofAttempt (uses_ensureTrace d delivery)) fun traceId => ?_
  refine Throws.Uses.bind (uses_getWebhookForAttempt P config d _) ?_
  rintro (_ | webhook)
  · exact uses_ofAttempt (uses_markInactive d)
  dsimp only
  split
  · exact uses_attemptActive P config d _ _ _ _
  · exact uses_ofAttempt (uses_markInactive d)

end dispatcher

/-! ## 4. What is not seen outside -/

/-- From `s` to `s'`, webhooks and traffic are the same, and nothing was cached. -/
structure Unseen (s s' : Store) : Prop where
  webhooks : s'.webhooks = s.webhooks
  traffic : s'.traffic = s.traffic
  cached : ∀ proc id entry, (s'.processes proc).webhookCache id = some entry →
    (s.processes proc).webhookCache id = some entry

theorem Unseen.refl (s : Store) : Unseen s s := ⟨rfl, rfl, fun _ _ _ h => h⟩

/-- A change of one process that caches nothing is not seen. -/
theorem Unseen.onProcess {s : Store} {proc : ℕ} {f : Process → Process}
    (h : ∀ p id entry, (f p).webhookCache id = some entry → p.webhookCache id = some entry) :
    Unseen s (s.onProcess proc f) := by
  refine ⟨rfl, rfl, fun i id entry he => ?_⟩
  by_cases hi : i = proc
  · subst hi
    exact h _ _ _ (by simpa [Store.onProcess] using he)
  · simpa [Store.onProcess, hi] using he

variable {P} {d}

theorem Op.Recording.unseen {op : Op} (h : op.Recording d) (caller : Caller) (x : Env) (s : Store) :
    Unseen s (s.exec P caller x op).2 := by
  cases op with
  | cachedWebhook id =>
    simp only [Store.exec]
    split
    · exact Unseen.refl s
    · split
      · exact Unseen.refl s
      · refine Unseen.onProcess (f := fun p =>
          { p with webhookCache := Function.update p.webhookCache id none }) fun p j entry he => ?_
        by_cases hj : j = id
        · subst hj
          simp at he
        · simpa [hj] using he
  | recordDeliveryStart deliveryId webhookId =>
    refine Unseen.onProcess (f := fun p =>
      { p with
        inFlight := p.inFlight.sadd deliveryId
        deliveries := Function.update p.deliveries webhookId _ }) ?_
    exact fun _ _ _ he => he
  | recordDeliveryEnd deliveryId webhookId success attempts latencyMs =>
    refine Unseen.onProcess (f := fun p =>
      { p with
        inFlight := p.inFlight.srem deliveryId
        deliveries := Function.update p.deliveries webhookId _
        aggregate := p.aggregate.add success attempts latencyMs }) ?_
    exact fun _ _ _ he => he
  | insertWebhook | sremEvent | saddEvent | setWebhook | deleteWebhook | insertDelivery
  | popDueRetries | claimDelivery | mgetWebhooks | smembersEvent | deliveryIds | cacheWebhook
  | assertPublicTarget | post => exact h.elim
  | _ => exact ⟨rfl, rfl, fun _ _ _ he => he⟩

/-- A part of an attempt that only records keeps what no unseen change can break. -/
theorem satE_unseen {α : Type} {t : Code α} (h : Uses (Op.Recording d) t) {caller : Caller}
    {I : Store → Prop} (hI : ∀ s s', I s → Unseen s s' → I s') :
    SatE (machine P) caller solo t I (fun _ => I) fun _ => I := by
  refine Sat.mono (Sat.frame (fun _ _ hs he => he ▸ hs) (fun op hop x s hs _ => ?_) h)
    (fun _ hs => hs) fun r s hs => by cases r <;> exact hs
  exact ⟨trivial, machine_store_of hs (hI s _ hs (hop.unseen caller x s))⟩

/-- Steps after which the traffic is what it was. -/
def Op.Silent : Op → Prop
  | .assertPublicTarget _ | .post _ => False
  | _ => True

theorem Op.Recording.silent {op : Op} (h : op.Recording d) : op.Silent := by
  cases op <;> trivial

theorem Op.Silent.traffic {op : Op} (h : op.Silent) (caller : Caller) (x : Env) (s : Store) :
    (s.exec P caller x op).2.traffic = s.traffic := by
  cases op with
  | cachedWebhook id =>
    simp only [Store.exec]
    split
    · rfl
    · split <;> rfl
  | assertPublicTarget | post => exact h.elim
  | _ => rfl

/-- A silent part of an attempt keeps what depends on the traffic only. -/
theorem satE_silent {ok : sig.Op → Env → Store → Prop} {α : Type} {t : Code α}
    (h : Uses Op.Silent t) {caller : Caller} {I : List (Caller × Traffic) → Prop} :
    SatE (machine P) caller (.alone ok) t (fun s => I s.traffic) (fun _ s => I s.traffic)
      fun _ s => I s.traffic := by
  refine Sat.mono (Sat.frame (fun _ _ hs he => he ▸ hs) (fun op hop x s hs _ => ?_) h)
    (fun _ hs => hs) fun r s hs => by cases r <;> exact hs
  refine ⟨trivial, machine_store_of (Q := fun s' => I s'.traffic) hs ?_⟩
  rw [Op.Silent.traffic hop]
  exact hs

theorem uses_silent {α : Type} {t : Code α} (h : Uses (Op.Recording d) t) : Uses Op.Silent t :=
  Prog.Uses.mono (fun _ hop => Op.Recording.silent hop) h

theorem dispatcher.silent_getWebhookForAttempt (config : Config) (id : String) :
    Uses Op.Silent (dispatcher.getWebhookForAttempt P config id) := by
  refine Throws.Uses.bind (uses_redis trivial) ?_
  rintro (_ | webhook)
  · refine Throws.Uses.bind (uses_silent (uses_recording (uses_webhookById P config id) "")) ?_
    rintro (_ | webhook)
    · exact Throws.uses_pure _
    · exact Throws.Uses.bind (uses_redis trivial) fun _ => Throws.uses_pure _
  · exact Throws.uses_pure _

/-! ## 5. A store for examples -/

/-- An active webhook whose secret is a legacy one. -/
def sampleRecord : WebhookRecord where
  id := "wh_0"
  url := "https://hooks.example"
  events := ["pool.created"]
  secret := "whsec_sample"
  active := true
  description := none
  filters := none
  owner_ip := none
  created_at := 0
  updated_at := 0

/-- A delivery to it that has not been attempted yet. -/
def sampleDelivery : Delivery where
  id := "dlv_0"
  webhook_id := "wh_0"
  event_id := "evt_0"
  event_type := "pool.created"
  status := .pending
  attempts := 0
  last_error := none
  last_attempt_at := none
  next_retry_at := none
  response_status := none
  trace_id := some "trace_0"
  request_id := none
  created_at := 0
  payload := none
  sequence := none

/-- A store with that webhook and that delivery only. -/
def sampleStore : Store :=
  { Store.init with
    webhooks := Function.update Store.init.webhooks "wh_0" (some sampleRecord)
    deliveries := Function.update Store.init.deliveries "dlv_0" (some sampleDelivery) }

/-- A calm environment whose lookups find a public address, and whose endpoint answers `status`. -/
def answering (status : ℕ) : Env where
  now := 1000
  lookup := .ok ["93.184.216.34"]
  connect := .ok "93.184.216.34"
  answer := .ok status

end SmartDrop.Webhooks
