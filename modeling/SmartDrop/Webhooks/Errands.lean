/-
# What the workers of a fleet do

The parts of an attempt (`Charge`) make up an attempt and the making of a delivery: each lets go of
its delivery in order (`part_attempt`, `part_deliverAs`).  A tick and a notice give a worker only
deliveries that nobody had in hand (`takes_due`, `takes_notice`).  So every step of a fleet that is
orderly keeps the custody of all deliveries (`Fleet.kept_step`), and so does every run
(`Fleet.kept_run`).

The same results are used twice: with `calm` false for what can be said when commands fail and
processes stop, and with `calm` true for a fleet without mishaps.
-/
import SmartDrop.Lib.Crew
import SmartDrop.Webhooks.Charge

namespace SmartDrop.Webhooks

open Conc Redis deliveryRepository dispatcher

/-! ## 1. An attempt -/

section Attempt

variable {P : Platform} {config : Config} {calm : Prop} {t : Caller} {d : String} {a : ℕ}
  {V : Standing → Prop} {v : Standing}

/-- What is known of the webhook that an attempt has found: if it is active its secret can be read,
or the delivery does not depend on the attempt. -/
def Legible (config : Config) (calm : Prop) (found : Option Webhook) (v : Standing) : Prop :=
  ∀ w, found = some w → w.active → w.Readable ∨ ¬ calm ∧ v.Safe config

/-- The webhook of an attempt is looked up. -/
theorem part_getWebhookForAttempt (ht : t.delivery = some d) (id : String) {E : Standing → Prop} :
    Part P config calm t d (getWebhookForAttempt P config id) V
      (fun found v => V v ∧ Legible config calm found v) E := by
  have hcached : Part P config calm t d (redis (.cachedWebhook id)) V
      (fun found v => V v ∧ Legible config calm found v) E := by
    refine part_local (by rfl) (by trivial) ht fun x s hs hfair => ?_
    rw [Op.Elsewhere.standing (by trivial)]
    exact ⟨.refl _, hs, fun w hw => hfair.readable w hw⟩
  have hread : Part P config calm t d (redis (.getWebhook id)) V
      (fun record v => V v ∧ Legible config calm (record.map (normalize P config)) v) V := by
    refine part_redis (by trivial) ht ?_ ?_
    · intro x s hs hfair
      rw [Op.Elsewhere.standing (by trivial)]
      exact ⟨.refl _, hs, fun w hw => hfair.readable w hw⟩
    · intro _ x s hs _
      rw [Op.Elsewhere.standing (by trivial)]
      exact ⟨fun _ => hs, fun _ => hs⟩
  have hfind : Part P config calm t d (webhookRepository.findById P config id) V
      (fun found v => V v ∧ Legible config calm found v) E := by
    refine SatE.tryCatch (SatE.bind hread fun record => SatE.pure fun _ hs => hs) fun e => ?_
    exact SatE.pure fun _ hs => ⟨hs, fun _ hw => by cases hw⟩
  refine SatE.bind hcached ?_
  rintro (_ | webhook)
  · refine SatE.bind (SatE.mono hfind (fun _ hs => hs.1) (fun _ _ hq => hq) fun _ _ he => he) ?_
    rintro (_ | webhook)
    · exact SatE.pure fun _ hs => hs
    · exact SatE.bind (part_aside (V := fun v => V v ∧ Legible config calm (some webhook) v)
        (by rfl) (by trivial) ht) fun _ => SatE.pure fun _ hs => hs
  · exact SatE.pure fun _ hs => hs

/-- What is signed is signed with a secret that can be read. -/
theorem part_buildHeaders (ht : t.delivery = some d) {w : Webhook} {body eventType deliveryId : String}
    {requestId : Option String} {sequence : Option ℕ} :
    Part P config calm t d (buildHeaders P w.secret body eventType deliveryId requestId sequence)
      (fun v => Standing.Held config calm d a 0 v ∧ (w.Readable ∨ ¬ calm ∧ v.Safe config))
      (fun _ => Standing.Held config calm d a 0) (Standing.Free config calm d) := by
  let V : Standing → Prop := fun v =>
    Standing.Held config calm d a 0 v ∧ (w.Readable ∨ ¬ calm ∧ v.Safe config)
  refine SatE.bind (part_aside (V := V) (by rfl) (by trivial) ht) fun now => ?_
  refine SatE.bind (part_aside (V := V) (by rfl) (by trivial) ht) fun nonce => ?_
  rw [sign]
  split
  · rename_i hsign
    refine SatE.throw fun s hs => ?_
    rcases hs.2 with hreadable | ⟨hcalm, hsafe⟩
    · rw [Webhook.Readable] at hreadable
      cases hsecret : w.secret.filter (· ≠ "") with
      | none =>
        rw [hsecret] at hreadable
        cases hreadable
      | some secret =>
        rw [hsecret] at hsign
        cases hsign
    · exact hsafe.free hs.1.named hcalm
  · exact SatE.pure fun _ hs => hs.1

/-- **An attempt at an active webhook.** -/
theorem part_attemptActive (ht : t.delivery = some d) {delivery : Delivery} {w : Webhook}
    {traceId : String} {sequence : Option ℕ} (hid : delivery.id = d) (hcount : delivery.attempts = a) :
    Part P config calm t d (attemptActive P config d delivery w traceId sequence)
      (fun v => Standing.Held config calm d a 0 v ∧ (w.Readable ∨ ¬ calm ∧ v.Safe config))
      (fun _ => Standing.Free config calm d) (Standing.Free config calm d) := by
  let V : Standing → Prop := fun v =>
    Standing.Held config calm d a 0 v ∧ (w.Readable ∨ ¬ calm ∧ v.Safe config)
  refine SatE.bind (Q := fun _ s => V (s.standing d)) ?_ fun encryptedPayload => ?_
  · exact SatE.bind (part_aside (V := V) (by rfl) (by trivial) ht) fun _ => SatE.pure fun _ hs => hs
  refine SatE.bind (part_buildHeaders ht) fun headers => ?_
  refine SatE.bind (part_aside (by rfl) (by trivial) ht) fun started => ?_
  refine SatE.bind (part_aside (by rfl) (by trivial) ht) fun _ => ?_
  refine SatE.bind (part_makeRound ht) fun outcome => ?_
  refine SatE.bind (part_aside (by rfl) (by trivial) ht) fun now => ?_
  refine SatE.bind (part_aside (by rfl) (by trivial) ht) fun ended => ?_
  exact part_recordOutcome ht hid hcount

theorem part_markInactive (ht : t.delivery = some d) :
    Part P config calm t d (markInactive d) (Standing.Held config calm d a 0)
      (fun _ => Standing.Free config calm d) (Standing.Free config calm d) :=
  SatE.bind (part_aside (by rfl) (by trivial) ht) fun _ =>
    part_settle ht (Nat.zero_le _) (.inr rfl) rfl

theorem part_ensureTrace (ht : t.delivery = some d) {delivery : Delivery} :
    Part P config calm t d (ensureTrace d delivery) (Standing.Held config calm d a 0)
      (fun _ => Standing.Held config calm d a 0) (Standing.Free config calm d) := by
  rw [ensureTrace]
  split
  · exact SatE.pure fun _ hs => hs
  · refine SatE.bind (Q := fun _ s => Standing.Held config calm d a 0 (s.standing d)) ?_
      fun traceId => ?_
    · exact SatE.bind (part_aside (by rfl) (by trivial) ht) fun _ => SatE.pure fun _ hs => hs
    exact SatE.bind (part_note ht rfl rfl) fun _ => SatE.pure fun _ hs => hs

/-- A delivery that can be attempted: in a calm world, one that is owed an attempt. -/
structure Standing.Ripe (config : Config) (calm : Prop) (d : String) (v : Standing) : Prop where
  named : v.Named d
  held : calm → ∃ r, v.record = some r ∧ Standing.Held config calm d r.attempts 0 v

/-- The record of an attempt is loaded; when it is not found, the delivery needs no attempt. -/
theorem part_findById (ht : t.delivery = some d) :
    Part P config calm t d (findById d) (Standing.Ripe config calm d)
      (fun found v => match found with
        | none => v.Free config calm d
        | some r => v.record = some r ∧ r.id = d ∧ Standing.Held config calm d r.attempts 0 v)
      (Standing.Free config calm d) := by
  have hget : Part P config calm t d (redis (.getDelivery d)) (Standing.Ripe config calm d)
      (fun found v => Standing.Ripe config calm d v ∧ found = v.record)
      (Standing.Free config calm d) := by
    refine part_redis (by trivial) ht ?_ ?_
    · intro x s hs _
      exact ⟨.refl _, hs, rfl⟩
    · intro _ x s hs hfair
      refine ⟨fun hfault => ?_, fun hfault => ?_⟩
      · exact (hfair.before trivial hfault).free hs.named (hfair.not_calm (by simp [hfault]))
      · exact Standing.Safe.free (hfair.after trivial hfault) hs.named
          (hfair.not_calm (by simp [hfault]))
  refine SatE.tryCatch (SatE.mono hget (fun _ hs => hs) ?_ fun _ _ he => he) fun e =>
    SatE.pure fun _ hs => hs
  rintro (_ | r) s ⟨hripe, hfound⟩
  · -- there is no such record: in a calm world the delivery is not ripe
    refine ⟨hripe.named, fun r hr => ?_, fun hc => ?_⟩
    · rw [← hfound] at hr
      cases hr
    · obtain ⟨r, hr, -⟩ := hripe.held hc
      rw [← hfound] at hr
      cases hr
  · refine ⟨hfound.symm, hripe.named r hfound.symm, ⟨r, hfound.symm⟩, hripe.named, ?_, ?_, ?_⟩
    all_goals
      intro hc
      obtain ⟨r', hr', hheld⟩ := hripe.held hc
      rw [← hfound, Option.some.injEq] at hr'
      subst hr'
    · exact hheld.pending hc
    · exact hheld.rounds hc
    · exact hheld.unqueued hc

/-- **An attempt** lets go of its delivery in order. -/
theorem part_attempt (ht : t.delivery = some d) (sequence : Option ℕ) :
    Part P config calm t d (attempt P config d sequence) (Standing.Ripe config calm d)
      (fun _ => Standing.Free config calm d) (Standing.Free config calm d) := by
  refine SatE.bind (part_findById ht) ?_
  rintro (_ | delivery)
  · exact SatE.pure fun _ hs => hs
  dsimp only
  split
  · -- a success has been settled before
    rename_i hsuccess
    refine SatE.pure fun s hs => ?_
    obtain ⟨hr, -, hheld⟩ := hs
    refine ⟨hheld.named, fun r hr' howed => ?_, fun hc => ?_⟩
    · rw [hr, Option.some.injEq] at hr'
      rw [← hr', Delivery.Owed, hsuccess] at howed
      cases howed.1
    · have hpending := (hheld.pending hc delivery hr).1
      rw [hsuccess] at hpending
      cases hpending
  · refine SatE.mono (P := fun s => delivery.id = d ∧
      Standing.Held config calm d delivery.attempts 0 (s.standing d)) ?_ (fun _ hs => hs.2)
      (fun _ _ hq => hq) fun _ _ he => he
    refine SatE.assume fun hid => ?_
    refine SatE.bind (part_ensureTrace ht) fun traceId => ?_
    refine SatE.bind (part_getWebhookForAttempt ht _) ?_
    rintro (_ | webhook)
    · exact SatE.mono (part_markInactive ht) (fun _ hs => hs.1) (fun _ _ hq => hq) fun _ _ he => he
    dsimp only
    split
    · rename_i hactive
      refine SatE.mono (part_attemptActive ht hid rfl) (fun _ hs => ?_) (fun _ _ hq => hq)
        fun _ _ he => he
      exact ⟨hs.1, hs.2 webhook rfl hactive⟩
    · exact SatE.mono (part_markInactive ht) (fun _ hs => hs.1) (fun _ _ hq => hq) fun _ _ he => he

end Attempt

/-! ## 2. A new delivery -/

section Deliver

variable {P : Platform} {config : Config} {calm : Prop} {t : Caller} {d : String}

/-- An id for a new delivery: in a calm world, one of which nothing is known. -/
structure Standing.New (calm : Prop) (d : String) (v : Standing) : Prop where
  named : v.Named d
  blank : calm → v = .blank

/-- The record of a new delivery is stored. -/
theorem part_insertAs (ht : t.delivery = some d) (hmax : calm → 0 < config.maxAttempts)
    (n : Notice) :
    Part P config calm t d (insertAs n.newDelivery d) (Standing.New calm d)
      (fun record v => record.id = d ∧ Standing.Held config calm d 0 0 v)
      (Standing.Free config calm d) := by
  have hinsert : ∀ now traceId, Part P config calm t d
      (redis (.insertDelivery (newRecord n.newDelivery d traceId now) now)) (Standing.New calm d)
      (fun _ => Standing.Held config calm d 0 0) (Standing.Free config calm d) := by
    intro now traceId
    have hstanding (x : Env) (s : Store) :
        (s.exec P t x (.insertDelivery (newRecord n.newDelivery d traceId now) now)).2.standing d =
          { s.standing d with record := some (newRecord n.newDelivery d traceId now) } :=
      standing_insertDelivery (newRecord n.newDelivery d traceId now) now
    have hnamed : ∀ r, some (newRecord n.newDelivery d traceId now) = some r → r.id = d := by
      intro r hr
      rw [← Option.some.inj hr]
      rfl
    refine part_redis (by rfl) ht ?_ ?_
    · intro x s hs _
      rw [hstanding]
      refine ⟨⟨fun _ => hnamed, fun hc r hr => ?_, fun _ hb => hb⟩, ⟨_, rfl⟩, hnamed, ?_, ?_, ?_⟩
      · rw [hs.blank hc] at hr
        cases hr
      · intro _ r hr
        rw [← Option.some.inj hr]
        exact ⟨rfl, rfl⟩
      · intro hc
        rw [hs.blank hc]
        exact ⟨hmax hc, rfl⟩
      · intro hc
        rw [hs.blank hc]
        exact id
    · intro _ x s hs hfair
      refine ⟨fun hfault => ?_, fun hfault => ?_⟩
      · exact (hfair.before trivial hfault).free hs.named (hfair.not_calm (by simp [hfault]))
      · exact (hfair.after trivial hfault).elim
  refine SatE.bind (part_aside (by rfl) (by trivial) ht) fun now => ?_
  refine SatE.bind (Q := fun _ s => Standing.New calm d (s.standing d)) ?_ fun traceId => ?_
  · exact SatE.bind (part_aside (by rfl) (by trivial) ht) fun _ => SatE.pure fun _ hs => hs
  · exact SatE.bind (hinsert now traceId) fun _ => SatE.pure fun _ hs => ⟨rfl, hs⟩

/-- **The making of a delivery**, with its first attempt, lets go of it in order. -/
theorem part_deliverAs (ht : t.delivery = some d) (hmax : calm → 0 < config.maxAttempts)
    (n : Notice) :
    Part P config calm t d (deliverAs P config n d) (Standing.New calm d)
      (fun _ => Standing.Free config calm d) (Standing.Free config calm d) := by
  refine SatE.bind (part_insertAs ht hmax n) fun record => SatE.assume fun hid => ?_
  rw [hid]
  refine SatE.bind (part_unchecked (by trivial) ht) fun _ => ?_
  refine SatE.bind (part_note ht rfl rfl) fun _ => ?_
  refine SatE.mono (part_attempt ht n.sequence) (fun s hs => ⟨hs.named, fun hc => ?_⟩)
    (fun _ _ hq => hq) fun _ _ he => he
  obtain ⟨r, hr⟩ := hs.stored
  refine ⟨r, hr, ?_⟩
  rw [(hs.pending hc r hr).2]
  exact hs

end Deliver

/-! ## 3. Errands -/

section Errands

variable {P : Platform} {config : Config} {calm : Prop} {τ : Type} {proc : τ → ℕ} {i : τ}
  {d : String} {s : Store}

/-- A call that lets go of its delivery in order can be put on a worker's list. -/
theorem set_of_part {α : Type} {code : Code α} {V : Standing → Prop}
    (h : Part P config calm (Fleet.who proc i (some d)) d code V (fun _ => Standing.Free config calm d)
      (Standing.Free config calm d))
    (hV : V (s.standing d)) (hdrawn : calm → Drawn P d s) :
    (custody P config calm).Set (machine P) (Fleet.who proc) i s ⟨d, forget code⟩ := by
  have hrely : Stable ((custody P config calm).contract (Fleet.who proc i (some d)) d).rely
      fun s => calm → Drawn P d s := by
    intro s s' hs hsame hc n hn
    exact hs hc n (hsame.2.trans hn)
  have hguar : Stable ((custody P config calm).contract (Fleet.who proc i (some d)) d).guar
      fun s => calm → Drawn P d s := by
    intro s s' hs hkept hc n hn
    exact hs hc n (hkept.1.2.trans hn)
  refine ⟨fun s => V (s.standing d) ∧ (calm → Drawn P d s), ?_, ⟨hV, hdrawn⟩, ?_⟩
  · intro s s' hs hsame
    exact ⟨stable_standing (t := Fleet.who proc i (some d)) V hs.1 hsame, hrely hs.2 hsame⟩
  · refine Sat.bind (SatE.keep h hrely hguar) fun r => Sat.ret fun s hs => ?_
    cases r with
    | error e => exact ⟨hs.1, fun hc => .inl (hs.2 hc)⟩
    | ok a => exact ⟨hs.1, fun hc => .inl (hs.2 hc)⟩

/-- Steps that concern no delivery leave all of them alone. -/
theorem same_of_elsewhere {op : Op} (hop : op.Elsewhere) (t : Caller) (x : Env) (s : Store) (e : String) :
    (custody P config calm).same e s ((machine P).exec t op x s).2 :=
  ⟨machine_store_of (Q := fun s' => s'.standing e = s.standing e) rfl (hop.standing t x s e),
    uuidsDrawn_exec t op x s⟩

/-- A due delivery is ripe once it has been taken from the queue. -/
theorem ripe_of_due {v : Standing} (h : v.Free config calm d) (hqueued : v.queued) :
    Standing.Ripe config calm d { v with queued := False } := by
  refine ⟨h.named, fun hc => ?_⟩
  have hsettled := h.settled hc
  cases hr : v.record with
  | none => exact absurd hqueued (hsettled.absent hr).1
  | some r =>
    have hpending := (hsettled.queued r hr).mp hqueued
    refine ⟨r, rfl, ⟨r, rfl⟩, ?_, ?_, ?_, fun _ hq => hq⟩
    · intro r' hr'
      rw [← Option.some.inj hr']
      exact h.named r hr
    · intro _ r' hr'
      rw [← Option.some.inj hr']
      exact ⟨hpending, rfl⟩
    · intro _
      exact ⟨hsettled.left r hr hpending, (hsettled.counted r hr).symm⟩

/-- What `popDueRetries` does to one delivery. -/
theorem standing_popDueRetries (t : Caller) (x : Env) (s : Store) (now max : ℕ) (e : String) :
    (s.exec P t x (.popDueRetries now max)).2.standing e =
      { s.standing e with
        queued := (s.standing e).queued ∧ e ∉ s.retries.zrangebyscore now max } := by
  simp only [Store.standing, Store.exec, ZSet.mem_zremAll]
  rfl

/-- **The ids of a tick** are taken from the queue, and can be attempted. -/
theorem takes_popDueRetries (now : ℕ) :
    (custody P config calm).Takes (machine P) (Fleet.who proc) i
      ((popDueRetries now config.retryBatchSize).prog.bind fun r =>
        .ret (dueErrands P config r)) := by
  refine Custody.takes_decide fun x s hok => ?_
  have hstanding (e : String) := standing_popDueRetries (P := P) (Fleet.who proc i none) x s now
    config.retryBatchSize e
  cases hfault : x.fault with
  | before =>
    refine ⟨.error "Redis command failed", s, [], ?_, rfl, fun e _ => ⟨rfl, Nat.le_refl _⟩,
      fun _ => ⟨List.nodup_nil, fun _ hj => absurd hj List.not_mem_nil⟩⟩
    simp only [machine, Op.isLocal, hfault, Bool.false_eq_true, if_false]
  | after =>
    refine ⟨.error "Redis command failed", (s.exec P (Fleet.who proc i none) x
      (.popDueRetries now config.retryBatchSize)).2, [], ?_, rfl,
      fun e _ => ⟨?_, Nat.le_refl _⟩,
      fun _ => ⟨List.nodup_nil, fun _ hj => absurd hj List.not_mem_nil⟩⟩
    · simp only [machine, Op.isLocal, hfault, Bool.false_eq_true, if_false]
    · rw [hstanding, hok.2 hfault]
      simp only [List.not_mem_nil, not_false_eq_true, and_true]
  | none =>
    have hkeys : (dueErrands P config (.ok (s.retries.zrangebyscore (now : ℚ)
        config.retryBatchSize))).map Job.key =
        s.retries.zrangebyscore (now : ℚ) config.retryBatchSize := by
      rw [dueErrands, List.map_map]
      exact List.map_id _
    refine ⟨_, _, _, machine_exec_ok P s hfault, rfl, fun e he => ⟨?_, Nat.le_refl _⟩,
      fun hfree => ⟨?_, ?_⟩⟩
    · replace he : e ∉ s.retries.zrangebyscore (now : ℚ) config.retryBatchSize := hkeys ▸ he
      rw [hstanding]
      simp only [he, not_false_eq_true, and_true]
    · exact hkeys ▸ s.retries.nodup_zrangebyscore (now : ℚ) config.retryBatchSize
    · intro job hjob
      obtain ⟨id, hid, rfl⟩ := List.mem_map.mp hjob
      obtain ⟨hfree, hunused⟩ := hfree id (hkeys.symm ▸ hid)
      have hqueued : (s.standing id).queued := ZSet.zrangebyscore_subset hid
      have htaken := hstanding id
      replace hid : id ∈ s.retries.zrangebyscore (now : ℚ) config.retryBatchSize := hid
      simp only [hid, not_true_eq_false, and_false] at htaken
      refine ⟨⟨?_, Nat.le_refl _⟩, set_of_part (part_attempt rfl none) ?_ fun hc => ?_⟩
      · exact htaken ▸ ⟨(fun h => h), fun _ r hr _ => ⟨r, hr, rfl⟩, fun _ hb => hb⟩
      · exact htaken ▸ ripe_of_due hfree hqueued
      · rcases hunused hc with hdrawn | hblank
        · exact hdrawn
        · rw [hblank] at hqueued
          exact hqueued.elim

/-- **A tick** takes only deliveries that it can attempt. -/
theorem takes_due :
    (custody P config calm).Takes (machine P) (Fleet.who proc) i (takeDue P config) := by
  rw [takeDue, retryWorker.due, Throws.prog_bind, Prog.bind_assoc]
  refine Custody.takes_bind (φ := Op.Elsewhere) (fun op hop x s _ e => same_of_elsewhere hop _ x s e)
    (uses_redis trivial) ?_
  rintro (e | now)
  · exact ⟨rfl, trivial⟩
  · exact ⟨rfl, takes_popDueRetries now⟩

theorem uses_vet (n : Notice) : Uses Op.Elsewhere (vet P config n) := by
  refine Throws.Uses.bind (uses_redis trivial) fun _ => ?_
  refine Throws.Uses.bind (uses_redis trivial) fun claimed => ?_
  split
  · split
    · exact Throws.uses_throw _
    · refine Throws.Uses.bind ?_ ?_
      · exact Prog.Uses.mono (fun _ hop => Op.Quiet.elsewhere hop) (uses_webhookById P config _)
      · rintro (_ | webhook)
        · exact Throws.uses_throw _
        · exact Throws.uses_pure _
  · exact Throws.uses_pure _

/-- **A notice** leads to a delivery under an id that has not been used. -/
theorem takes_notice (hmax : calm → 0 < config.maxAttempts) (n : Notice) :
    (custody P config calm).Takes (machine P) (Fleet.who proc) i (takeNotice P config n) := by
  rw [takeNotice, accept, Throws.prog_bind, Prog.bind_assoc]
  refine Custody.takes_bind (φ := Op.Elsewhere) (fun op hop x s _ e => same_of_elsewhere hop _ x s e)
    (uses_vet n) ?_
  rintro (e | _ | _)
  · exact ⟨rfl, trivial⟩
  · exact ⟨rfl, trivial⟩
  refine ⟨rfl, Custody.takes_decide fun x s _ => ?_⟩
  have hstanding (e : String) :
      (s.exec P (Fleet.who proc i none) x .randomUUID).2.standing e = s.standing e :=
    Op.Elsewhere.standing (by trivial) _ x s e
  refine ⟨_, _, _, rfl, rfl, fun e _ => ⟨hstanding e, Nat.le_succ _⟩, fun hfree =>
    ⟨List.nodup_singleton _, ?_⟩⟩
  intro job hjob
  obtain rfl := List.mem_singleton.mp hjob
  obtain ⟨hfree, hunused⟩ := hfree _ List.mem_cons_self
  have hnew := hstanding ("dlv_" ++ P.randomUUID s.uuidsDrawn)
  refine ⟨⟨hnew ▸ .refl _, Nat.le_succ _⟩, set_of_part (part_deliverAs rfl hmax n)
    (hnew ▸ ⟨hfree.named, fun hc => ?_⟩) ?_⟩
  · rcases hunused hc with hdrawn | hblank
    · exact absurd rfl (hdrawn s.uuidsDrawn (Nat.le_refl _))
    · exact hblank
  · intro _ k hk heq
    have huuid : s.uuidsDrawn = k := P.uuid_inj ((String.append_right_inj _).mp heq)
    have hlt : s.uuidsDrawn + 1 ≤ k := hk
    omega

end Errands

/-! ## 4. The fleet -/

namespace Fleet

variable {P : Platform} {config : Config} {calm : Prop} {τ : Type} {proc : τ → ℕ} {c : Fleet τ}

variable (P config calm proc) in
/-- An event that leaves every delivery in good hands.  No worker is given a delivery that another
one has; a worker takes only fair steps; and a process stops only when the deliveries that its
workers have do not depend on them.  In a calm fleet nobody asks for an attempt outside the retry
worker, and a process that stops has no delivery in hand. -/
def Orderly (c : Fleet τ) : Event τ → Prop
  | .attempt _ d _ => ¬ calm ∧ ∀ j, d ∉ (c.worker j).keys
  | .act i x => (custody P config calm).Allows (machine P) (who proc) c i x
  | .stop p => ∀ i, proc i = p → ∀ d ∈ (c.worker i).keys,
      ¬ calm ∧ (c.store.standing d).Safe config
  | .deliver .. | .tick _ | .edit .. => True

variable (P config calm proc) in
/-- Every delivery is in one hand or free, and stored under its id. -/
structure Kept (c : Fleet τ) : Prop where
  owned : (custody P config calm).Owned (machine P) (who proc) c
  named : ∀ d, (c.store.standing d).Named d

variable [DecidableEq τ]

/-- **One event.** -/
theorem kept_step (hmax : calm → 0 < config.maxAttempts) (h : Kept P config calm proc c)
    {ev : Event τ} (hev : Orderly P config calm proc c ev) :
    Kept P config calm proc (step P config proc c ev) ∧ ∀ d, (c.store.standing d).Kept config calm d
      ((step P config proc c ev).store.standing d) := by
  suffices hboth : (custody P config calm).Owned (machine P) (who proc) (step P config proc c ev) ∧
      ∀ d, (c.store.standing d).Kept config calm d ((step P config proc c ev).store.standing d) from
    ⟨⟨hboth.1, fun d => (hboth.2 d).named (h.named d)⟩, hboth.2⟩
  have hassign : ∀ i code, (c.assign i code).store = c.store := by
    intro i code
    rw [Crew.assign]
    split <;> rfl
  cases ev with
  | deliver i n =>
    refine ⟨h.owned.assign i (takes_notice hmax n) List.nodup_nil fun _ hj =>
      absurd hj List.not_mem_nil, fun d => ?_⟩
    rw [step, hassign]
    exact .refl _
  | tick i =>
    refine ⟨h.owned.assign i takes_due List.nodup_nil fun _ hj => absurd hj List.not_mem_nil,
      fun d => ?_⟩
    rw [step, hassign]
    exact .refl _
  | attempt i e sequence =>
    obtain ⟨hcalm, hnobody⟩ := hev
    refine ⟨h.owned.assign i trivial (List.nodup_singleton _) fun job hjob => ?_, fun d => ?_⟩
    · obtain rfl := List.mem_singleton.mp hjob
      refine ⟨hnobody, set_of_part (part_attempt rfl sequence) ⟨h.named e, ?_⟩ ?_⟩
      · exact fun hc => absurd hc hcalm
      · exact fun hc => absurd hc hcalm
    · rw [step, hassign]
      exact .refl _
  | act i x =>
    obtain ⟨howned, hkept⟩ := h.owned.act i hev
    exact ⟨howned, fun d => (hkept d).1⟩
  | stop p =>
    have howned : (custody P config calm).Owned (machine P) (who proc)
        (c.stop (fun i => proc i = p) fun s => s.onProcess p fun _ => .init) := by
      refine h.owned.stop (fun d => ⟨rfl, Nat.le_refl _⟩) fun i hi d hd => ?_
      obtain ⟨hcalm, hsafe⟩ := hev i (of_decide_eq_true hi) d hd
      exact ⟨hsafe.free (h.named d) hcalm, fun hc => absurd hc hcalm⟩
    exact ⟨howned, fun d => .refl _⟩
  | edit id record =>
    -- nobody loses anything
    have howned : (custody P config calm).Owned (machine P) (who proc) (c.stop (fun _ => false)
        fun s => { s with webhooks := Function.update s.webhooks id record }) :=
      h.owned.stop (fun d => ⟨rfl, Nat.le_refl _⟩) fun i hi => absurd hi Bool.false_ne_true
    exact ⟨howned, fun d => .refl _⟩

/-- **A run of orderly events.** -/
theorem kept_run (hmax : calm → 0 < config.maxAttempts) (h : Kept P config calm proc c)
    {ls : List (Event τ)}
    (hls : Along (step P config proc) (Orderly P config calm proc) c ls) :
    Kept P config calm proc (run (step P config proc) c ls) ∧ ∀ d, (c.store.standing d).Kept
      config calm d ((run (step P config proc) c ls).store.standing d) := by
  refine run_inv (I := fun c' => Kept P config calm proc c' ∧ ∀ d, (c.store.standing d).Kept
    config calm d (c'.store.standing d)) (fun c' ev hc' hev => ?_) ⟨h, fun d => .refl _⟩ hls
  obtain ⟨hkept, hstep⟩ := kept_step hmax hc'.1 hev
  exact ⟨hkept, fun d => (hc'.2 d).trans (hstep d)⟩

omit [DecidableEq τ] in
/-- A fleet that has nothing to do, and whose deliveries are free. -/
theorem kept_idle (hidle : ∀ i, c.worker i = .idle)
    (hfree : ∀ d, (custody P config calm).free d c.store) : Kept P config calm proc c :=
  ⟨Custody.owned_idle hidle hfree, fun d => (hfree d).1.named⟩

/-! ## 5. A fleet for examples -/

/-- An event of a fleet of one worker that can be seen to be orderly. -/
def plain (P : Platform) (config : Config) (c : Fleet Unit) : Event Unit → Bool
  | .act _ x => decide (x.fault = .none) && match c.worker () with
    | .working key op _ _ => match op with
      | .cachedWebhook id => (c.store.exec P ⟨0, some key⟩ x (.cachedWebhook id)).1.all fun w =>
          (w.secret.filter (· ≠ "")).isSome
      | .getWebhook id => ((c.store.webhooks id).map (normalize P config)).all fun w =>
          (w.secret.filter (· ≠ "")).isSome
      | _ => true
    | _ => true
  | .attempt .. | .stop _ => false
  | _ => true

theorem orderly_of_plain {P : Platform} {config : Config} {calm : Prop} {c : Fleet Unit}
    {ev : Event Unit} (h : plain P config c ev = true) :
    Orderly P config calm (fun _ => 0) c ev := by
  cases ev with
  | deliver | tick | edit => trivial
  | attempt | stop => cases h
  | act i x =>
    rw [plain, Bool.and_eq_true, decide_eq_true_eq] at h
    obtain ⟨hfault, hread⟩ := h
    have hnone : ∀ f, x.fault = f → f ≠ .none → False := fun f hf hne => hne (hf ▸ hfault)
    simp only [Orderly, Custody.Allows]
    cases hw : c.worker i with
    | idle => trivial
    | taking op k =>
      refine ⟨?_, fun e _ j => ?_⟩
      · change FairTake calm op x c.store
        cases op with
        | popDueRetries now max =>
          exact ⟨fun _ => hfault, fun hafter => (hnone _ hafter (by decide)).elim⟩
        | _ => trivial
      · rw [show j = i from rfl, hw]
        exact List.not_mem_nil
    | working key op k rest =>
      rw [show () = i from rfl, hw] at hread
      refine ⟨fun _ => hfault, fun _ hbefore => (hnone _ hbefore (by decide)).elim,
        fun _ hafter => (hnone _ hafter (by decide)).elim, fun w hw _ => .inl ?_⟩
      cases op with
      | cachedWebhook id =>
        exact (Option.all_eq_true _ _).mp hread w hw
      | getWebhook id =>
        exact (Option.all_eq_true _ _).mp hread w hw
      | _ => exact hw.elim

end Fleet

/-- A notice of an event for the webhook of the examples. -/
def sampleNotice : Notice where
  webhook := normalize samplePlatform sampleConfig sampleRecord
  eventType := "pool.created"
  eventId := "evt_0"
  payload := .null
  sequence := none
  requestId := none

/-- A fleet of one worker that has nothing to do. -/
def sampleFleet : Fleet Unit := ⟨Store.init, fun _ => .idle⟩

/-- A delivery whose first round is answered 500. -/
def sampleDelivering : List (Fleet.Event Unit) :=
  [.edit "wh_0" (some sampleRecord), .deliver () sampleNotice] ++
    List.replicate 31 (.act () (answering 500))

/-- A calm environment like `answering`, when the retry is due. -/
def answeringLater (status : ℕ) : Env where
  now := 100000
  lookup := .ok ["93.184.216.34"]
  connect := .ok "93.184.216.34"
  answer := .ok status

end SmartDrop.Webhooks
