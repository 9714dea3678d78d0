/-
# A delivery in the hands of a worker

What concerns one delivery is its record, whether its id is queued, and the rounds that were made
for it (`Standing`).  Only four commands can fail a call (`Op.Vital`); the failures of all others
are caught.  `Fair` are the steps on which a worker can be relied on: no vital command fails while
the delivery depends on the call, and the secret of the webhook can be read.

`satE_attempt` says that an attempt all of whose steps are fair lets go of a delivery that is safe:
if it is still owed an attempt, it is queued.  In a calm world, where no command fails, it says more:
the record counts the rounds, and the delivery is queued exactly when it is pending.
-/
import SmartDrop.Webhooks.Fleet

namespace SmartDrop.Webhooks

open Conc Redis deliveryRepository dispatcher

/-! ## 1. What concerns one delivery -/

/-- The state of one delivery. -/
structure Standing where
  record : Option Delivery
  queued : Prop
  rounds : ℕ

def Store.standing (s : Store) (d : String) : Standing := ⟨s.deliveries d, d ∈ s.retries, s.rounds d⟩

/-- A delivery that there is not. -/
def Standing.blank : Standing := ⟨none, False, 0⟩

/-- Nothing is stored at first. -/
theorem Store.standing_init (d : String) : Store.init.standing d = .blank := by
  have hempty : (d ∈ Store.init.retries) = False := eq_false (ZSet.not_mem_empty d)
  rw [Store.standing, hempty]
  rfl

section Standing

variable (config : Config) (calm : Prop) (d : String)

/-- A delivery waits for another attempt. -/
def Delivery.Owed (r : Delivery) : Prop := r.status = .pending ∧ r.attempts < config.maxAttempts

/-- A delivery that is owed an attempt is queued. -/
def Standing.Safe (v : Standing) : Prop := ∀ r, v.record = some r → r.Owed config → v.queued

/-- The record has the id it is stored under. -/
def Standing.Named (v : Standing) : Prop := ∀ r, v.record = some r → r.id = d

/-- Between two attempts nothing is left to do: the record counts the rounds, there are not too
many, and the delivery is queued exactly when it is pending. -/
structure Standing.Settled (v : Standing) : Prop where
  absent : v.record = none → ¬ v.queued ∧ v.rounds = 0
  counted : ∀ r, v.record = some r → r.attempts = v.rounds
  bounded : v.rounds ≤ config.maxAttempts
  queued : ∀ r, v.record = some r → (v.queued ↔ r.status = .pending)
  left : ∀ r, v.record = some r → r.status = .pending → r.attempts < config.maxAttempts

/-- What holds of a delivery that nobody has in hand. -/
structure Standing.Free (v : Standing) : Prop where
  named : v.Named d
  safe : v.Safe config
  settled : calm → v.Settled config

/-- What every step does to a delivery. -/
structure Standing.Kept (v v' : Standing) : Prop where
  named : v.Named d → v'.Named d
  final : calm → ∀ r, v.record = some r → r.status ≠ .pending →
    ∃ r', v'.record = some r' ∧ r'.status = r.status
  bounded : calm → v.rounds ≤ config.maxAttempts → v'.rounds ≤ config.maxAttempts

/-- A delivery in hand that counts `a` attempts, after `k` more rounds. -/
structure Standing.Held (a k : ℕ) (v : Standing) : Prop where
  stored : ∃ r, v.record = some r
  named : v.Named d
  pending : calm → ∀ r, v.record = some r → r.status = .pending ∧ r.attempts = a
  rounds : calm → a < config.maxAttempts ∧ v.rounds = a + k
  unqueued : calm → ¬ v.queued

variable {config calm d} {v : Standing}

theorem Standing.Kept.refl (v : Standing) : v.Kept config calm d v :=
  ⟨id, fun _ r hr _ => ⟨r, hr, rfl⟩, fun _ => id⟩

theorem Standing.Kept.trans {v₁ v₂ v₃ : Standing} (h : v₁.Kept config calm d v₂)
    (h' : v₂.Kept config calm d v₃) : v₁.Kept config calm d v₃ where
  named hv := h'.named (h.named hv)
  final hc r hr hp := by
    obtain ⟨r₂, hr₂, hs₂⟩ := h.final hc r hr hp
    obtain ⟨r₃, hr₃, hs₃⟩ := h'.final hc r₂ hr₂ (by rwa [hs₂])
    exact ⟨r₃, hr₃, hs₃.trans hs₂⟩
  bounded hc hv := h'.bounded hc (h.bounded hc hv)

theorem Standing.settled_blank : Standing.blank.Settled config where
  absent _ := ⟨id, rfl⟩
  counted _ hr := by cases hr
  bounded := Nat.zero_le _
  queued _ hr := by cases hr
  left _ hr := by cases hr

theorem Standing.free_blank : Standing.blank.Free config calm d :=
  ⟨(fun _ hr => by cases hr), (fun _ hr => by cases hr), fun _ => Standing.settled_blank⟩

end Standing

/-! ## 2. Steps -/

/-- Steps that concern no delivery. -/
def Op.Elsewhere : Op → Prop
  | .insertDelivery .. | .updateDelivery .. | .deleteWebhook .. | .scheduleRetry ..
  | .popDueRetries .. | .assertPublicTarget _ | .post _ => False
  | _ => True

/-- Steps that concern no delivery but `d`, when they are taken for it. -/
def Op.About (d : String) : Op → Prop
  | .insertDelivery record _ => record.id = d
  | .updateDelivery id .. => id = d
  | .scheduleRetry id _ => id = d
  | .deleteWebhook .. | .popDueRetries .. => False
  | _ => True

/-- The commands whose failures nobody catches before the call has ended. -/
def Op.Vital : Op → Prop
  | .getDelivery _ | .insertDelivery .. | .updateDelivery .. | .scheduleRetry .. => True
  | _ => False

theorem Op.Elsewhere.about {op : Op} (h : op.Elsewhere) (d : String) : op.About d := by
  cases op <;> first | exact h.elim | exact trivial

theorem Op.Quiet.elsewhere {op : Op} (h : op.Quiet) : op.Elsewhere := by
  cases op <;> first | exact h.elim | exact trivial

section Steps

variable {P : Platform} {caller : Caller} {x : Env} {s : Store} {op : Op} {d e : String}

theorem Store.standing_eq {s s' : Store} (hrecord : s'.deliveries e = s.deliveries e)
    (hqueued : e ∈ s'.retries ↔ e ∈ s.retries) (hrounds : s'.rounds e = s.rounds e) :
    s'.standing e = s.standing e := by
  rw [Store.standing, Store.standing, hrecord, hrounds, propext hqueued]

theorem Op.Elsewhere.standing (h : op.Elsewhere) (caller : Caller) (x : Env) (s : Store) (e : String) :
    (s.exec P caller x op).2.standing e = s.standing e := by
  cases op with
  | cachedWebhook id =>
    simp only [Store.exec]
    split
    · rfl
    · split <;> rfl
  | insertDelivery | updateDelivery | deleteWebhook | scheduleRetry | popDueRetries
  | assertPublicTarget | post => exact h.elim
  | _ => rfl

/-- What is seen on the network for one delivery counts for no other. -/
theorem Store.rounds_log (s : Store) (t : Traffic) (hc : caller.delivery ≠ some e) :
    (s.log caller t).rounds e = s.rounds e := by
  have hfalse : decide (caller.delivery = some e) = false := decide_eq_false hc
  simp only [Store.rounds, Store.log, List.countP_cons, hfalse, Bool.false_and,
    Bool.false_eq_true, if_false, Nat.add_zero]

/-- **A step for one delivery** does not concern the others. -/
theorem Op.About.standing (h : op.About d) (hc : caller.delivery = some d) (he : e ≠ d) :
    (s.exec P caller x op).2.standing e = s.standing e := by
  have hlog : ∀ t, (s.log caller t).standing e = s.standing e := by
    intro t
    refine Store.standing_eq rfl Iff.rfl (Store.rounds_log s t ?_)
    rw [hc]
    exact fun h => he (Option.some.inj h).symm
  cases op with
  | insertDelivery record score =>
    obtain rfl : record.id = d := h
    exact Store.standing_eq (Function.update_of_ne he _ _) Iff.rfl rfl
  | updateDelivery id existing patch score =>
    obtain rfl : id = d := h
    exact Store.standing_eq (Function.update_of_ne he _ _) Iff.rfl rfl
  | scheduleRetry id score =>
    obtain rfl : id = d := h
    refine Store.standing_eq rfl ?_ rfl
    simp only [Store.exec, ZSet.mem_zadd, he, or_false]
  | assertPublicTarget url =>
    simp only [Store.exec]
    split <;> exact hlog _
  | post request =>
    simp only [Store.exec]
    split <;> exact hlog _
  | deleteWebhook | popDueRetries => exact h.elim
  | _ => exact Op.Elsewhere.standing (by trivial) caller x s e

theorem standing_insertDelivery (record : Delivery) (score : ℕ) :
    (s.exec P caller x (.insertDelivery record score)).2.standing record.id =
      { s.standing record.id with record := some record } := by
  simp only [Store.standing, Store.exec, Function.update_self]
  rfl

theorem standing_updateDelivery (existing : Delivery) (patch : DeliveryPatch) (score : ℕ) :
    (s.exec P caller x (.updateDelivery d existing patch score)).2.standing d =
      { s.standing d with record := some (existing.patched patch) } := by
  simp only [Store.standing, Store.exec, Function.update_self]
  rfl

theorem standing_scheduleRetry (due : ℚ) :
    (s.exec P caller x (.scheduleRetry d due)).2.standing d = { s.standing d with queued := True } := by
  simp only [Store.standing, Store.exec, ZSet.mem_zadd, or_true]
  rfl

/-- A refusal and a request are rounds. -/
theorem standing_log (hc : caller.delivery = some d) (t : Traffic) (ht : ∀ url a, t ≠ .passed url a) :
    (s.log caller t).standing d = { s.standing d with rounds := (s.standing d).rounds + 1 } := by
  have hrounds : (s.log caller t).rounds d = s.rounds d + 1 := by
    cases t with
    | passed url a => exact absurd rfl (ht url a)
    | refused url =>
      simp only [Store.rounds, Store.log, List.countP_cons, hc, decide_true, Bool.and_true, if_true]
    | posted request address =>
      simp only [Store.rounds, Store.log, List.countP_cons, hc, decide_true, Bool.and_true, if_true]
  simp only [Store.standing, hrounds]
  rfl

/-- A URL that passed the guard is no round. -/
theorem standing_passed (url : String) (addresses : List String) :
    (s.log caller (.passed url addresses)).standing d = s.standing d := by
  refine Store.standing_eq rfl Iff.rfl ?_
  simp only [Store.rounds, Store.log, List.countP_cons, Bool.and_false, Bool.false_eq_true,
    if_false, Nat.add_zero]

end Steps

/-! ## 3. Custody -/

/-- A webhook whose secret can sign. -/
def Webhook.Readable (w : Webhook) : Prop := (w.secret.filter (· ≠ "")).isSome

section Custody

variable (P : Platform) (config : Config) (calm : Prop)

/-- A step reads the webhook `w`. -/
def Op.Shows (t : Caller) (x : Env) (s : Store) (w : Webhook) : Op → Prop
  | .cachedWebhook id => (s.exec P t x (.cachedWebhook id)).1 = some w
  | .getWebhook id => (s.webhooks id).map (normalize P config) = some w
  | _ => False

/-- A vital command after which the call may end: the delivery is queued, or is written as one that
has been settled, or was safe before. -/
def Op.Completes (v : Standing) : Op → Prop
  | .insertDelivery .. => False
  | .scheduleRetry .. => True
  | .updateDelivery _ _ patch _ =>
    patch.status = some .success ∨ patch.status = some .failed ∨ v.Safe config
  | _ => v.Safe config

/-- A step for the delivery `d` on which a worker can be relied on. -/
structure Fair (t : Caller) (d : String) (op : Op) (x : Env) (s : Store) : Prop where
  faultless : calm → x.fault = .none
  before : op.Vital → x.fault = .before → (s.standing d).Safe config
  after : op.Vital → x.fault = .after → op.Completes config (s.standing d)
  readable : ∀ w, op.Shows P config t x s w → w.active →
    w.Readable ∨ ¬ calm ∧ (s.standing d).Safe config

/-- The id `d` will not be drawn any more. -/
def Drawn (d : String) (s : Store) : Prop :=
  ∀ n, s.uuidsDrawn ≤ n → d ≠ "dlv_" ++ P.randomUUID n

/-- A worker that has no delivery yet: the answer with those that it is given arrives. -/
def FairTake (op : Op) (x : Env) (s : Store) : Prop :=
  match op with
  | .popDueRetries now max =>
    (calm → x.fault = .none) ∧ (x.fault = .after → s.retries.zrangebyscore now max = [])
  | _ => True

/-- **The custody of deliveries.** -/
def custody : Custody sig String Caller Env Store where
  ok := Fair P config calm
  okTake _ := FairTake calm
  same d s s' := s'.standing d = s.standing d ∧ s.uuidsDrawn ≤ s'.uuidsDrawn
  kept d s s' := (s.standing d).Kept config calm d (s'.standing d) ∧ s.uuidsDrawn ≤ s'.uuidsDrawn
  free d s := (s.standing d).Free config calm d ∧ (calm → Drawn P d s ∨ s.standing d = .blank)
  same_refl _ _ := ⟨rfl, Nat.le_refl _⟩
  kept_of_same h := ⟨by rw [h.1]; exact Standing.Kept.refl _, h.2⟩
  free_stable d s s' h hsame := by
    obtain ⟨hstanding, hdrawn⟩ := hsame
    rw [hstanding]
    refine ⟨h.1, fun hc => (h.2 hc).imp_left ?_⟩
    exact fun hd n hn => hd n (hdrawn.trans hn)

end Custody

section Rules

variable {P : Platform} {config : Config} {calm : Prop} {t : Caller} {d : String}

theorem uuidsDrawn_exec (t : Caller) (op : Op) (x : Env) (s : Store) :
    s.uuidsDrawn ≤ ((machine P).exec t op x s).2.uuidsDrawn := by
  refine machine_store_of (Q := fun s' => s.uuidsDrawn ≤ s'.uuidsDrawn) (Nat.le_refl _) ?_
  cases op with
  | randomUUID => exact Nat.le_succ _
  | cachedWebhook id =>
    simp only [Store.exec]
    split
    · exact Nat.le_refl _
    · split <;> exact Nat.le_refl _
  | assertPublicTarget url =>
    simp only [Store.exec]
    split <;> exact Nat.le_refl _
  | post request =>
    simp only [Store.exec]
    split <;> exact Nat.le_refl _
  | _ => exact Nat.le_refl _

/-- What a step for `d` does to `d` is what it has to answer for. -/
theorem guar_of_kept {op : Op} (habout : op.About d) (ht : t.delivery = some d) {x : Env} {s : Store}
    (hkept : (s.standing d).Kept config calm d (((machine P).exec t op x s).2.standing d)) :
    ((custody P config calm).contract t d).guar s ((machine P).exec t op x s).2 := by
  refine ⟨⟨hkept, uuidsDrawn_exec t op x s⟩, fun e he => ⟨?_, uuidsDrawn_exec t op x s⟩⟩
  exact machine_store_of (Q := fun s' => s'.standing e = s.standing e) rfl (habout.standing ht he)

variable {V : Standing → Prop}

/-- An assertion about the delivery is stable. -/
theorem stable_standing (V : Standing → Prop) :
    Stable ((custody P config calm).contract t d).rely fun s => V (s.standing d) := by
  intro s s' hs hsame
  rw [hsame.1]
  exact hs

variable (P config calm t d) in
/-- A part of a call for the delivery `d`: from `V` it returns with `Q` or throws with `E`. -/
abbrev Part {α : Type} (code : Code α) (V : Standing → Prop) (Q : α → Standing → Prop)
    (E : Standing → Prop) : Prop :=
  SatE (machine P) t ((custody P config calm).contract t d) code (fun s => V (s.standing d))
    (fun r s => Q r (s.standing d)) fun _ s => E (s.standing d)

/-- **The rule for a command.** -/
theorem part_redis {op : Op} (habout : op.About d) (ht : t.delivery = some d)
    {Q : op.Ret → Standing → Prop} {E : Standing → Prop}
    (h : ∀ x s, V (s.standing d) → Fair P config calm t d op x s →
      (s.standing d).Kept config calm d ((s.exec P t x op).2.standing d) ∧
      Q (s.exec P t x op).1 ((s.exec P t x op).2.standing d))
    (hfail : op.isLocal = false → ∀ x s, V (s.standing d) → Fair P config calm t d op x s →
      (x.fault = .before → E (s.standing d)) ∧ (x.fault = .after → E ((s.exec P t x op).2.standing d))) :
    Part P config calm t d (redis op) V Q E := by
  intro x s hs hok
  obtain ⟨hkept, hq⟩ := h x s hs hok
  have hguar := guar_of_kept habout ht (x := x) (s := s)
    (machine_store_of (Q := fun s' => (s.standing d).Kept config calm d (s'.standing d)) (.refl _) hkept)
  refine ⟨hguar, ?_⟩
  cases hlocal : op.isLocal with
  | true =>
    have hexec : (machine P).exec t op x s = (.ok (s.exec P t x op).1, (s.exec P t x op).2) := by
      simp only [machine, hlocal, if_true]
    rw [hexec]
    exact ⟨_, stable_standing (Q (s.exec P t x op).1), hq, fun _ hs => hs⟩
  | false =>
    obtain ⟨hbefore, hafter⟩ := hfail hlocal x s hs hok
    cases hfault : x.fault with
    | none =>
      rw [machine_exec_ok P s hfault]
      exact ⟨_, stable_standing (Q (s.exec P t x op).1), hq, fun _ hs => hs⟩
    | before =>
      have hexec : (machine P).exec t op x s = (.error "Redis command failed", s) := by
        simp only [machine, hlocal, hfault, Bool.false_eq_true, if_false]
      rw [hexec]
      exact ⟨_, stable_standing E, hbefore hfault, fun _ hs => hs⟩
    | after =>
      have hexec : (machine P).exec t op x s =
          (.error "Redis command failed", (s.exec P t x op).2) := by
        simp only [machine, hlocal, hfault, Bool.false_eq_true, if_false]
      rw [hexec]
      exact ⟨_, stable_standing E, hafter hfault, fun _ hs => hs⟩

/-- A step that cannot fail. -/
theorem part_local {op : Op} (hlocal : op.isLocal = true) (habout : op.About d)
    (ht : t.delivery = some d) {Q : op.Ret → Standing → Prop} {E : Standing → Prop}
    (h : ∀ x s, V (s.standing d) → Fair P config calm t d op x s →
      (s.standing d).Kept config calm d ((s.exec P t x op).2.standing d) ∧
      Q (s.exec P t x op).1 ((s.exec P t x op).2.standing d)) :
    Part P config calm t d (redis op) V Q E :=
  part_redis habout ht h fun hnot => absurd hlocal (by rw [hnot]; exact Bool.false_ne_true)

/-- A part that does not concern the delivery. -/
theorem part_elsewhere {α : Type} {code : Code α} (h : Uses Op.Elsewhere code) (ht : t.delivery = some d) :
    Part P config calm t d code V (fun _ => V) V := by
  refine SatE.frame (stable_standing V) (fun op hop x s hs _ => ?_) h
  have hstanding : ((machine P).exec t op x s).2.standing d = s.standing d :=
    machine_store_of (Q := fun s' => s'.standing d = s.standing d) rfl (hop.standing t x s d)
  refine ⟨guar_of_kept (hop.about d) ht ?_, ?_⟩
  · rw [hstanding]
    exact Standing.Kept.refl _
  · rw [hstanding]
    exact hs

/-- A local step that does not concern the delivery. -/
theorem part_aside {op : Op} (hlocal : op.isLocal = true) (hop : op.Elsewhere) (ht : t.delivery = some d)
    {E : Standing → Prop} :
    Part P config calm t d (redis op) V (fun _ => V) E := by
  refine part_local hlocal (hop.about d) ht fun x s hs _ => ?_
  rw [hop.standing]
  exact ⟨.refl _, hs⟩

/-- A part whose failures are caught. -/
theorem part_caught {α : Type} {code : Code α} {handler : Err → Code α} (h : Uses Op.Elsewhere code)
    (hhandler : ∀ e, ∃ a, handler e = pure a) (ht : t.delivery = some d) {E : Standing → Prop} :
    Part P config calm t d (tryCatch code handler) V (fun _ => V) E := by
  refine SatE.tryCatch (part_elsewhere h ht) fun e => ?_
  obtain ⟨a, ha⟩ := hhandler e
  rw [ha]
  exact SatE.pure fun _ hs => hs

theorem part_unchecked {op : Op} (hop : op.Elsewhere) (ht : t.delivery = some d) {E : Standing → Prop} :
    Part P config calm t d (unchecked op) V (fun _ => V) E :=
  part_caught (Throws.Uses.bind (uses_redis hop) fun _ => Throws.uses_pure _) (fun _ => ⟨_, rfl⟩) ht

end Rules

/-! ## 4. Parts of an attempt -/

section Parts

variable {P : Platform} {config : Config} {calm : Prop} {t : Caller} {d : String} {a k : ℕ}
  {V : Standing → Prop} {v : Standing}

/-- In a world that is not calm only safety is asked for. -/
theorem Standing.Safe.free (h : v.Safe config) (hnamed : v.Named d) (hcalm : ¬ calm) :
    v.Free config calm d := ⟨hnamed, h, fun hc => absurd hc hcalm⟩

/-- Commands fail in no calm world. -/
theorem Fair.not_calm {op : Op} {x : Env} {s : Store} (h : Fair P config calm t d op x s)
    (hfault : x.fault ≠ .none) : ¬ calm := fun hc => hfault (h.faultless hc)

/-- **The rule for `update`.** -/
theorem part_update (ht : t.delivery = some d) {patch : DeliveryPatch} {Q : Standing → Prop}
    (hV : ∀ v, V v → (∃ r, v.record = some r) ∧ v.Named d)
    (hwrite : ∀ v r, V v → v.record = some r →
      v.Kept config calm d { v with record := some (r.patched patch) } ∧
      Q { v with record := some (r.patched patch) })
    (hsafe : ∀ v r, V v → v.record = some r →
      patch.status = some .success ∨ patch.status = some .failed ∨ v.Safe config →
      Standing.Safe config { v with record := some (r.patched patch) }) :
    Part P config calm t d (update d patch) V (fun _ => Q) (Standing.Free config calm d) := by
  have hget : Part P config calm t d (redis (.getDelivery d)) V
      (fun found v => V v ∧ found = v.record) (Standing.Free config calm d) := by
    refine part_redis (by trivial) ht ?_ ?_
    · intro x s hs _
      exact ⟨.refl _, hs, rfl⟩
    · intro _ x s hs hfair
      refine ⟨fun hfault => ?_, fun hfault => ?_⟩
      · exact (hfair.before trivial hfault).free (hV _ hs).2 (hfair.not_calm (by simp [hfault]))
      · exact Standing.Safe.free (hfair.after trivial hfault) (hV _ hs).2
          (hfair.not_calm (by simp [hfault]))
  refine SatE.bind hget ?_
  rintro (_ | existing)
  · refine SatE.pure fun s hs => ?_
    obtain ⟨r, hr⟩ := (hV _ hs.1).1
    rw [← hs.2] at hr
    cases hr
  · refine SatE.bind (Q := fun _ s => V (s.standing d) ∧ some existing = (s.standing d).record) ?_ ?_
    · rw [indexScore]
      split
      · exact SatE.pure fun _ hs => hs
      · exact part_aside (V := fun v => V v ∧ some existing = v.record) rfl (by trivial) ht
    · intro score
      refine SatE.bind (Q := fun _ s => Q (s.standing d)) ?_ fun _ =>
        SatE.bind (part_unchecked (V := Q) (by trivial) ht) fun _ => SatE.pure fun _ hs => hs
      refine part_redis (V := fun v => V v ∧ some existing = v.record) (Q := fun _ => Q) (by rfl) ht
        ?_ ?_
      · intro x s hs _
        rw [standing_updateDelivery]
        exact hwrite _ existing hs.1 hs.2.symm
      · intro _ x s hs hfair
        refine ⟨fun hfault => ?_, fun hfault => ?_⟩
        · exact (hfair.before trivial hfault).free (hV _ hs.1).2
            (hfair.not_calm (by simp [hfault]))
        · rw [standing_updateDelivery]
          refine Standing.Safe.free (hsafe _ existing hs.1 hs.2.symm (hfair.after trivial hfault))
            ?_ (hfair.not_calm (by simp [hfault]))
          intro r hr
          rw [← Option.some.inj hr]
          exact (hV _ hs.1).2 existing hs.2.symm

/-- The record of a held delivery is patched, but neither its status nor its attempts. -/
theorem Standing.Held.note (h : v.Held config calm d a k) {r : Delivery} (hr : v.record = some r)
    {patch : DeliveryPatch} (hstatus : patch.status = none) (hattempts : patch.attempts = none) :
    v.Kept config calm d { v with record := some (r.patched patch) } ∧
      Standing.Held config calm d a k { v with record := some (r.patched patch) } := by
  have hsame : (r.patched patch).status = r.status ∧ (r.patched patch).attempts = r.attempts := by
    simp only [Delivery.patched, hstatus, hattempts, Option.getD_none, and_self]
  have hnamed : ∀ r', some (r.patched patch) = some r' → r'.id = d := by
    intro r' hr'
    rw [← Option.some.inj hr']
    exact h.named r hr
  refine ⟨⟨fun _ => hnamed, fun _ r' hr' _ => ?_, fun _ hb => hb⟩, ⟨⟨_, rfl⟩, hnamed, ?_, h.rounds,
    h.unqueued⟩⟩
  · rw [hr] at hr'
    rw [← Option.some.inj hr']
    exact ⟨_, rfl, hsame.1⟩
  · intro hc r' hr'
    rw [← Option.some.inj hr', hsame.1, hsame.2]
    exact h.pending hc r hr

/-- A write that is no outcome. -/
theorem part_note (ht : t.delivery = some d) {patch : DeliveryPatch} (hstatus : patch.status = none)
    (hattempts : patch.attempts = none) :
    Part P config calm t d (update d patch) (Standing.Held config calm d a k)
      (fun _ => Standing.Held config calm d a k) (Standing.Free config calm d) := by
  refine part_update ht (fun v hv => ⟨hv.stored, hv.named⟩) (fun v r hv hr =>
    hv.note hr hstatus hattempts) ?_
  intro v r hv hr hsafe r' hr' howed
  rw [hstatus] at hsafe
  rcases hsafe with hsafe | hsafe | hsafe
  · cases hsafe
  · cases hsafe
  · refine hsafe r hr ?_
    rw [← Option.some.inj hr'] at howed
    simpa only [Delivery.Owed, Delivery.patched, hstatus, hattempts, Option.getD_none] using howed

/-- **A write that settles the delivery.** -/
theorem part_settle (ht : t.delivery = some d) {patch : DeliveryPatch} (hk : k ≤ 1)
    (hstatus : patch.status = some .success ∨ patch.status = some .failed)
    (hattempts : patch.attempts.getD a = a + k) :
    Part P config calm t d (update d patch) (Standing.Held config calm d a k)
      (fun _ => Standing.Free config calm d) (Standing.Free config calm d) := by
  have hdone : ∀ r : Delivery, (r.patched patch).status ≠ .pending := by
    intro r
    rcases hstatus with h | h <;> simp [Delivery.patched, h]
  have hsafe : ∀ (v : Standing) (r : Delivery),
      Standing.Safe config { v with record := some (r.patched patch) } := by
    intro v r r' hr' howed
    rw [← Option.some.inj hr'] at howed
    exact absurd howed.1 (hdone r)
  refine part_update ht (fun v hv => ⟨hv.stored, hv.named⟩) ?_ fun v r _ _ _ => hsafe v r
  intro v r hv hr
  have hnamed : ∀ r', some (r.patched patch) = some r' → r'.id = d := by
    intro r' hr'
    rw [← Option.some.inj hr']
    exact hv.named r hr
  refine ⟨⟨fun _ => hnamed, fun hc r' hr' hp => ?_, fun _ hb => hb⟩, hnamed, hsafe v r, fun hc => ?_⟩
  · exact absurd (hv.pending hc r' hr').1 hp
  · obtain ⟨hlt, hrounds⟩ := hv.rounds hc
    obtain ⟨-, hcount⟩ := hv.pending hc r hr
    refine ⟨(fun h => by cases h), fun r' hr' => ?_, ?_, fun r' hr' => ?_, fun r' hr' hp => ?_⟩
    · rw [← Option.some.inj hr', hrounds]
      simp only [Delivery.patched, hcount, hattempts]
    · change v.rounds ≤ config.maxAttempts
      omega
    · rw [← Option.some.inj hr']
      exact iff_of_false (hv.unqueued hc) (hdone r)
    · rw [← Option.some.inj hr'] at hp
      exact absurd hp (hdone r)

/-- **A retry**: the id is queued, and then the record is written. -/
theorem part_retryLater (ht : t.delivery = some d) {delivery : Delivery} {now : ℕ} {o : Outcome}
    (hid : delivery.id = d) (hleft : a + 1 < config.maxAttempts) :
    Part P config calm t d (retryLater config d delivery (a + 1) now o)
      (Standing.Held config calm d a 1) (fun _ => Standing.Free config calm d)
      (Standing.Free config calm d) := by
  refine SatE.bind (part_aside (by rfl) (by trivial) ht) fun random => ?_
  refine SatE.bind (part_aside (by rfl) (by trivial) ht) fun nextRetryAt => ?_
  refine SatE.bind (part_aside (by rfl) (by trivial) ht) fun scheduledAt => ?_
  -- between the two writes the delivery is held and queued
  refine SatE.bind (Q := fun _ s => ∃ v, Standing.Held config calm d a 1 v ∧
    s.standing d = { v with queued := True }) ?_ fun _ => ?_
  · rw [hid]
    refine part_redis (V := Standing.Held config calm d a 1)
      (Q := fun _ v' => ∃ v, Standing.Held config calm d a 1 v ∧ v' = { v with queued := True }) (by rfl) ht
      ?_ ?_
    · intro x s hs _
      rw [standing_scheduleRetry]
      exact ⟨⟨fun _ => hs.named, fun _ r hr _ => ⟨r, hr, rfl⟩, fun _ hb => hb⟩, _, hs, rfl⟩
    · intro _ x s hs hfair
      refine ⟨fun hfault => ?_, fun hfault => ?_⟩
      · exact (hfair.before trivial hfault).free hs.named (hfair.not_calm (by simp [hfault]))
      · rw [standing_scheduleRetry]
        exact Standing.Safe.free (fun _ _ _ => trivial) hs.named (hfair.not_calm (by simp [hfault]))
  · refine part_update (V := fun v' => ∃ v, Standing.Held config calm d a 1 v ∧
      v' = { v with queued := True }) ht ?_ ?_ ?_
    · rintro _ ⟨v, hv, rfl⟩
      exact ⟨hv.stored, hv.named⟩
    · rintro _ r ⟨v, hv, rfl⟩ hr
      have hnamed : ∀ r', some (r.patched (outcomePatch .pending (a + 1) now
          (some ⌊(nextRetryAt + backoffMs config (a + 1) random : ℚ)⌋₊) (some o.errorMessage) o)) =
          some r' → r'.id = d := by
        intro r' hr'
        rw [← Option.some.inj hr']
        exact hv.named r hr
      refine ⟨⟨fun _ => hnamed, fun hc r' hr' hp => ?_, fun _ hb => hb⟩, hnamed,
        fun _ _ _ => trivial, fun hc => ?_⟩
      · exact absurd (hv.pending hc r' hr').1 hp
      · obtain ⟨hlt, hrounds⟩ := hv.rounds hc
        refine ⟨(fun h => by cases h), fun r' hr' => ?_, ?_, fun r' hr' => ?_, fun r' hr' _ => ?_⟩
        · rw [← Option.some.inj hr']
          exact hrounds.symm
        · change v.rounds ≤ config.maxAttempts
          omega
        · rw [← Option.some.inj hr']
          exact iff_of_true trivial rfl
        · rw [← Option.some.inj hr']
          exact hleft
    · rintro _ r ⟨v, hv, rfl⟩ _ _
      exact fun _ _ _ => trivial

theorem part_recordDeliveryEnd (ht : t.delivery = some d) {webhookId : String} {success : Bool}
    {attempts latencyMs : ℕ} {E : Standing → Prop} :
    Part P config calm t d (recordDeliveryEnd d webhookId success attempts latencyMs) V
      (fun _ => V) E :=
  SatE.bind (part_aside (by rfl) (by trivial) ht) fun _ => part_unchecked (by trivial) ht

theorem part_enqueueDeadLetter (ht : t.delivery = some d) {entry : DeadLetter} {E : Standing → Prop} :
    Part P config calm t d (enqueueDeadLetter entry) V (fun _ => V) E :=
  part_caught (Throws.Uses.bind (uses_redis (by trivial)) fun _ => uses_redis (by trivial))
    (fun _ => ⟨_, rfl⟩) ht

/-- **The outcome of a round** is recorded. -/
theorem part_recordOutcome (ht : t.delivery = some d) {delivery : Delivery} {webhook : Webhook}
    {traceId : String} {latencyMs now : ℕ} {o : Outcome} (hid : delivery.id = d)
    (hcount : delivery.attempts = a) :
    Part P config calm t d (recordOutcome config d delivery webhook traceId latencyMs now o)
      (Standing.Held config calm d a 1) (fun _ => Standing.Free config calm d)
      (Standing.Free config calm d) := by
  subst hcount
  rw [recordOutcome]
  split
  · exact SatE.bind (part_recordDeliveryEnd ht) fun _ =>
      part_settle ht (Nat.le_refl _) (.inl rfl) rfl
  · split
    · rename_i hretry
      rw [Bool.and_eq_true, decide_eq_true_eq] at hretry
      exact SatE.bind (part_recordDeliveryEnd ht) fun _ => part_retryLater ht hid hretry.2
    · refine SatE.bind (part_recordDeliveryEnd ht) fun _ => ?_
      exact SatE.bind (part_enqueueDeadLetter ht) fun _ =>
        part_settle ht (Nat.le_refl _) (.inr rfl) rfl

/-- A round has been made for a held delivery. -/
theorem Standing.Held.round (h : v.Held config calm d a 0) :
    v.Kept config calm d { v with rounds := v.rounds + 1 } ∧
      Standing.Held config calm d a 1 { v with rounds := v.rounds + 1 } := by
  have hrounds : calm → v.rounds = a ∧ a < config.maxAttempts := fun hc =>
    ⟨(h.rounds hc).2, (h.rounds hc).1⟩
  refine ⟨⟨id, fun _ r hr _ => ⟨r, hr, rfl⟩, fun hc _ => ?_⟩, h.stored, h.named, h.pending,
    fun hc => ⟨(h.rounds hc).1, ?_⟩, h.unqueued⟩
  · obtain ⟨heq, hlt⟩ := hrounds hc
    change v.rounds + 1 ≤ config.maxAttempts
    omega
  · change v.rounds + 1 = a + 1
    rw [(hrounds hc).1]

/-- **One round.** -/
theorem part_makeRound (ht : t.delivery = some d) {webhook : Webhook}
    {headers : List (String × String)} {body : String} {E : Standing → Prop} :
    Part P config calm t d (makeRound config webhook headers body) (Standing.Held config calm d a 0)
      (fun _ => Standing.Held config calm d a 1) E := by
  have hguard : Part P config calm t d (redis (.assertPublicTarget webhook.url))
      (Standing.Held config calm d a 0)
      (fun r v => Standing.Held config calm d a (if r.toOption.isSome then 0 else 1) v) E := by
    refine part_local (by rfl) (by trivial) ht fun x s hs _ => ?_
    rcases hguard : assertPublicTarget P webhook.url x.lookup with e | ⟨target, addresses⟩
    · simp only [Store.exec, hguard]
      rw [standing_log ht _ (by intro url addresses h; cases h)]
      exact Standing.Held.round hs
    · simp only [Store.exec, hguard]
      rw [standing_passed]
      exact ⟨.refl _, hs⟩
  have hpost : ∀ request, Part P config calm t d (redis (.post request))
      (Standing.Held config calm d a 0) (fun _ => Standing.Held config calm d a 1) E := by
    intro request
    refine part_local (by rfl) (by trivial) ht fun x s hs _ => ?_
    simp only [Store.exec]
    split
    · rw [standing_log ht _ (by intro url addresses h; cases h)]
      exact Standing.Held.round hs
    · rw [standing_log ht _ (by intro url addresses h; cases h)]
      exact Standing.Held.round hs
  refine SatE.bind hguard ?_
  rintro (err | target)
  · exact SatE.pure fun _ hs => hs
  · refine SatE.bind (hpost _) ?_
    rintro (err | status) <;> exact SatE.pure fun _ hs => hs

end Parts

end SmartDrop.Webhooks
