/-
# One endpoint's failure and the other alerts

`evaluateForAssetInner` awaits one delivery after the other, and nothing in its loop catches what a
delivery throws.  `deliver` of `services/webhook.js` throws when the endpoint answers with anything but
success, when there is no answer, and when the breaker that all deliveries share lets no request
through.  So the first failure is the end of the pass: the alerts that come later in the order of
`SMEMBERS` are not delivered, whoever owns them.

`reached` is what a pass gets to, `Through` when that is everything.  Redis does not fail here, and the
pass is not given up.
-/
import SmartDrop.Alerts.Store
import SmartDrop.Utils.CircuitBreaker

namespace SmartDrop.Alerts.Isolation

open Binary64 Conc Redis Utils

/-! ## 1. `services/webhook.js` -/

/-- What the code knows of an error that a request fails with. -/
structure Errors (ε : Type) where
  message : ε → String
  isDependencyFailure : ε → Bool

/-- What a delivery meets: what other deliveries make of the breaker before this one finds it, the times
at which it begins and settles, and the status of the answer or the error, the timeout's included. -/
structure Circumstance (ε : Type) where
  others : Breaker → Breaker
  startedAt : ℕ
  settledAt : ℕ
  response : Except ε ℕ

/-- What `sendSignedRequest` returns. -/
structure SendResult where
  ok : Bool
  status : ℕ
  duration_ms : ℕ
  error : Option String

section Webhook

variable {ε : Type} (E : Errors ε)

/-- `webhookBreaker`. -/
def webhookBreaker : CircuitBreaker ε :=
  .new "webhook-delivery"
    { failureThreshold := some 5
      successThreshold := none
      timeoutMs := some 30000
      windowMs := some 60000
      trialCount := none
      throwOnOpen := false
      isFailure := E.isDependencyFailure }

/-- `response.status >= 200 && response.status < 300`. -/
def isSuccess (status : ℕ) : Bool := 200 ≤ status ∧ status < 300

/-- `sendSignedRequest`, with the breaker that it leaves. -/
def sendSignedRequest (c : Circumstance ε) (b : Breaker) : Except ε SendResult × Breaker :=
  match enter (webhookBreaker E) none c.startedAt (c.others b) with
  | (.invoked probing, b) =>
    match c.response with
    | .ok status =>
      (.ok ⟨isSuccess status, status, c.settledAt - c.startedAt, none⟩,
        settle (webhookBreaker E) probing c.settledAt .resolved b)
    | .error err => (.error err, settle (webhookBreaker E) probing c.settledAt (.rejected err) b)
  | (_, b) => (.ok ⟨false, 503, c.settledAt - c.startedAt, some "Circuit breaker open"⟩, b)

/-- `deliver`, with the breaker that it leaves. -/
def deliver (c : Circumstance ε) (b : Breaker) : Except Err Unit × Breaker :=
  match sendSignedRequest E c b with
  | (.ok result, b) =>
    if result.ok then (.ok (), b)
    else (.error ("Webhook delivery failed with status " ++ toString result.status), b)
  | (.error err, b) => (.error (E.message err), b)

/-- The breaker lets the request through, and the endpoint answers with success. -/
def Succeeds (c : Circumstance ε) (b : Breaker) : Prop :=
  (∃ probing, (enter (webhookBreaker E) none c.startedAt (c.others b)).1 = .invoked probing) ∧
    ∃ status, c.response = .ok status ∧ isSuccess status = true

/-- **When a delivery throws.** -/
theorem deliver_eq_ok_iff (c : Circumstance ε) (b : Breaker) :
    (deliver E c b).1 = .ok () ↔ Succeeds E c b := by
  unfold deliver sendSignedRequest Succeeds
  obtain ⟨entry, b'⟩ := enter (webhookBreaker E) none c.startedAt (c.others b)
  cases entry with
  | skipped => simp
  | refused e => simp
  | invoked probing =>
    cases c.response with
    | error err => simp
    | ok status => cases hs : isSuccess status <;> simp [hs]

end Webhook

/-! ## 2. A pass -/

/-- The database, the breaker and what `deliver` has been called with, the latest first. -/
structure World where
  store : Store
  breaker : Breaker
  attempted : List Payload

section Pass

variable {ε : Type} (E : Errors ε) (P : Platform Unit) (C : String → Circumstance ε)

/-- What the service runs on, the delivery of the alert `id` meeting `C id`.  The environment of a
command is the time that it takes. -/
def passMachine : Machine sig Unit ℕ World where
  exec i op elapsed w :=
    match op with
    | Op.deliver _ _ payload =>
      let c := C payload.alert_id
      let r := deliver E c w.breaker
      (r.1, ⟨{ w.store with now := c.settledAt }, r.2, payload :: w.attempted⟩)
    | op =>
      let r := (w.store.wait elapsed).exec P i none op
      (.ok r.1, { w with store := r.2 })

/-- What a pass leaves that runs alone. -/
def pass (asset : String) (priceUsd : Double) (elapsed : ℕ → ℕ) (w : World) : World :=
  ((evaluateForAsset asset priceUsd).prog.runWith (passMachine E P C) () elapsed w).2

/-- The alert is of the asset, and its condition is met. -/
def IsMet (asset : String) (priceUsd : Double) (alert : Alert) : Prop :=
  alert.asset = toUpperCase asset ∧ isTriggered alert priceUsd = true

instance (asset : String) (priceUsd : Double) : DecidablePred (IsMet asset priceUsd) :=
  fun _ => inferInstanceAs (Decidable (_ ∧ _))

/-- The alerts with the ids whose condition is met. -/
def met (asset : String) (priceUsd : Double) (s : Store) (ids : List String) : List Alert :=
  (ids.filterMap s.records).filter fun alert => IsMet asset priceUsd alert

/-- The alerts of the asset whose condition is met, in the order of `SMEMBERS`. -/
def triggered (asset : String) (priceUsd : Double) (s : Store) : List Alert :=
  met asset priceUsd s (s.assets (assetIdsKey asset)).members

/-- Alerts are stored under their ids, and those of the asset do not repeat. -/
structure Plain (asset : String) (s : Store) : Prop where
  keyed : ∀ id alert, s.records id = some alert → alert.id = id
  single : ∀ id alert, s.records id = some alert → alert.asset = toUpperCase asset →
    alert.repeats = false

/-- `deliver` has been called for the alert. -/
def Attempted (w : World) (alert : Alert) : Prop := alert.id ∈ w.attempted.map (·.alert_id)

instance (w : World) (alert : Alert) : Decidable (Attempted w alert) :=
  inferInstanceAs (Decidable (_ ∈ _))

/-- Every alert but the last is delivered, `b` being the breaker that the first delivery is made with. -/
def Through (b : Breaker) : List Alert → Prop
  | [] => True
  | alert :: alerts =>
    alerts = [] ∨ Succeeds E (C alert.id) b ∧ Through (deliver E (C alert.id) b).2 alerts

/-- The alerts for which `deliver` is called: those up to the first that is not delivered. -/
def reached (b : Breaker) : List Alert → List Alert
  | [] => []
  | alert :: alerts =>
    match deliver E (C alert.id) b with
    | (.ok _, b) => alert :: reached b alerts
    | (.error _, _) => [alert]

end Pass

/-! ## 3. What a pass gets to -/

section Reached

variable {ε : Type} {E : Errors ε} {C : String → Circumstance ε} {b : Breaker} {alert : Alert}
  {alerts : List Alert}

theorem deliver_of_succeeds (h : Succeeds E (C alert.id) b) :
    deliver E (C alert.id) b = (.ok (), (deliver E (C alert.id) b).2) :=
  Prod.ext ((deliver_eq_ok_iff E _ b).mpr h) rfl

theorem deliver_of_not_succeeds (h : ¬ Succeeds E (C alert.id) b) :
    ∃ e, deliver E (C alert.id) b = (.error e, (deliver E (C alert.id) b).2) := by
  cases hr : (deliver E (C alert.id) b).1 with
  | ok u => exact absurd ((deliver_eq_ok_iff E _ b).mp hr) h
  | error e => exact ⟨e, Prod.ext hr rfl⟩

theorem reached_of_succeeds (h : Succeeds E (C alert.id) b) :
    reached E C b (alert :: alerts) = alert :: reached E C (deliver E (C alert.id) b).2 alerts := by
  rw [reached, deliver_of_succeeds h]

theorem reached_of_not_succeeds (h : ¬ Succeeds E (C alert.id) b) :
    reached E C b (alert :: alerts) = [alert] := by
  obtain ⟨e, he⟩ := deliver_of_not_succeeds h
  rw [reached, he]

/-- A pass takes the alerts in their order. -/
theorem reached_prefix (b : Breaker) (alerts : List Alert) : reached E C b alerts <+: alerts := by
  induction alerts generalizing b with
  | nil => exact List.nil_prefix
  | cons alert alerts ih =>
    by_cases h : Succeeds E (C alert.id) b
    · rw [reached_of_succeeds h]
      exact (List.prefix_cons_inj alert).mpr (ih _)
    · rw [reached_of_not_succeeds h]
      exact (List.prefix_cons_inj alert).mpr List.nil_prefix

/-- It gets to all of them if and only if it gets through. -/
theorem reached_eq_iff (b : Breaker) (alerts : List Alert) :
    reached E C b alerts = alerts ↔ Through E C b alerts := by
  induction alerts generalizing b with
  | nil => exact iff_of_true rfl trivial
  | cons alert alerts ih =>
    rw [Through]
    by_cases h : Succeeds E (C alert.id) b
    · rw [reached_of_succeeds h, List.cons.injEq, ih]
      constructor
      · rintro ⟨-, hthrough⟩
        exact .inr ⟨h, hthrough⟩
      · rintro (rfl | ⟨-, hthrough⟩)
        · exact ⟨rfl, trivial⟩
        · exact ⟨rfl, hthrough⟩
    · rw [reached_of_not_succeeds h, List.cons.injEq]
      constructor
      · rintro ⟨-, hnil⟩
        exact .inl hnil.symm
      · rintro (hnil | ⟨hs, -⟩)
        · exact ⟨rfl, hnil.symm⟩
        · exact absurd hs h

end Reached

/-! ## 4. What a pass does -/

section Spec

variable {ε : Type} {E : Errors ε} {P : Platform Unit} {C : String → Circumstance ε} {asset : String}
  {priceUsd : Double} {s : Store} {ids done : List String} {id : String} {b : Breaker} {alert : Alert}

/-- Before the alerts with the ids are looked at, `done` being those for which `deliver` has been
called: their records are as they were. -/
structure At (s : Store) (ids : List String) (b : Breaker) (done : List String) (w : World) : Prop where
  records : ∀ id ∈ ids, w.store.records id = s.records id
  breaker : w.breaker = b
  attempted : w.attempted.map (·.alert_id) = done

theorem At.mono {ids' : List String} {w : World} (h : At s ids b done w) (hids : ids' ⊆ ids) :
    At s ids' b done w :=
  ⟨fun id hid => h.records id (hids hid), h.breaker, h.attempted⟩

/-- Nothing else runs. -/
abbrev solo : Contract sig ℕ World := .alone fun _ _ _ => True

/-- A command that is no delivery. -/
theorem satE_other {op : Op} (hop : ∀ url secret payload, op ≠ .deliver url secret payload)
    {A : World → Prop} {B : op.Ret → World → Prop} {F : Err → World → Prop}
    (h : ∀ elapsed w, A w → B ((w.store.wait elapsed).exec P () none op).1
      { w with store := ((w.store.wait elapsed).exec P () none op).2 }) :
    SatE (passMachine E P C) () solo (command op) A B F := by
  intro elapsed w hw _
  have hexec : (passMachine E P C).exec () op elapsed w =
      (.ok ((w.store.wait elapsed).exec P () none op).1,
        { w with store := ((w.store.wait elapsed).exec P () none op).2 }) := by
    cases op with
    | deliver url secret payload => exact absurd rfl (hop url secret payload)
    | _ => rfl
  rw [hexec]
  exact ⟨trivial, B _, fun _ _ hb he => he ▸ hb, h elapsed w hw, fun _ hb => hb⟩

theorem satE_now : SatE (passMachine E P C) () solo (command .now) (At s ids b done)
    (fun _ => At s ids b done) fun _ _ => False :=
  satE_other (by simp) fun _ _ h => ⟨h.records, h.breaker, h.attempted⟩

theorem satE_get (hid : id ∈ ids) {F : Err → World → Prop} :
    SatE (passMachine E P C) () solo (command (.get id)) (At s ids b done)
      (fun r w => r = s.records id ∧ At s ids b done w) F :=
  satE_other (by simp) fun _ _ h => ⟨h.records id hid, h.records, h.breaker, h.attempted⟩

/-- What is removed is none of the alerts that are looked at later. -/
theorem satE_delete (hid : id ∉ ids) {F : Err → World → Prop} :
    SatE (passMachine E P C) () solo (command (.delete id asset)) (At s ids b done)
      (fun _ => At s ids b done) F := by
  refine satE_other (by simp) fun _ _ h => ⟨fun id' hid' => ?_, h.breaker, h.attempted⟩
  have hne : id' ≠ id := fun he => hid (he ▸ hid')
  exact (Function.update_of_ne hne _ _).trans (h.records id' hid')

theorem satE_remove (hid : id ∉ ids) {F : Err → World → Prop} :
    SatE (passMachine E P C) () solo (remove id) (At s ids b done) (fun _ => At s ids b done) F := by
  refine SatE.bind (Q := fun _ => At s ids b done)
    (satE_other (by simp) fun _ _ h => ⟨h.records, h.breaker, h.attempted⟩) fun r => ?_
  cases r with
  | none => exact SatE.pure fun _ h => h
  | some existing => exact SatE.bind (satE_delete hid) fun _ => SatE.pure fun _ h => h

/-- A delivery is attempted, and throws unless it succeeds. -/
theorem satE_deliver {url secret : String} {payload : Payload} (hpayload : payload.alert_id = alert.id) :
    SatE (passMachine E P C) () solo (command (.deliver url secret payload)) (At s ids b done)
      (fun _ w => Succeeds E (C alert.id) b ∧
        At s ids (deliver E (C alert.id) b).2 (alert.id :: done) w)
      (fun _ w => ¬ Succeeds E (C alert.id) b ∧ w.attempted.map (·.alert_id) = alert.id :: done) := by
  rintro elapsed w ⟨hrecords, rfl, rfl⟩ -
  have hexec : (passMachine E P C).exec () (Op.deliver url secret payload) elapsed w =
      ((deliver E (C alert.id) w.breaker).1,
        ⟨{ w.store with now := (C alert.id).settledAt }, (deliver E (C alert.id) w.breaker).2,
          payload :: w.attempted⟩) := by
    rw [← hpayload]
    rfl
  have hattempted : (payload :: w.attempted).map (·.alert_id) =
      alert.id :: w.attempted.map (·.alert_id) := by
    rw [List.map_cons, hpayload]
  rw [hexec]
  refine ⟨trivial, (· = _), fun _ _ h he => he ▸ h, rfl, ?_⟩
  rintro _ rfl
  by_cases hs : Succeeds E (C alert.id) w.breaker
  · rw [deliver_of_succeeds hs]
    exact ⟨hs, hrecords, rfl, hattempted⟩
  · obtain ⟨e, he⟩ := deliver_of_not_succeeds hs
    rw [he]
    exact ⟨hs, hattempted⟩

theorem satE_fire :
    SatE (passMachine E P C) () solo (fire alert priceUsd) (At s ids b done)
      (fun _ w => Succeeds E (C alert.id) b ∧
        At s ids (deliver E (C alert.id) b).2 (alert.id :: done) w)
      (fun _ w => ¬ Succeeds E (C alert.id) b ∧ w.attempted.map (·.alert_id) = alert.id :: done) := by
  refine SatE.bind (Q := fun _ => At s ids b done) ?_ fun now => satE_deliver rfl
  exact satE_now.mono (fun _ h => h) (fun _ _ h => h) fun _ _ h => h.elim

/-- An alert is passed over unless its condition is met. -/
theorem satE_evaluate_other {F : Err → World → Prop}
    (h : ∀ alert, s.records id = some alert → ¬ IsMet asset priceUsd alert) :
    SatE (passMachine E P C) () solo (evaluate asset priceUsd id) (At s (id :: ids) b done)
      (fun _ => At s (id :: ids) b done) F := by
  refine SatE.bind (satE_get List.mem_cons_self) fun r => SatE.assume ?_
  rintro rfl
  cases hr : s.records id with
  | none => exact SatE.pure fun _ hw => hw
  | some alert =>
    dsimp only
    split
    · exact SatE.pure fun _ hw => hw
    split
    · exact SatE.pure fun _ hw => hw
    rename_i hasset htriggered
    exact absurd ⟨not_not.mp hasset, by simpa using htriggered⟩ (h alert hr)

/-- An alert whose condition is met is delivered and removed, or its delivery is the end. -/
theorem satE_evaluate_met (hid : id ∉ ids) (hr : s.records id = some alert)
    (hmet : IsMet asset priceUsd alert) (hsingle : alert.repeats = false) :
    SatE (passMachine E P C) () solo (evaluate asset priceUsd id) (At s (id :: ids) b done)
      (fun _ w => Succeeds E (C alert.id) b ∧
        At s ids (deliver E (C alert.id) b).2 (alert.id :: done) w)
      (fun _ w => ¬ Succeeds E (C alert.id) b ∧ w.attempted.map (·.alert_id) = alert.id :: done) := by
  refine SatE.bind (satE_get List.mem_cons_self) fun r => SatE.assume ?_
  rintro rfl
  have hcooldown : onCooldown alert = pure false := by simp [onCooldown, hsingle]
  have hafter : afterFire id alert priceUsd = (remove id >>= fun _ => pure ()) := by
    simp [afterFire, hsingle]
  rw [hr]
  dsimp only
  rw [if_neg (not_not.mpr hmet.1), hmet.2, hcooldown, hafter]
  change SatE (passMachine E P C) () solo
    (fire alert priceUsd >>= fun _ => remove id >>= fun _ => pure ()) _ _ _
  have hless : ∀ w, At s (id :: ids) b done w → At s ids b done w :=
    fun w hw => hw.mono (List.subset_cons_self id ids)
  refine SatE.bind (satE_fire.mono hless (fun _ _ hw => hw) fun _ _ hw => hw) fun _ =>
    SatE.assume fun hsucceeds => ?_
  exact SatE.bind (satE_remove hid) fun _ => SatE.pure fun w hw => ⟨hsucceeds, hw⟩

theorem met_cons (id : String) (ids : List String) :
    met asset priceUsd s (id :: ids) = met asset priceUsd s [id] ++ met asset priceUsd s ids := by
  rw [met, ← List.singleton_append, List.filterMap_append, List.filter_append]
  rfl

/-- What is known when the loop over the alerts `ids` is left, by its end or by an error. -/
def Left (E : Errors ε) (C : String → Circumstance ε) (asset : String) (priceUsd : Double) (s : Store)
    (ids : List String) (b : Breaker) (done : List String) (w : World) : Prop :=
  w.attempted.map (·.alert_id) =
    ((reached E C b (met asset priceUsd s ids)).map (·.id)).reverse ++ done

/-- **The loop**: `deliver` is called for the alerts that are reached and for no others. -/
theorem satE_evaluateEach (hs : Plain asset s) (hids : ids.Nodup) :
    SatE (passMachine E P C) () solo (evaluateEach asset priceUsd ids) (At s ids b done)
      (fun _ => Left E C asset priceUsd s ids b done)
      (fun _ => Left E C asset priceUsd s ids b done) := by
  induction ids generalizing b done with
  | nil => exact SatE.pure fun w hw => hw.attempted
  | cons id ids ih =>
    obtain ⟨hid, hnodup⟩ := List.nodup_cons.mp hids
    by_cases hmet : ∃ alert, s.records id = some alert ∧ IsMet asset priceUsd alert
    · obtain ⟨alert, hr, hmet⟩ := hmet
      have hmeets : met asset priceUsd s (id :: ids) = alert :: met asset priceUsd s ids := by
        rw [met_cons]
        simp [met, hr, hmet]
      have hsingle : alert.repeats = false := hs.single id alert hr hmet.1
      refine SatE.bind ((satE_evaluate_met hid hr hmet hsingle).mono (fun _ hw => hw)
        (fun _ _ hw => hw) ?_) fun _ =>
          SatE.assume fun hsucceeds => (ih hnodup).mono (fun _ hw => hw) ?_ ?_
      · rintro _ w ⟨hfails, hw⟩
        rw [Left, hmeets, reached_of_not_succeeds hfails, hw]
        rfl
      all_goals
        intro _ w hw
        rw [Left, hmeets, reached_of_succeeds hsucceeds, hw]
        simp
    · have hnone : ∀ alert, s.records id = some alert → ¬ IsMet asset priceUsd alert :=
        fun alert hr h => hmet ⟨alert, hr, h⟩
      have hmeets : met asset priceUsd s (id :: ids) = met asset priceUsd s ids := by
        rw [met_cons]
        cases hr : s.records id with
        | none => simp [met, hr]
        | some alert => simp [met, hr, hnone alert hr]
      have hleft : Left E C asset priceUsd s (id :: ids) b done =
          Left E C asset priceUsd s ids b done := by
        funext w
        rw [Left, hmeets, Left]
      rw [hleft]
      refine SatE.bind (satE_evaluate_other hnone) fun _ => (ih hnodup).mono ?_ (fun _ _ hw => hw)
        fun _ _ hw => hw
      exact fun w hw => hw.mono (List.subset_cons_self id ids)

theorem satE_evaluateForAsset (hs : Plain asset s) (priceUsd : Double) :
    SatE (passMachine E P C) () solo (evaluateForAsset asset priceUsd) (· = ⟨s, b, []⟩)
      (fun _ => Left E C asset priceUsd s (s.assets (assetIdsKey asset)).members b [])
      fun _ _ => False := by
  refine SatE.tryCatch (E := fun _ => Left E C asset priceUsd s
    (s.assets (assetIdsKey asset)).members b []) ?_ fun _ => SatE.pure fun _ hw => hw
  refine SatE.bind (Q := fun r w => r = (s.assets (assetIdsKey asset)).members ∧
    At s r b [] w) (satE_other (by simp) ?_) fun ids => SatE.assume ?_
  · rintro elapsed _ rfl
    exact ⟨rfl, fun _ _ => rfl, rfl, rfl⟩
  · rintro rfl
    exact satE_evaluateEach hs (s.assets (assetIdsKey asset)).nodup

/-- **What a pass gets to.** -/
theorem left_pass (hs : Plain asset s) (priceUsd : Double) (elapsed : ℕ → ℕ) (b : Breaker) :
    Left E C asset priceUsd s (s.assets (assetIdsKey asset)).members b []
      (pass E P C asset priceUsd elapsed ⟨s, b, []⟩) := by
  have hrun := (satE_evaluateForAsset (E := E) (P := P) (C := C) (b := b) hs priceUsd).runWith elapsed
    (fun _ _ _ => trivial) rfl
  split at hrun
  · exact hrun
  · exact hrun.elim

theorem records_ids_sublist (hs : Plain asset s) (ids : List String) :
    ((ids.filterMap s.records).map (·.id)).Sublist ids := by
  induction ids with
  | nil => exact List.Sublist.slnil
  | cons id ids ih =>
    cases hr : s.records id with
    | none =>
      rw [List.filterMap_cons_none hr]
      exact ih.cons id
    | some alert =>
      rw [List.filterMap_cons_some hr, List.map_cons, hs.keyed id alert hr]
      exact ih.cons_cons id

theorem met_ids_nodup (hs : Plain asset s) (hids : ids.Nodup) :
    ((met asset priceUsd s ids).map (·.id)).Nodup :=
  ((List.filter_sublist.map _).trans (records_ids_sublist hs ids)).nodup hids

/-- **A pass attempts every delivery that it should if and only if it gets through**: every alert but the
last whose condition is met is delivered. -/
theorem attempted_iff (hs : Plain asset s) (elapsed : ℕ → ℕ) (b : Breaker) :
    (∀ alert ∈ triggered asset priceUsd s,
      Attempted (pass E P C asset priceUsd elapsed ⟨s, b, []⟩) alert) ↔
      Through E C b (triggered asset priceUsd s) := by
  have hleft := left_pass (E := E) (P := P) (C := C) hs priceUsd elapsed b
  rw [Left, List.append_nil] at hleft
  have hattempted : ∀ alert, Attempted (pass E P C asset priceUsd elapsed ⟨s, b, []⟩) alert ↔
      alert.id ∈ (reached E C b (triggered asset priceUsd s)).map (·.id) := by
    intro alert
    rw [Attempted, hleft, List.mem_reverse]
    rfl
  rw [← reached_eq_iff]
  constructor
  · intro hall
    have hpre := reached_prefix (E := E) (C := C) b (triggered asset priceUsd s)
    have hnodup : ((triggered asset priceUsd s).map (·.id)).Nodup :=
      met_ids_nodup hs (s.assets (assetIdsKey asset)).nodup
    have hsubset : (triggered asset priceUsd s).map (·.id) ⊆
        (reached E C b (triggered asset priceUsd s)).map (·.id) := by
      intro id hid
      obtain ⟨alert, hmem, rfl⟩ := List.mem_map.mp hid
      exact (hattempted alert).mp (hall alert hmem)
    have hle := (List.subperm_of_subset hnodup hsubset).length_le
    rw [List.length_map, List.length_map] at hle
    exact hpre.eq_of_length_le hle
  · intro heq alert hmem
    rw [hattempted, heq]
    exact List.mem_map_of_mem hmem

end Spec

def samplePlatform : Platform Unit where
  randomUUID _ := "0123456789abcdef"
  uuid_inj := Function.injective_of_subsingleton _

/-- An alert for prices above `10`. -/
def sampleAlert (id webhook_url : String) : Alert where
  id
  asset := "XLM"
  type := .above
  threshold_usd := Double.ofNat 10 Double.nearest_ten
  webhook_url
  webhook_secret := "whsec_"
  repeats := false
  owner_ip := none
  created_at := 0
  last_fired_at := none
  baseline_price := none

/-- Two alerts of two owners. -/
def sampleStore : Store where
  records
    | "alrt_a" => some (sampleAlert "alrt_a" "http://a")
    | "alrt_b" => some (sampleAlert "alrt_b" "http://b")
    | _ => none
  ids := .empty
  assets _ := (RSet.empty.sadd "alrt_a").sadd "alrt_b"
  cooldowns _ := none
  now := 0
  deliveries := []
  created _ := true

theorem plain_sampleStore : Plain "XLM" sampleStore where
  keyed id alert h := by
    simp only [sampleStore] at h
    split at h <;> cases h <;> rfl
  single id alert h _ := by
    simp only [sampleStore] at h
    split at h <;> cases h <;> rfl

/-- Both endpoints answer with the status. -/
def sampleCircumstance (status : ℕ) : String → Circumstance String :=
  fun _ => ⟨id, 1000, 1100, .ok status⟩

def sampleErrors : Errors String := ⟨id, fun _ => true⟩

/-- Both alerts are delivered where both endpoints work. -/
theorem attempted_iff_sample :
    triggered "XLM" (Double.ofNat 20 Double.nearest_twenty) sampleStore =
        [sampleAlert "alrt_a" "http://a", sampleAlert "alrt_b" "http://b"] ∧
      ∀ alert ∈ triggered "XLM" (Double.ofNat 20 Double.nearest_twenty) sampleStore,
        Attempted (pass sampleErrors samplePlatform (sampleCircumstance 200) "XLM"
          (Double.ofNat 20 Double.nearest_twenty) (fun _ => 1) ⟨sampleStore, .new, []⟩) alert := by
  have htriggered : triggered "XLM" (Double.ofNat 20 Double.nearest_twenty) sampleStore =
      [sampleAlert "alrt_a" "http://a", sampleAlert "alrt_b" "http://b"] := by decide +kernel
  refine ⟨htriggered, (attempted_iff plain_sampleStore _ _).mpr ?_⟩
  rw [htriggered]
  exact .inr ⟨⟨⟨false, rfl⟩, 200, rfl, rfl⟩, .inl rfl⟩

/-- The first endpoint answers with an error, and nobody tries the second. -/
theorem first_failure_ends_pass :
    sampleAlert "alrt_b" "http://b" ∈
        triggered "XLM" (Double.ofNat 20 Double.nearest_twenty) sampleStore ∧
      ¬ Attempted (pass sampleErrors samplePlatform (sampleCircumstance 500) "XLM"
        (Double.ofNat 20 Double.nearest_twenty) (fun _ => 1) ⟨sampleStore, .new, []⟩)
        (sampleAlert "alrt_b" "http://b") := by
  decide +kernel

end SmartDrop.Alerts.Isolation
