/-
# Histories of deliveries

Calls of the delivery repository, one after the other, on a database that has webhooks and no
deliveries yet.  Whatever a call does besides, and wherever it fails, it stores one new delivery,
patches one, moves retries, or leaves all of them alone (`deliveryStep_cases`); every invariant of
the indexes is derived from that.
-/
import SmartDrop.Lib.Capped
import SmartDrop.Lib.Run
import SmartDrop.Webhooks.Attempt

namespace SmartDrop.Webhooks

open Conc Redis

/-! ## 1. Calls -/

/-- The calls of the delivery repository. -/
inductive DeliveryCall where
  | create (d : NewDelivery)
  | update (id : String) (patch : DeliveryPatch)
  | scheduleRetry (id : String) (nextRetryAtMs : ℚ)
  | popDueRetries (nowMs max : ℕ)

/-- The program of a call, without its result. -/
def DeliveryCall.code (P : Platform) (config : Config) : DeliveryCall → Code Unit
  | .create d => do let _ ← deliveryRepository.create P config d
  | .update id patch => do let _ ← deliveryRepository.update id patch
  | .scheduleRetry id nextRetryAtMs => deliveryRepository.scheduleRetry id nextRetryAtMs
  | .popDueRetries nowMs max => do let _ ← deliveryRepository.popDueRetries nowMs max

/-- A call, who makes it, and what the environment answers to its steps. -/
structure Turn where
  caller : Caller
  call : DeliveryCall
  env : ℕ → Env

/-- One call from its start to its end. -/
def deliveryStep (P : Platform) (config : Config) (s : Store) (t : Turn) : Store :=
  ((t.call.code P config).prog.runWith (machine P) t.caller t.env s).2

/-- The clock is past the epoch during a call. -/
def Turn.Dated (t : Turn) : Prop := ∀ n, (t.env n).now ≠ 0

/-- No delivery has been made yet. -/
structure NoDeliveries (s : Store) : Prop where
  deliveries : ∀ id, s.deliveries id = none
  deliveryIndex : ∀ w, s.deliveryIndex w = .empty
  statusIndex : ∀ w status, s.statusIndex w status = .empty

/-! ## 2. What a call does -/

/-- The deliveries and their indexes are left alone. -/
structure Stays (s s' : Store) : Prop where
  deliveries : s'.deliveries = s.deliveries
  deliveryIndex : s'.deliveryIndex = s.deliveryIndex
  statusIndex : s'.statusIndex = s.statusIndex
  drawn : s.uuidsDrawn ≤ s'.uuidsDrawn

/-- A pending delivery is stored under an id that was drawn for it. -/
structure Inserts (P : Platform) (record : Delivery) (s s' : Store) : Prop where
  id_eq : ∃ n, s.uuidsDrawn ≤ n ∧ n < s'.uuidsDrawn ∧ record.id = "dlv_" ++ P.randomUUID n
  webhook : record.webhook_id ≠ ""
  pending : record.status = .pending
  dated : record.created_at ≠ 0
  deliveries : s'.deliveries = Function.update s.deliveries record.id (some record)
  deliveryIndex : s'.deliveryIndex = Function.update s.deliveryIndex record.webhook_id
    (queueIndexWrite (s.deliveryIndex record.webhook_id) record.created_at record.id)
  statusIndex : s'.statusIndex = Function.update s.statusIndex record.webhook_id
    (Function.update (s.statusIndex record.webhook_id) record.status
      (queueIndexWrite (s.statusIndex record.webhook_id record.status) record.created_at record.id))

/-- A stored delivery is patched, and moved if its status changes. -/
structure Patches (id : String) (existing : Delivery) (patch : DeliveryPatch) (s s' : Store) :
    Prop where
  stored : s.deliveries id = some existing
  deliveries : s'.deliveries = Function.update s.deliveries id (some (existing.patched patch))
  deliveryIndex : s'.deliveryIndex = s.deliveryIndex
  statusIndex : s'.statusIndex = Function.update s.statusIndex existing.webhook_id
    (moveStatus (s.statusIndex existing.webhook_id) id existing patch existing.created_at)
  drawn : s.uuidsDrawn ≤ s'.uuidsDrawn

section Step

variable {P : Platform} {config : Config} {caller : Caller} {s₀ : Store}

/-- A run alone while the clock is past the epoch. -/
def dated : Contract sig Env Store := .alone fun _ x _ => x.now ≠ 0

theorem Stays.refl (s : Store) : Stays s s := ⟨rfl, rfl, rfl, Nat.le_refl _⟩

/-- The retention policy changes nothing here. -/
theorem satE_applyDeliveryRetention (id : String) {I : Store → Prop} :
    SatE (machine P) caller dated (deliveryRepository.applyDeliveryRetention id) I (fun _ => I)
      fun _ => I := by
  refine SatE.tryCatch (E := fun _ => I) ?_ fun _ => SatE.pure fun _ h => h
  refine SatE.bind (Q := fun _ => I) ?_ fun _ => SatE.pure fun _ h => h
  exact satE_alone (fun x s _ h => h) fun _ e x s _ h => ⟨h, h⟩

/-- The id of the new delivery is the only thing that was drawn so far. -/
def Prepared (P : Platform) (s₀ : Store) (d : NewDelivery) (id : String) (s : Store) : Prop :=
  d.webhook_id ≠ "" ∧ Stays s₀ s ∧
    ∃ n, s₀.uuidsDrawn ≤ n ∧ n < s.uuidsDrawn ∧ id = "dlv_" ++ P.randomUUID n

theorem Prepared.draw {d : NewDelivery} {id : String} {s : Store} (h : Prepared P s₀ d id s) :
    Prepared P s₀ d id { s with uuidsDrawn := s.uuidsDrawn + 1 } := by
  obtain ⟨hwebhook, hstays, n, hle, hlt, hid⟩ := h
  refine ⟨hwebhook, ?_, n, hle, Nat.lt_succ_of_lt hlt, hid⟩
  exact ⟨hstays.deliveries, hstays.deliveryIndex, hstays.statusIndex, Nat.le_succ_of_le hstays.drawn⟩

/-- `create` finds the webhook and draws the id. -/
theorem satE_prepare_delivery (d : NewDelivery) :
    SatE (machine P) caller dated (deliveryRepository.prepare P config d) (· = s₀)
      (fun id => Prepared P s₀ d id) fun _ => Stays s₀ := by
  unfold deliveryRepository.prepare
  split
  · exact SatE.throw fun s h => h ▸ .refl s₀
  rename_i hwebhook
  refine SatE.bind (Q := fun _ s => s = s₀) ?_ fun found => ?_
  · refine SatE.tryCatch (E := fun _ s => s = s₀) ?_ fun _ => SatE.pure fun _ h => h
    refine SatE.bind (Q := fun _ s => s = s₀) ?_ fun _ => SatE.pure fun _ h => h
    exact satE_alone (fun x s _ h => h) fun _ e x s _ h => ⟨h, h⟩
  cases found with
  | none => exact SatE.throw fun s h => h ▸ .refl s₀
  | some webhook =>
    refine SatE.bind (Q := fun uuid s => Prepared P s₀ d ("dlv_" ++ uuid) s)
      (satE_alone ?_ fun hlocal => by cases hlocal) fun uuid => SatE.pure fun _ h => h
    rintro x s - rfl
    exact ⟨hwebhook, ⟨rfl, rfl, rfl, Nat.le_succ _⟩, s.uuidsDrawn, Nat.le_refl _,
      Nat.lt_succ_self _, rfl⟩

/-- `create` stores the record in one transaction. -/
theorem satE_insertAs_delivery (d : NewDelivery) (id : String) :
    SatE (machine P) caller dated (deliveryRepository.insertAs d id) (Prepared P s₀ d id)
      (fun _ s => ∃ record, Inserts P record s₀ s)
      fun _ s => Stays s₀ s ∨ ∃ record, Inserts P record s₀ s := by
  unfold deliveryRepository.insertAs
  refine SatE.bind (Q := fun now s => now ≠ 0 ∧ Prepared P s₀ d id s)
    (satE_alone (fun x s hx h => ⟨hx, h⟩) fun hlocal => by cases hlocal) fun now => ?_
  refine SatE.assume fun hnow => ?_
  have hinserts : ∀ (traceId : String) (x : Env) (s : Store), Prepared P s₀ d id s →
      Inserts P (deliveryRepository.newRecord d id traceId now) s₀ (s.exec P caller x
        (.insertDelivery (deliveryRepository.newRecord d id traceId now) now)).2 := by
    rintro traceId x s ⟨hwebhook, hstays, hid⟩
    refine ⟨hid, hwebhook, rfl, hnow, ?_, ?_, ?_⟩
    · exact congrArg (Function.update · id (some (deliveryRepository.newRecord d id traceId now)))
        hstays.deliveries
    · show Function.update s.deliveryIndex _ _ = _
      rw [hstays.deliveryIndex]
      rfl
    · show Function.update s.statusIndex _ _ = _
      rw [hstays.statusIndex]
      rfl
  have hinsert : ∀ traceId, SatE (machine P) caller dated (do
      redis (.insertDelivery (deliveryRepository.newRecord d id traceId now) now)
      return deliveryRepository.newRecord d id traceId now) (Prepared P s₀ d id)
      (fun _ s => ∃ record, Inserts P record s₀ s)
      fun _ s => Stays s₀ s ∨ ∃ record, Inserts P record s₀ s := by
    intro traceId
    refine SatE.bind (Q := fun _ s => ∃ record, Inserts P record s₀ s)
      (satE_alone (fun x s _ h => ⟨_, hinserts traceId x s h⟩) fun _ e x s _ h => ?_)
      fun _ => SatE.pure fun _ h => h
    exact ⟨.inl h.2.1, .inr ⟨_, hinserts traceId x s h⟩⟩
  dsimp only
  split
  · exact SatE.bind (Q := fun _ => Prepared P s₀ d id) (SatE.pure fun _ h => h) hinsert
  · refine SatE.bind (Q := fun _ => Prepared P s₀ d id) ?_ hinsert
    exact SatE.bind (satE_alone (Q := fun _ => Prepared P s₀ d id) (fun x s _ h => h.draw)
      fun hlocal => by cases hlocal) fun _ => SatE.pure fun _ h => h

/-- `create` stores a delivery, or nothing. -/
theorem satE_create_delivery (d : NewDelivery) :
    SatE (machine P) caller dated (deliveryRepository.create P config d) (· = s₀)
      (fun _ s => Stays s₀ s ∨ ∃ record, Inserts P record s₀ s)
      fun _ s => Stays s₀ s ∨ ∃ record, Inserts P record s₀ s := by
  refine SatE.bind ((satE_prepare_delivery d).mono (fun _ h => h) (fun _ _ h => h) fun _ _ h => .inl h)
    fun id => ?_
  refine SatE.bind (satE_insertAs_delivery d id) fun record => ?_
  refine SatE.bind (Q := fun _ s => ∃ record, Inserts P record s₀ s) ?_ fun _ =>
    SatE.pure fun _ h => .inr h
  exact (satE_applyDeliveryRetention record.id).mono (fun _ h => h) (fun _ _ h => h)
    fun _ _ h => .inr h

/-- `update` patches a delivery, or changes nothing. -/
theorem satE_update_delivery (hdated : ∀ id d, s₀.deliveries id = some d → d.created_at ≠ 0)
    (id : String) (patch : DeliveryPatch) :
    SatE (machine P) caller dated (deliveryRepository.update id patch) (· = s₀)
      (fun _ s => Stays s₀ s ∨ ∃ existing, Patches id existing patch s₀ s)
      fun _ s => Stays s₀ s ∨ ∃ existing, Patches id existing patch s₀ s := by
  unfold deliveryRepository.update
  refine SatE.bind (Q := fun a s => a = s₀.deliveries id ∧ s = s₀)
    (satE_alone ?_ fun _ e x s _ h => ?_) fun a => ?_
  · rintro x s - rfl
    exact ⟨rfl, rfl⟩
  · subst h
    exact ⟨.inl (.refl _), .inl (.refl _)⟩
  cases a with
  | none => exact SatE.pure fun s h => .inl (h.2 ▸ .refl s₀)
  | some existing =>
    refine SatE.assume fun hstored => ?_
    have hscore : deliveryRepository.indexScore existing = pure existing.created_at :=
      if_pos (hdated id existing hstored.symm)
    refine SatE.bind (Q := fun score s => score = existing.created_at ∧ s = s₀) ?_ fun score => ?_
    · rw [hscore]
      exact SatE.pure fun s h => ⟨rfl, h⟩
    refine SatE.assume fun hscore => ?_
    subst hscore
    refine SatE.bind (Q := fun _ s => ∃ existing, Patches id existing patch s₀ s)
      (satE_alone ?_ fun _ e x s _ h => ?_) fun _ => ?_
    · rintro x s - rfl
      exact ⟨existing, hstored.symm, rfl, rfl, rfl, Nat.le_refl _⟩
    · subst h
      exact ⟨.inl (.refl _), .inr ⟨existing, hstored.symm, rfl, rfl, rfl, Nat.le_refl _⟩⟩
    · refine SatE.bind (satE_applyDeliveryRetention id |>.mono (fun _ h => h) (fun _ _ h => h)
        fun _ s h => .inr h) fun _ => SatE.pure fun s h => .inr h

end Step

/-- Commands on the retry queue leave the deliveries alone. -/
theorem satE_retries (P : Platform) (caller : Caller) (op : Op) (s : Store)
    (hop : ∀ x, Stays s (s.exec P caller x op).2) :
    SatE (machine P) caller dated (redis op) (· = s) (fun _ => Stays s) fun _ => Stays s := by
  refine satE_alone (fun x s' _ h => ?_) fun _ e x s' _ h => ?_
  · exact h ▸ hop x
  · subst h
    exact ⟨.refl _, hop x⟩

/-- **What a call does**: it stores a new delivery, patches one, or leaves them all alone. -/
theorem deliveryStep_cases (P : Platform) (config : Config) {s : Store} {t : Turn} (ht : t.Dated)
    (hs : ∀ id d, s.deliveries id = some d → d.created_at ≠ 0) :
    Stays s (deliveryStep P config s t) ∨
      (∃ record, Inserts P record s (deliveryStep P config s t)) ∨
      ∃ id patch existing, t.call = .update id patch ∧
        Patches id existing patch s (deliveryStep P config s t) := by
  obtain ⟨caller, call, env⟩ := t
  cases call with
  | create d =>
    have hsat : SatE (machine P) caller dated ((DeliveryCall.create d).code P config) (· = s)
        (fun _ s' => Stays s s' ∨ ∃ record, Inserts P record s s')
        fun _ s' => Stays s s' ∨ ∃ record, Inserts P record s s' :=
      SatE.bind (satE_create_delivery d) fun _ => SatE.pure fun _ h => h
    have hend := Sat.runWith hsat env (fun n _ _ => ht n) rfl
    have hcases : Stays s (deliveryStep P config s ⟨caller, .create d, env⟩) ∨
        ∃ record, Inserts P record s (deliveryStep P config s ⟨caller, .create d, env⟩) := by
      split at hend <;> exact hend
    exact hcases.imp_right .inl
  | update id patch =>
    have hsat : SatE (machine P) caller dated ((DeliveryCall.update id patch).code P config) (· = s)
        (fun _ s' => Stays s s' ∨ ∃ existing, Patches id existing patch s s')
        fun _ s' => Stays s s' ∨ ∃ existing, Patches id existing patch s s' :=
      SatE.bind (satE_update_delivery hs id patch) fun _ => SatE.pure fun _ h => h
    have hend := Sat.runWith hsat env (fun n _ _ => ht n) rfl
    have hcases : Stays s (deliveryStep P config s ⟨caller, .update id patch, env⟩) ∨
        ∃ existing, Patches id existing patch s
          (deliveryStep P config s ⟨caller, .update id patch, env⟩) := by
      split at hend <;> exact hend
    rcases hcases with h | ⟨existing, h⟩
    · exact .inl h
    · exact .inr (.inr ⟨id, patch, existing, rfl, h⟩)
  | scheduleRetry id nextRetryAtMs =>
    have hsat := satE_retries P caller (.scheduleRetry id nextRetryAtMs) s
      fun _ => ⟨rfl, rfl, rfl, Nat.le_refl _⟩
    have hend := Sat.runWith hsat env (fun n _ _ => ht n) rfl
    left
    split at hend <;> exact hend
  | popDueRetries nowMs max =>
    have hsat : SatE (machine P) caller dated ((DeliveryCall.popDueRetries nowMs max).code P config)
        (· = s) (fun _ => Stays s) fun _ => Stays s :=
      SatE.bind (satE_retries P caller (.popDueRetries nowMs max) s
        fun _ => ⟨rfl, rfl, rfl, Nat.le_refl _⟩) fun _ => SatE.pure fun _ h => h
    have hend := Sat.runWith hsat env (fun n _ _ => ht n) rfl
    left
    split at hend <;> exact hend

/-! ## 3. Deliveries of a webhook -/

/-- A delivery of a webhook, with its creation time. -/
def BelongsTo (s : Store) (w : String) (e : ℕ × String) : Prop :=
  ∃ d, s.deliveries e.2 = some d ∧ d.webhook_id = w ∧ d.created_at = e.1

/-- A delivery of a webhook in a status, with its creation time. -/
def HasStatus (s : Store) (w : String) (status : Status) (e : ℕ × String) : Prop :=
  ∃ d, s.deliveries e.2 = some d ∧ d.webhook_id = w ∧ d.status = status ∧ d.created_at = e.1

/-- Every delivery is stored under its own id, which was drawn, with a webhook and a time. -/
structure Recorded (P : Platform) (s : Store) : Prop where
  keyed : ∀ id d, s.deliveries id = some d → d.id = id
  webhook : ∀ id d, s.deliveries id = some d → d.webhook_id ≠ ""
  dated : ∀ id d, s.deliveries id = some d → d.created_at ≠ 0
  drawn : ∀ id d, s.deliveries id = some d → ∃ n < s.uuidsDrawn, id = "dlv_" ++ P.randomUUID n

section Effects

variable {P : Platform} {s s' : Store} {record existing : Delivery} {id : String}
  {patch : DeliveryPatch}

theorem NoDeliveries.recorded (h : NoDeliveries s) : Recorded P s := by
  have hnone : ∀ id d, s.deliveries id ≠ some d := by
    intro id d hd
    rw [h.deliveries] at hd
    cases hd
  constructor <;> exact fun id d hd => absurd hd (hnone id d)

theorem HasStatus.unique {w w' : String} {status status' : Status} {e e' : ℕ × String}
    (h : HasStatus s w status e) (h' : HasStatus s w' status' e') (heq : e.2 = e'.2) :
    w = w' ∧ status = status' ∧ e = e' := by
  obtain ⟨d, hd, rfl, rfl, hscore⟩ := h
  obtain ⟨d', hd', rfl, rfl, hscore'⟩ := h'
  rw [heq] at hd
  obtain rfl := Option.some.inj (hd.symm.trans hd')
  exact ⟨rfl, rfl, Prod.ext (hscore.symm.trans hscore') heq⟩

/-- The id of a new delivery is new. -/
theorem Inserts.fresh (h : Inserts P record s s') (hs : Recorded P s) :
    s.deliveries record.id = none := by
  by_contra hne
  obtain ⟨d, hd⟩ := Option.ne_none_iff_exists'.mp hne
  obtain ⟨m, hm, hid⟩ := hs.drawn _ d hd
  obtain ⟨n, hn, -, hid'⟩ := h.id_eq
  have heq : P.randomUUID m = P.randomUUID n := by
    simpa [String.ext_iff] using hid.symm.trans hid'
  have := P.uuid_inj heq
  omega

theorem Stays.recorded (h : Stays s s') (hs : Recorded P s) : Recorded P s' := by
  obtain ⟨keyed, webhook, dated, drawn⟩ := hs
  refine ⟨?_, ?_, ?_, ?_⟩ <;> rw [h.deliveries]
  · exact keyed
  · exact webhook
  · exact dated
  · intro id d hd
    obtain ⟨n, hn, hid⟩ := drawn id d hd
    exact ⟨n, lt_of_lt_of_le hn h.drawn, hid⟩

theorem Inserts.recorded (h : Inserts P record s s') (hs : Recorded P s) : Recorded P s' := by
  obtain ⟨n, hle, hlt, hid⟩ := h.id_eq
  have hcases : ∀ id d, s'.deliveries id = some d →
      (id = record.id ∧ d = record) ∨ s.deliveries id = some d := by
    intro id d hd
    rw [h.deliveries, Function.update_apply] at hd
    split at hd
    · rename_i heq
      exact .inl ⟨heq, (Option.some.inj hd).symm⟩
    · exact .inr hd
  refine ⟨fun id d hd => ?_, fun id d hd => ?_, fun id d hd => ?_, fun id d hd => ?_⟩
  · rcases hcases id d hd with ⟨rfl, rfl⟩ | hd
    · rfl
    · exact hs.keyed id d hd
  · rcases hcases id d hd with ⟨rfl, rfl⟩ | hd
    · exact h.webhook
    · exact hs.webhook id d hd
  · rcases hcases id d hd with ⟨rfl, rfl⟩ | hd
    · exact h.dated
    · exact hs.dated id d hd
  · rcases hcases id d hd with ⟨rfl, rfl⟩ | hd
    · exact ⟨n, hlt, hid⟩
    · obtain ⟨m, hm, hid'⟩ := hs.drawn id d hd
      exact ⟨m, by omega, hid'⟩

theorem Patches.recorded (h : Patches id existing patch s s') (hs : Recorded P s) :
    Recorded P s' := by
  have hcases : ∀ i d, s'.deliveries i = some d → ∃ d₀, s.deliveries i = some d₀ ∧ d.id = d₀.id ∧
      d.webhook_id = d₀.webhook_id ∧ d.created_at = d₀.created_at := by
    intro i d hd
    rw [h.deliveries, Function.update_apply] at hd
    split at hd
    · rename_i heq
      obtain rfl := Option.some.inj hd
      exact ⟨existing, heq ▸ h.stored, rfl, rfl, rfl⟩
    · exact ⟨d, hd, rfl, rfl, rfl⟩
  refine ⟨fun i d hd => ?_, fun i d hd => ?_, fun i d hd => ?_, fun i d hd => ?_⟩ <;>
    obtain ⟨d₀, hd₀, hid, hwebhook, hdate⟩ := hcases i d hd
  · exact hid.trans (hs.keyed i d₀ hd₀)
  · exact hwebhook ▸ hs.webhook i d₀ hd₀
  · exact hdate ▸ hs.dated i d₀ hd₀
  · obtain ⟨n, hn, hi⟩ := hs.drawn i d₀ hd₀
    exact ⟨n, lt_of_lt_of_le hn h.drawn, hi⟩

theorem Inserts.hasStatus_iff (h : Inserts P record s s') (hs : Recorded P s) (w : String)
    (status : Status) (e : ℕ × String) : HasStatus s' w status e ↔ HasStatus s w status e ∨
      (w = record.webhook_id ∧ status = .pending ∧ e = (record.created_at, record.id)) := by
  obtain ⟨score, i⟩ := e
  unfold HasStatus
  dsimp only
  rw [h.deliveries, Function.update_apply]
  by_cases hi : i = record.id
  · subst hi
    simp only [if_true, h.fresh hs, Option.some.injEq, exists_eq_left', h.pending, reduceCtorEq,
      false_and, exists_false, false_or, Prod.mk.injEq, and_true]
    tauto
  · simp [hi]

theorem Patches.hasStatus_iff (h : Patches id existing patch s s') (w : String) (status : Status)
    (e : ℕ × String) : HasStatus s' w status e ↔ (e.2 ≠ id ∧ HasStatus s w status e) ∨
      (w = existing.webhook_id ∧ status = patch.status.getD existing.status ∧
        e = (existing.created_at, id)) := by
  obtain ⟨score, i⟩ := e
  unfold HasStatus
  dsimp only
  rw [h.deliveries, Function.update_apply]
  by_cases hi : i = id
  · subst hi
    simp only [if_true, Option.some.injEq, exists_eq_left', Delivery.patched, ne_eq, not_true_eq_false,
      false_and, false_or, Prod.mk.injEq, and_true]
    tauto
  · simp [hi]

/-- The status index that a new delivery enters. -/
theorem Inserts.statusIndex_eq (h : Inserts P record s s') (w : String) (status : Status) :
    s'.statusIndex w status = if w = record.webhook_id ∧ status = .pending
      then queueIndexWrite (s.statusIndex w status) record.created_at record.id
      else s.statusIndex w status := by
  rw [h.statusIndex, h.pending]
  by_cases hw : w = record.webhook_id
  · subst hw
    by_cases hst : status = .pending
    · subst hst
      simp
    · simp [hst]
  · simp [hw]

/-- A patch that leaves the status alone leaves the indexes alone. -/
theorem Patches.statusIndex_same (h : Patches id existing patch s s')
    (hsame : patch.status.getD existing.status = existing.status) :
    s'.statusIndex = s.statusIndex := by
  rw [h.statusIndex]
  have hmove : moveStatus (s.statusIndex existing.webhook_id) id existing patch existing.created_at =
      s.statusIndex existing.webhook_id := by
    unfold moveStatus
    split
    · rfl
    · rename_i status heq
      rw [heq, Option.getD_some] at hsame
      exact if_pos (.inl hsame)
  rw [hmove, Function.update_eq_self]

/-- The status indexes that a delivery leaves and enters. -/
theorem Patches.statusIndex_move (h : Patches id existing patch s s') (hs : Recorded P s)
    (hmove : patch.status.getD existing.status ≠ existing.status) (w : String) (status : Status) :
    s'.statusIndex w status = if w = existing.webhook_id then
      (if status = patch.status.getD existing.status
        then queueIndexWrite (s.statusIndex w status) existing.created_at id
        else if status = existing.status then (s.statusIndex w status).zrem id
        else s.statusIndex w status) else s.statusIndex w status := by
  rw [h.statusIndex]
  by_cases hw : w = existing.webhook_id
  · subst hw
    rw [Function.update_self, if_pos rfl]
    unfold moveStatus
    cases hpatch : patch.status with
    | none =>
      rw [hpatch] at hmove
      exact absurd rfl hmove
    | some next =>
      rw [hpatch, Option.getD_some] at hmove
      have hwebhook : existing.webhook_id ≠ "" := hs.webhook id existing h.stored
      dsimp only
      rw [if_neg (by simp [hmove, hwebhook])]
      by_cases hst : status = next
      · subst hst
        simp [hmove]
      · by_cases hst' : status = existing.status
        · subst hst'
          simp [hst]
        · simp [hst, hst']
  · simp [hw]

end Effects

/-! ## 4. A sample history -/

/-- The sample webhook, and no deliveries. -/
def quietStore : Store :=
  { Store.init with webhooks := Function.update Store.init.webhooks "wh_0" (some sampleRecord) }

theorem quietStore_noDeliveries : NoDeliveries quietStore :=
  ⟨fun _ => rfl, fun _ => rfl, fun _ _ => rfl⟩

/-- The id of the `n`-th delivery of a sample history. -/
def sampleDeliveryId (n : ℕ) : String := "dlv_" ++ samplePlatform.randomUUID n

theorem sampleTime_le (n : Fin 101) : n.val + 1 ≤ 8640000000000000 := by omega

/-- A delivery is created, in the millisecond of its number. -/
def sampleCreate (n : Fin 101) : Turn where
  caller := ⟨0, none⟩
  call := .create ⟨"wh_0", "evt_0", "pool.created", some "trace_0", none⟩
  env _ := { now := n.val + 1, now_le := sampleTime_le n }

theorem successTime_le : 1000 ≤ 8640000000000000 := by decide

/-- A delivery has succeeded. -/
def sampleSuccess (n : ℕ) : Turn where
  caller := ⟨0, none⟩
  call := .update (sampleDeliveryId n) { status := some .success }
  env _ := { now := 1000, now_le := successTime_le }

theorem sampleCreate_dated (n : Fin 101) : (sampleCreate n).Dated := fun _ => Nat.succ_ne_zero _

theorem sampleSuccess_dated (n : ℕ) : (sampleSuccess n).Dated :=
  fun _ => (by decide : (1000 : ℕ) ≠ 0)

theorem sampleDeliveryId_inj {k n : ℕ} (h : sampleDeliveryId k = sampleDeliveryId n) : k = n := by
  have heq : samplePlatform.randomUUID k = samplePlatform.randomUUID n := by
    simpa [sampleDeliveryId, String.ext_iff] using h
  exact samplePlatform.uuid_inj heq

/-- The delivery that the `n`-th creation stores. -/
def sampleStored (n : ℕ) : Delivery :=
  deliveryRepository.newRecord ⟨"wh_0", "evt_0", "pool.created", some "trace_0", none⟩ (sampleDeliveryId n)
    "trace_0" (n + 1)

/-- The first `n` deliveries of the sample history are there. -/
structure Sampled (n : ℕ) (s : Store) : Prop where
  webhooks : s.webhooks = quietStore.webhooks
  drawn : s.uuidsDrawn = n
  deliveries : ∀ k < n, s.deliveries (sampleDeliveryId k) = some (sampleStored k)

theorem Sampled.step {s : Store} {n : Fin 101} (h : Sampled n s) :
    Sampled (n + 1) (deliveryStep samplePlatform sampleConfig s (sampleCreate n)) := by
  obtain ⟨hwebhooks, hdrawn, hdeliveries⟩ := h
  have hstore : s = { s with webhooks := quietStore.webhooks, uuidsDrawn := n } := by
    rw [← hwebhooks, ← hdrawn]
  have hcreated : (deliveryStep samplePlatform sampleConfig s (sampleCreate n)).deliveries =
      Function.update s.deliveries (sampleDeliveryId n) (some (sampleStored n)) := by
    rw [hstore]
    rfl
  refine ⟨?_, ?_, fun k hk => ?_⟩
  · rw [hstore]
    rfl
  · rw [hstore]
    rfl
  · rw [hcreated]
    rcases Nat.lt_succ_iff_lt_or_eq.mp hk with hk | rfl
    · rw [Function.update_of_ne fun he => hk.ne (sampleDeliveryId_inj he)]
      exact hdeliveries k hk
    · rw [Function.update_self]

/-- All of them are created, one after the other. -/
theorem sampled_run : Sampled 101 (run (deliveryStep samplePlatform sampleConfig) quietStore
    ((List.finRange 101).map sampleCreate)) := by
  have hrun : ∀ n ≤ 101, Sampled n (run (deliveryStep samplePlatform sampleConfig) quietStore
      (((List.finRange 101).take n).map sampleCreate)) := by
    intro n
    induction n with
    | zero => exact fun _ => ⟨rfl, rfl, fun k hk => absurd hk (Nat.not_lt_zero k)⟩
    | succ n ih =>
      intro hn
      have htake : (List.finRange 101).take (n + 1) = (List.finRange 101).take n ++ [⟨n, hn⟩] := by
        have hget : (List.finRange 101)[n]? = some ⟨n, hn⟩ := by
          rw [List.getElem?_eq_getElem (by rw [List.length_finRange]; exact hn), List.getElem_finRange]
          rfl
        rw [List.take_add_one, hget]
        rfl
      rw [htake, List.map_append, run_append]
      have hstep : Sampled _ _ := (ih (Nat.le_of_succ_le hn)).step (n := ⟨n, hn⟩)
      exact hstep
  have hall := hrun 101 (Nat.le_refl 101)
  rwa [List.take_of_length_le (by simp)] at hall

end SmartDrop.Webhooks
