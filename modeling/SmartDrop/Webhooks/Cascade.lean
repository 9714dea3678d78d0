/-
# Removing a webhook

`remove` deletes a webhook together with the deliveries that it finds in the index of the webhook,
and takes these out of the retry queue.  The index is trimmed to the newest deliveries, so older
ones stay behind, with their retries.  Nothing is left exactly when the index had room for all
deliveries of the webhook (`cascade_complete_iff`).
-/
import SmartDrop.Webhooks.History

namespace SmartDrop.Webhooks

open Conc Redis ZSet

variable {P : Platform} {config : Config} {s s' : Store}

/-! ## 1. The index of a webhook -/

/-- The index of every webhook holds its newest deliveries. -/
structure IndexKept (P : Platform) (s : Store) : Prop where
  recorded : Recorded P s
  highest : ∀ w, (s.deliveryIndex w).Highest RECENT_DELIVERIES_LIMIT (BelongsTo s w)

theorem NoDeliveries.indexKept (h : NoDeliveries s) : IndexKept P s where
  recorded := h.recorded
  highest w := by
    rw [h.deliveryIndex]
    refine highest_empty (fun e he => ?_) _
    obtain ⟨d, hd, -⟩ := he
    rw [h.deliveries] at hd
    cases hd

theorem Inserts.belongsTo_iff {record : Delivery} (h : Inserts P record s s') (hs : Recorded P s)
    (w : String) (e : ℕ × String) : BelongsTo s' w e ↔ BelongsTo s w e ∨
      (w = record.webhook_id ∧ e = (record.created_at, record.id)) := by
  obtain ⟨score, i⟩ := e
  unfold BelongsTo
  dsimp only
  rw [h.deliveries, Function.update_apply]
  by_cases hi : i = record.id
  · subst hi
    simp only [if_true, h.fresh hs, Option.some.injEq, exists_eq_left', reduceCtorEq, false_and,
      exists_false, false_or, Prod.mk.injEq, and_true]
    tauto
  · simp [hi]

theorem Patches.belongsTo_iff {id : String} {existing : Delivery} {patch : DeliveryPatch}
    (h : Patches id existing patch s s') (w : String) (e : ℕ × String) :
    BelongsTo s' w e ↔ BelongsTo s w e := by
  obtain ⟨score, i⟩ := e
  unfold BelongsTo
  dsimp only
  rw [h.deliveries, Function.update_apply]
  by_cases hi : i = id
  · subst hi
    simp [h.stored, Delivery.patched]
  · simp [hi]

/-- **Every call** keeps the index of a webhook. -/
theorem IndexKept.step (h : IndexKept P s) {t : Turn} (ht : t.Dated) :
    IndexKept P (deliveryStep P config s t) := by
  rcases deliveryStep_cases P config ht h.recorded.dated with
    hstays | ⟨record, hinserts⟩ | ⟨id, patch, existing, -, hpatches⟩
  · refine ⟨hstays.recorded h.recorded, fun w => ?_⟩
    rw [hstays.deliveryIndex]
    refine (h.highest w).congr fun e => ?_
    unfold BelongsTo
    rw [hstays.deliveries]
  · refine ⟨hinserts.recorded h.recorded, fun w => ?_⟩
    rw [hinserts.deliveryIndex, Function.update_apply]
    split
    · rename_i hw
      subst hw
      refine ((h.highest _).insert (e := (record.created_at, record.id)) fun score hold => ?_).congr
        fun e => ?_
      · obtain ⟨d, hd, -⟩ := hold
        rw [show s.deliveries record.id = none from hinserts.fresh h.recorded] at hd
        cases hd
      · rw [hinserts.belongsTo_iff h.recorded]
        simp
    · rename_i hw
      refine (h.highest w).congr fun e => ?_
      rw [hinserts.belongsTo_iff h.recorded]
      tauto
  · refine ⟨hpatches.recorded h.recorded, fun w => ?_⟩
    rw [hpatches.deliveryIndex]
    exact (h.highest w).congr fun e => (hpatches.belongsTo_iff w e).symm

theorem indexKept_run (hs : NoDeliveries s) {turns : List Turn} (hdated : ∀ t ∈ turns, t.Dated) :
    IndexKept P (run (deliveryStep P config) s turns) :=
  run_inv (φ := fun _ t => Turn.Dated t) (fun _ _ h ht => h.step ht) hs.indexKept (Along.of_mem hdated s)

/-! ## 2. What is left -/

/-- What `remove` leaves when it runs alone and no command fails. -/
def removed (P : Platform) (config : Config) (s : Store) (caller : Caller) (w : String)
    (xs : ℕ → Env) : Store :=
  ((webhookRepository.remove P config w).prog.runWith (machine P) caller xs s).2

/-- Nothing is left of a webhook's deliveries: no record, and no retry of what was one. -/
structure Cascaded (w : String) (s s' : Store) : Prop where
  records : ∀ id d, s'.deliveries id = some d → d.webhook_id ≠ w
  retries : ∀ id d, s.deliveries id = some d → d.webhook_id = w → id ∉ s'.retries

/-- There are no more deliveries of a webhook than its index holds. -/
def FitsIndex (s : Store) (w : String) : Prop :=
  ∀ ids : List String, ids.Nodup → (∀ id ∈ ids, ∃ d, s.deliveries id = some d ∧ d.webhook_id = w) →
    ids.length ≤ RECENT_DELIVERIES_LIMIT

/-- `remove` deletes what the index lists. -/
theorem removed_eq (P : Platform) (config : Config) {s : Store} (caller : Caller) {w : String}
    {record : WebhookRecord} (hw : s.webhooks w = some record) {xs : ℕ → Env}
    (hxs : ∀ n, (xs n).fault = .none) :
    (removed P config s caller w xs).deliveries =
        (fun id => if id ∈ s.deliveryIndex w then none else s.deliveries id) ∧
      (removed P config s caller w xs).retries = s.retries.zremAll (s.deliveryIndex w).zrange := by
  have hsat : SatE (machine P) caller calm (webhookRepository.remove P config w) (· = s)
      (fun _ s' => s'.deliveries = (fun id => if id ∈ s.deliveryIndex w then none else s.deliveries id) ∧
        s'.retries = s.retries.zremAll (s.deliveryIndex w).zrange) fun _ _ => False := by
    refine SatE.bind (Q := fun r s' => r = some record ∧ s' = s) (satE_calm fun x s' h => ?_)
      fun r => ?_
    · subst h
      exact ⟨hw, rfl⟩
    refine SatE.assume fun hr => ?_
    subst hr
    refine SatE.bind (Q := fun ids s' => ids = (s.deliveryIndex w).zrange ∧ s' = s)
      (satE_calm fun x s' h => ?_) fun ids => ?_
    · subst h
      exact ⟨rfl, rfl⟩
    refine SatE.assume fun hids => ?_
    subst hids
    refine SatE.bind (Q := fun _ s' =>
      s'.deliveries = (fun id => if id ∈ s.deliveryIndex w then none else s.deliveries id) ∧
        s'.retries = s.retries.zremAll (s.deliveryIndex w).zrange) (satE_calm fun x s' h => ?_)
      fun _ => SatE.pure fun _ h => h
    subst h
    exact ⟨rfl, rfl⟩
  have hend := Sat.runWith hsat xs (fun n _ _ => hxs n) rfl
  split at hend
  · exact hend
  · exact hend.elim

/-- What the index has no room for is left. -/
theorem fits_of_cascaded (hkept : IndexKept P s) {w : String} {record : WebhookRecord}
    (hw : s.webhooks w = some record) (caller : Caller) {xs : ℕ → Env} (hxs : ∀ n, (xs n).fault = .none)
    (h : Cascaded w s (removed P config s caller w xs)) : FitsIndex s w := by
  obtain ⟨hdeliveries, -⟩ := removed_eq P config caller hw hxs
  intro ids hnodup hids
  -- whatever is not in the index is left
  have hsub : ids ⊆ (s.deliveryIndex w).zrange := by
    intro id hid
    obtain ⟨d, hd, hwebhook⟩ := hids id hid
    by_contra hnot
    refine h.records id d ?_ hwebhook
    rw [hdeliveries]
    exact (if_neg hnot).trans hd
  have hle := (List.subperm_of_subset hnodup hsub).length_le
  rw [zrange, List.length_map] at hle
  exact hle.trans (hkept.highest w).card

/-- **Removal cascades completely** exactly when the index had room for all deliveries of the
webhook: after any calls, whichever of their commands fail, the webhook is removed. -/
theorem cascade_complete_iff (P : Platform) (config : Config) (s : Store) (hs : NoDeliveries s)
    (turns : List Turn) (hdated : ∀ t ∈ turns, t.Dated) (w : String) (record : WebhookRecord)
    (hw : (run (deliveryStep P config) s turns).webhooks w = some record) (caller : Caller)
    (xs : ℕ → Env) (hxs : ∀ n, (xs n).fault = .none) :
    Cascaded w (run (deliveryStep P config) s turns)
        (removed P config (run (deliveryStep P config) s turns) caller w xs) ↔
      FitsIndex (run (deliveryStep P config) s turns) w := by
  have hkept : IndexKept P (run (deliveryStep P config) s turns) := indexKept_run hs hdated
  generalize run (deliveryStep P config) s turns = s at *
  obtain ⟨hdeliveries, hretries⟩ := removed_eq P config caller hw hxs
  have hhighest := hkept.highest w
  constructor
  · exact fits_of_cascaded hkept hw caller hxs
  · intro hfits
    have hall : ∀ id d, s.deliveries id = some d → d.webhook_id = w → id ∈ s.deliveryIndex w := by
      intro id d hd hwebhook
      have hbelongs : BelongsTo s w (d.created_at, id) := ⟨d, hd, hwebhook, rfl⟩
      refine mem_of_mem_entries (hhighest.mem_of_few (fun l hnodup hl => ?_) hbelongs)
      have hids : (l.map Prod.snd).Nodup := by
        refine hnodup.map_on fun e he e' he' heq => ?_
        obtain ⟨d₁, hd₁, -, hscore₁⟩ := hl e he
        obtain ⟨d₂, hd₂, -, hscore₂⟩ := hl e' he'
        rw [heq] at hd₁
        obtain rfl := Option.some.inj (hd₁.symm.trans hd₂)
        exact Prod.ext (hscore₁.symm.trans hscore₂) heq
      have hle := hfits (l.map Prod.snd) hids fun id hid => by
        obtain ⟨e, he, rfl⟩ := List.mem_map.mp hid
        obtain ⟨d', hd', hwebhook', -⟩ := hl e he
        exact ⟨d', hd', hwebhook'⟩
      rwa [List.length_map] at hle
    constructor
    · intro id d hd hwebhook
      rw [hdeliveries] at hd
      dsimp only at hd
      split at hd
      · cases hd
      · rename_i hnot
        exact hnot (hall id d hd hwebhook)
    · intro id d hd hwebhook
      rw [hretries, mem_zremAll, not_and_not_right]
      exact fun _ => hall id d hd hwebhook

/-- One delivery, waiting for its retry. -/
def retriedTurns : List Turn :=
  [sampleCreate 0, ⟨⟨0, none⟩, .scheduleRetry (sampleDeliveryId 0) 30001, fun _ => answering 200⟩]

/-- It is removed with its webhook. -/
theorem cascade_complete_iff_sample :
    Cascaded "wh_0" (run (deliveryStep samplePlatform sampleConfig) quietStore retriedTurns)
      (removed samplePlatform sampleConfig (run (deliveryStep samplePlatform sampleConfig) quietStore
        retriedTurns) ⟨0, none⟩ "wh_0" fun _ => answering 200) ↔
      FitsIndex (run (deliveryStep samplePlatform sampleConfig) quietStore retriedTurns) "wh_0" := by
  refine cascade_complete_iff samplePlatform sampleConfig quietStore quietStore_noDeliveries
    retriedTurns ?_ "wh_0" sampleRecord rfl ⟨0, none⟩ _ fun _ => rfl
  unfold retriedTurns
  simp only [List.forall_mem_cons]
  exact ⟨sampleCreate_dated 0, fun _ => (by decide : (1000 : ℕ) ≠ 0), by simp⟩

/-- Of a hundred and one deliveries the oldest stays behind. -/
theorem oldest_delivery_left :
    ¬ Cascaded "wh_0" (run (deliveryStep samplePlatform sampleConfig) quietStore
        ((List.finRange 101).map sampleCreate))
      (removed samplePlatform sampleConfig (run (deliveryStep samplePlatform sampleConfig) quietStore
        ((List.finRange 101).map sampleCreate)) ⟨0, none⟩ "wh_0" fun _ => answering 200) := by
  intro hcascaded
  have hsampled := sampled_run
  have hkept : IndexKept samplePlatform (run (deliveryStep samplePlatform sampleConfig) quietStore
      ((List.finRange 101).map sampleCreate)) :=
    indexKept_run quietStore_noDeliveries (List.forall_mem_map.mpr fun n _ => sampleCreate_dated n)
  have hw : (run (deliveryStep samplePlatform sampleConfig) quietStore
      ((List.finRange 101).map sampleCreate)).webhooks "wh_0" = some sampleRecord := by
    rw [hsampled.webhooks]
    rfl
  have hfits := fits_of_cascaded hkept hw _ (fun _ => rfl) hcascaded ((List.range 101).map sampleDeliveryId)
    (List.nodup_range.map fun _ _ => sampleDeliveryId_inj) fun id hid => by
      obtain ⟨k, hk, rfl⟩ := List.mem_map.mp hid
      exact ⟨_, hsampled.deliveries k (List.mem_range.mp hk), rfl⟩
  rw [List.length_map, List.length_range] at hfits
  exact absurd hfits (by decide)

end SmartDrop.Webhooks
