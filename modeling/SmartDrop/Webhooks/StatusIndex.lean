/-
# The status indexes

`create` puts a delivery into the index of its status, `update` moves it when the status changes,
and each index is trimmed to its newest deliveries.  So an index never says what is not so
(`status_index_sound`).  It can miss deliveries, however: one that was trimmed does not come back
when newer ones leave the index.  As long as nothing leaves an index from which something was
trimmed, listing by a status is exact (`filtered_listing_exact`).
-/
import SmartDrop.Webhooks.History

namespace SmartDrop.Webhooks

open Conc Redis ZSet

variable {P : Platform} {config : Config} {s s' : Store}

/-! ## 1. What an index says -/

/-- No delivery is in two status indexes, what is in one has this status and its creation time for
a score, and no index is too long. -/
structure IndexSound (s : Store) : Prop where
  once : ∀ id w w' status status', id ∈ s.statusIndex w status → id ∈ s.statusIndex w' status' →
    w = w' ∧ status = status'
  recorded : ∀ w status score id, (score, id) ∈ (s.statusIndex w status).entries →
    ∃ d, s.deliveries id = some d ∧ d.webhook_id = w ∧ d.status = status ∧ score = d.created_at
  capped : ∀ w status, (s.statusIndex w status).zcard ≤ RECENT_DELIVERIES_LIMIT

/-- What every call keeps. -/
structure Truthful (P : Platform) (s : Store) : Prop where
  recorded : Recorded P s
  sound : ∀ w status, ∀ e ∈ (s.statusIndex w status).entries, HasStatus s w status e
  capped : ∀ w status, (s.statusIndex w status).zcard ≤ RECENT_DELIVERIES_LIMIT

theorem Truthful.indexSound (h : Truthful P s) : IndexSound s where
  once id w w' status status' hid hid' := by
    obtain ⟨score, he⟩ := mem_entries_of_mem hid
    obtain ⟨score', he'⟩ := mem_entries_of_mem hid'
    obtain ⟨hw, hstatus, -⟩ := (h.sound w status _ he).unique (h.sound w' status' _ he') rfl
    exact ⟨hw, hstatus⟩
  recorded w status score id he := by
    obtain ⟨d, hd, hw, hstatus, hscore⟩ := h.sound w status _ he
    exact ⟨d, hd, hw, hstatus, hscore.symm⟩
  capped := h.capped

theorem NoDeliveries.truthful (h : NoDeliveries s) : Truthful P s where
  recorded := h.recorded
  sound w status e he := by
    rw [h.statusIndex] at he
    exact absurd he List.not_mem_nil
  capped w status := by
    rw [h.statusIndex]
    exact Nat.zero_le _

/-- What enters an index by a write. -/
theorem mem_queueIndexWrite {z : ZSet ℕ String} {score : ℕ} {id : String} {e : ℕ × String}
    (h : e ∈ (queueIndexWrite z score id).entries) :
    (e ∈ z.entries ∧ e.2 ≠ id) ∨ e = (score, id) := mem_entries_zadd.mp (mem_of_mem_trim h)

theorem Stays.hasStatus_iff (h : Stays s s') (w : String) (status : Status) (e : ℕ × String) :
    HasStatus s' w status e ↔ HasStatus s w status e := by
  unfold HasStatus
  rw [h.deliveries]

/-- **Every call** keeps the indexes truthful. -/
theorem Truthful.step (h : Truthful P s) {t : Turn} (ht : t.Dated) :
    Truthful P (deliveryStep P config s t) := by
  rcases deliveryStep_cases P config ht h.recorded.dated with
    hstays | ⟨record, hinserts⟩ | ⟨id, patch, existing, -, hpatches⟩
  · refine ⟨hstays.recorded h.recorded, fun w status e he => ?_, fun w status => ?_⟩
    · rw [hstays.statusIndex] at he
      exact (hstays.hasStatus_iff w status e).mpr (h.sound w status e he)
    · rw [hstays.statusIndex]
      exact h.capped w status
  · refine ⟨hinserts.recorded h.recorded, fun w status e he => ?_, fun w status => ?_⟩
    · rw [hinserts.hasStatus_iff h.recorded]
      rw [hinserts.statusIndex_eq] at he
      split at he
      · rename_i hindex
        rcases mem_queueIndexWrite he with ⟨hold, -⟩ | hnew
        · exact .inl (h.sound w status e hold)
        · exact .inr ⟨hindex.1, hindex.2, hnew⟩
      · exact .inl (h.sound w status e he)
    · rw [hinserts.statusIndex_eq]
      split
      · exact zcard_trim_le _ _
      · exact h.capped w status
  · -- whatever else has the id is the patched delivery
    have hexisting : HasStatus s existing.webhook_id existing.status (existing.created_at, id) :=
      ⟨existing, hpatches.stored, rfl, rfl, rfl⟩
    have hself : ∀ w status e, HasStatus s w status e → e.2 = id →
        w = existing.webhook_id ∧ status = existing.status ∧ e = (existing.created_at, id) :=
      fun w status e he hid => he.unique hexisting hid
    by_cases hsame : patch.status.getD existing.status = existing.status
    · refine ⟨hpatches.recorded h.recorded, fun w status e he => ?_, fun w status => ?_⟩
      · rw [hpatches.statusIndex_same hsame] at he
        rw [hpatches.hasStatus_iff, hsame]
        by_cases hid : e.2 = id
        · exact .inr (hself w status e (h.sound w status e he) hid)
        · exact .inl ⟨hid, h.sound w status e he⟩
      · rw [hpatches.statusIndex_same hsame]
        exact h.capped w status
    · refine ⟨hpatches.recorded h.recorded, fun w status e he => ?_, fun w status => ?_⟩
      · rw [hpatches.statusIndex_move h.recorded hsame] at he
        rw [hpatches.hasStatus_iff]
        have hstays : ∀ {w status}, e ∈ (s.statusIndex w status).entries →
            ¬ (w = existing.webhook_id ∧ status = existing.status) →
            e.2 ≠ id ∧ HasStatus s w status e := by
          intro w status hmem hnot
          refine ⟨fun hid => hnot ?_, h.sound w status e hmem⟩
          obtain ⟨hw, hstatus, -⟩ := hself w status e (h.sound w status e hmem) hid
          exact ⟨hw, hstatus⟩
        split at he
        · rename_i hw
          split at he
          · rename_i hnext
            rcases mem_queueIndexWrite he with ⟨hold, hne⟩ | hnew
            · exact .inl ⟨hne, h.sound w status e hold⟩
            · exact .inr ⟨hw, hnext, hnew⟩
          split at he
          · obtain ⟨hold, hne⟩ := mem_entries_zrem.mp he
            exact .inl ⟨hne, h.sound w status e hold⟩
          · rename_i hold
            exact .inl (hstays he fun hboth => hold hboth.2)
        · rename_i hw
          exact .inl (hstays he fun hboth => hw hboth.1)
      · rw [hpatches.statusIndex_move h.recorded hsame]
        split
        · split
          · exact zcard_trim_le _ _
          split
          · exact (List.length_filter_le _ _).trans (h.capped w status)
          · exact h.capped w status
        · exact h.capped w status

/-- **The status indexes are sound** after every sequence of calls, whichever of their commands
fail. -/
theorem status_index_sound (P : Platform) (config : Config) (s : Store) (hs : NoDeliveries s)
    (turns : List Turn) (hdated : ∀ t ∈ turns, t.Dated) :
    IndexSound (run (deliveryStep P config) s turns) := by
  have htruthful : Truthful P (run (deliveryStep P config) s turns) :=
    run_inv (φ := fun _ t => Turn.Dated t) (fun _ _ h ht => h.step ht) hs.truthful
      (Along.of_mem hdated s)
  exact htruthful.indexSound

/-- Two deliveries, and the first has succeeded. -/
theorem status_index_sound_sample :
    IndexSound (run (deliveryStep samplePlatform sampleConfig) quietStore
      [sampleCreate 0, sampleCreate 1, sampleSuccess 0]) := by
  refine status_index_sound samplePlatform sampleConfig quietStore quietStore_noDeliveries _ ?_
  simp only [List.forall_mem_cons]
  exact ⟨sampleCreate_dated 0, sampleCreate_dated 1, sampleSuccess_dated 0, by simp⟩

/-! ## 2. What takes a delivery out of an index -/

/-- The commands of an update take effect: the record is read, and the write reaches Redis. -/
def Turn.TakesEffect (t : Turn) : Prop := (t.env 0).fault = .none ∧ (t.env 1).fault ≠ .before

/-- What follows the first command of a program that runs to its end. -/
theorem runWith_step {α : Type} {t : Prog sig α} {op : Op} {k : Except Err op.Ret → Prog sig α}
    {caller : Caller} {env : ℕ → Env} {r : Except Err op.Ret} (ht : t = .cmd op k)
    (hexec : (machine P).exec caller op (env 0) s = (r, s')) :
    t.runWith (machine P) caller env s = (k r).runWith (machine P) caller (fun n => env (n + 1)) s' := by
  subst ht
  have hstep : (Prog.cmd op k : Prog sig α).runWith (machine P) caller env s =
      (k ((machine P).exec caller op (env 0) s).1).runWith (machine P) caller
        (fun n => env (n + 1)) ((machine P).exec caller op (env 0) s).2 := rfl
  rw [hstep, hexec]

/-- An update reads the record, and writes it. -/
theorem update_steps (P : Platform) (config : Config) (id : String) (patch : DeliveryPatch)
    {existing : Delivery} (hdated : existing.created_at ≠ 0) :
    ∃ k : Except Err (Option Delivery) → Prog sig (Except Err Unit),
      ((DeliveryCall.update id patch).code P config).prog = .cmd (Op.getDelivery id) k ∧
      (∀ e, k (.error e) = .ret (.error e)) ∧
      ∃ k' : Except Err Unit → Prog sig (Except Err Unit), k (.ok (some existing)) =
        .cmd (Op.updateDelivery id existing patch existing.created_at) k' ∧
        ∀ e, k' (.error e) = .ret (.error e) := by
  refine ⟨_, rfl, fun e => rfl, ?_⟩
  obtain ⟨i, w, e, t, st, a, le, la, nr, rs, tr, rq, created_at, p, sq⟩ := existing
  cases created_at with
  | zero => exact absurd rfl hdated
  | succ n => exact ⟨_, rfl, fun e => rfl⟩

/-- An update that takes no effect changes nothing. -/
theorem stays_of_no_effect {t : Turn} {id : String} {patch : DeliveryPatch} {existing : Delivery}
    (hcall : t.call = .update id patch) (hstored : s.deliveries id = some existing)
    (hdated : existing.created_at ≠ 0) (h : ¬ t.TakesEffect) :
    Stays s (deliveryStep P config s t) := by
  obtain ⟨caller, call, env⟩ := t
  obtain rfl : call = .update id patch := hcall
  obtain ⟨k, hk, hret, k', hk', hret'⟩ := update_steps P config id patch hdated
  show Stays s (((DeliveryCall.update id patch).code P config).prog.runWith (machine P) caller env s).2
  by_cases hfault : (env 0).fault = .none
  · have hread : (machine P).exec caller (Op.getDelivery id) (env 0) s = (.ok (some existing), s) := by
      simp [machine, Op.isLocal, hfault, Store.exec, hstored]
    have hbefore : (env 1).fault = .before := by
      by_contra hne
      exact h ⟨hfault, hne⟩
    have hwrite : (machine P).exec caller (Op.updateDelivery id existing patch existing.created_at)
        (env 1) s = (.error "Redis command failed", s) := by
      simp [machine, Op.isLocal, hbefore]
    rw [runWith_step hk hread, runWith_step hk' hwrite, hret']
    exact .refl s
  · have hread : (machine P).exec caller (Op.getDelivery id) (env 0) s =
        (.error "Redis command failed", s) := by
      cases hcase : (env 0).fault with
      | none => exact absurd hcase hfault
      | before => simp [machine, Op.isLocal, hcase]
      | after => simp [machine, Op.isLocal, hcase, Store.exec]
    rw [runWith_step hk hread, hret]
    exact .refl s

/-- There are no more deliveries of a webhook in a status than an index holds. -/
def Fits (s : Store) (w : String) (status : Status) : Prop :=
  ∀ l : List (ℕ × String), l.Nodup → (∀ e ∈ l, HasStatus s w status e) →
    l.length ≤ RECENT_DELIVERIES_LIMIT

/-- As many deliveries of a webhook in a status as an index holds are newer than this one. -/
def Outranked (s : Store) (w : String) (status : Status) (e : ℕ × String) : Prop :=
  ∃ l : List (ℕ × String), l.Nodup ∧ l.length = RECENT_DELIVERIES_LIMIT ∧
    ∀ x ∈ l, HasStatus s w status x ∧ x ≠ e ∧ Ranked e x

/-- A call opens no gap: a delivery changes its status only while no more deliveries than an index
holds have the one it leaves, or while it is not among the newest of them. -/
def OpensNoGap (s : Store) (t : Turn) : Prop :=
  ∀ id patch existing, t.call = .update id patch → s.deliveries id = some existing →
    patch.status.getD existing.status ≠ existing.status → t.TakesEffect →
    Fits s existing.webhook_id existing.status ∨
      Outranked s existing.webhook_id existing.status (existing.created_at, id)

/-- Every status index holds the newest deliveries in its status. -/
structure Complete (P : Platform) (s : Store) : Prop where
  recorded : Recorded P s
  highest : ∀ w status, (s.statusIndex w status).Highest RECENT_DELIVERIES_LIMIT
    (HasStatus s w status)

theorem NoDeliveries.complete (h : NoDeliveries s) : Complete P s where
  recorded := h.recorded
  highest w status := by
    rw [h.statusIndex]
    refine highest_empty (fun e he => ?_) _
    obtain ⟨d, hd, -⟩ := he
    rw [h.deliveries] at hd
    cases hd

/-- **Every call that opens no gap** keeps the indexes complete. -/
theorem Complete.step (h : Complete P s) {t : Turn} (ht : t.Dated) (hgap : OpensNoGap s t) :
    Complete P (deliveryStep P config s t) := by
  rcases deliveryStep_cases P config ht h.recorded.dated with
    hstays | ⟨record, hinserts⟩ | ⟨id, patch, existing, hcall, hpatches⟩
  · refine ⟨hstays.recorded h.recorded, fun w status => ?_⟩
    rw [hstays.statusIndex]
    exact (h.highest w status).congr fun e => (hstays.hasStatus_iff w status e).symm
  · refine ⟨hinserts.recorded h.recorded, fun w status => ?_⟩
    rw [hinserts.statusIndex_eq]
    split
    · rename_i hindex
      obtain ⟨rfl, rfl⟩ := hindex
      refine ((h.highest _ _).insert (e := (record.created_at, record.id)) fun score hold => ?_).congr
        fun e => ?_
      · obtain ⟨d, hd, -⟩ := hold
        rw [show s.deliveries record.id = none from hinserts.fresh h.recorded] at hd
        cases hd
      · rw [hinserts.hasStatus_iff h.recorded]
        simp
    · rename_i hindex
      refine (h.highest w status).congr fun e => ?_
      rw [hinserts.hasStatus_iff h.recorded]
      tauto
  · have hself : HasStatus s existing.webhook_id existing.status (existing.created_at, id) :=
      ⟨existing, hpatches.stored, rfl, rfl, rfl⟩
    by_cases hsame : patch.status.getD existing.status = existing.status
    · refine ⟨hpatches.recorded h.recorded, fun w status => ?_⟩
      rw [hpatches.statusIndex_same hsame]
      refine (h.highest w status).congr fun e => ?_
      rw [hpatches.hasStatus_iff, hsame]
      constructor
      · intro he
        by_cases hid : e.2 = id
        · obtain ⟨hw, hstatus, heq⟩ := he.unique hself hid
          exact .inr ⟨hw, hstatus, heq⟩
        · exact .inl ⟨hid, he⟩
      · rintro (⟨-, he⟩ | ⟨rfl, rfl, rfl⟩)
        · exact he
        · exact hself
    · refine ⟨hpatches.recorded h.recorded, fun w status => ?_⟩
      have heffect : t.TakesEffect := by
        by_contra hnot
        have hstays : Stays s (deliveryStep P config s t) := stays_of_no_effect hcall
          hpatches.stored (h.recorded.dated id existing hpatches.stored) hnot
        have hstatus := congrFun (hpatches.deliveries.symm.trans hstays.deliveries) id
        rw [Function.update_self, hpatches.stored] at hstatus
        exact hsame (congrArg Delivery.status (Option.some.inj hstatus))
      rw [hpatches.statusIndex_move h.recorded hsame]
      split
      case isFalse hw =>
        refine (h.highest w status).congr fun e => ?_
        rw [hpatches.hasStatus_iff]
        constructor
        · intro he
          refine .inl ⟨fun hid => hw ?_, he⟩
          exact (he.unique hself hid).1
        · rintro (⟨-, he⟩ | ⟨hw', -⟩)
          · exact he
          · exact absurd hw' hw
      case isTrue hw =>
        subst hw
        split
        · rename_i hnext
          subst hnext
          -- the delivery enters the index of its new status
          refine ((h.highest _ _).insert (e := (existing.created_at, id)) fun score hold => ?_).congr
            fun e => ?_
          · exact hsame (hold.unique hself rfl).2.1
          · rw [hpatches.hasStatus_iff]
            constructor
            · rintro (he | rfl)
              · exact .inl ⟨fun hid => hsame (he.unique hself hid).2.1, he⟩
              · exact .inr ⟨rfl, rfl, rfl⟩
            · rintro (⟨-, he⟩ | ⟨-, -, rfl⟩)
              · exact .inl he
              · exact .inr rfl
        rename_i hnext
        split
        · rename_i hstatus
          subst hstatus
          -- it leaves the index of its old status, where nothing is missing, or it is not in it
          refine ((h.highest _ _).erase (e := (existing.created_at, id)) (fun score hold => ?_) ?_).congr
            fun e => ?_
          · exact (hold.unique hself rfl).2.2
          · rcases hgap id patch existing hcall hpatches.stored hsame heffect with hfits | hout
            · exact .inr fun x hx => (h.highest _ _).mem_of_few hfits hx
            · obtain ⟨l, hnodup, hlen, hl⟩ := hout
              exact .inl ((h.highest _ _).not_mem_of_outranked hnodup hlen hl)
          · rw [hpatches.hasStatus_iff]
            constructor
            · rintro ⟨he, hne⟩
              exact .inl ⟨fun hid => hne (he.unique hself hid).2.2, he⟩
            · rintro (⟨hid, he⟩ | ⟨-, hold, -⟩)
              · exact ⟨he, fun heq => hid (heq ▸ rfl)⟩
              · exact absurd hold hnext
        · rename_i hstatus
          refine (h.highest _ status).congr fun e => ?_
          rw [hpatches.hasStatus_iff]
          constructor
          · intro he
            exact .inl ⟨fun hid => hstatus (he.unique hself hid).2.1, he⟩
          · rintro (⟨-, he⟩ | ⟨-, hnew, -⟩)
            · exact he
            · exact absurd hnew hnext

/-! ## 3. Listing by status -/

/-- What `listByWebhook` answers with a status. -/
def listing (P : Platform) (s : Store) (caller : Caller) (w : String) (limit : ℕ) (status : Status)
    (xs : ℕ → Env) : Except Err (List Delivery) :=
  ((deliveryRepository.listByWebhook w limit (some status)).prog.runWith (machine P) caller xs s).1

/-- The newest deliveries of a webhook in a status, the newest first: no more than `limit`, and none
is left out unless there are as many that are no older. -/
structure Newest (s : Store) (w : String) (status : Status) (limit : ℕ) (found : List Delivery) :
    Prop where
  stored : ∀ d ∈ found, s.deliveries d.id = some d ∧ d.webhook_id = w ∧ d.status = status
  nodup : (found.map Delivery.id).Nodup
  newest_first : found.Pairwise fun a b => b.created_at ≤ a.created_at
  length_le : found.length ≤ limit
  complete : ∀ id d, s.deliveries id = some d → d.webhook_id = w → d.status = status → d ∉ found →
    found.length = limit ∧ ∀ e ∈ found, d.created_at ≤ e.created_at

/-- The entries that a listing reads, the highest first. -/
def newestEntries (z : ZSet ℕ String) (limit : ℕ) : List (ℕ × String) := z.entries.reverse.take limit

/-- The deliveries behind them. -/
def behind (s : Store) (entries : List (ℕ × String)) : List Delivery :=
  entries.filterMap fun e => s.deliveries e.2

theorem listing_eq (P : Platform) (s : Store) (caller : Caller) (w : String) {limit : ℕ}
    (hlimit : 1 ≤ limit) (status : Status) {xs : ℕ → Env} (hxs : ∀ n, (xs n).fault = .none) :
    listing P s caller w limit status xs =
      .ok (behind s (newestEntries (s.statusIndex w status) limit)) := by
  have hsat : SatE (machine P) caller calm (deliveryRepository.listByWebhook w limit (some status))
      (· = s) (fun found _ => found = behind s (newestEntries (s.statusIndex w status) limit))
      fun _ _ => False := by
    refine SatE.tryCatch (E := fun _ _ => False) ?_ fun _ => SatE.pure fun _ h => h.elim
    rw [if_neg (by omega)]
    have hids : (s.statusIndex w status).zrevrange 0 (limit - 1) =
        (newestEntries (s.statusIndex w status) limit).map Prod.snd := by
      rw [zrevrange, newestEntries, List.drop_zero, Nat.sub_zero, Nat.sub_add_cancel hlimit,
        List.map_take]
    refine SatE.bind (Q := fun ids s' => ids =
      (newestEntries (s.statusIndex w status) limit).map Prod.snd ∧ s' = s)
      (satE_calm fun x s' h => ?_) fun ids => ?_
    · subst h
      exact ⟨hids, rfl⟩
    refine SatE.assume fun heq => ?_
    subst heq
    split
    · rename_i hempty
      have hnil : newestEntries (s.statusIndex w status) limit = [] := by simpa using hempty
      refine SatE.pure fun _ _ => ?_
      rw [hnil]
      rfl
    · refine SatE.bind (Q := fun records _ => records =
        ((newestEntries (s.statusIndex w status) limit).map Prod.snd).map s.deliveries)
        (satE_calm fun x s' h => h ▸ rfl) fun records => SatE.pure fun _ h => ?_
      rw [h, behind, List.map_map, List.filterMap_map]
      rfl
  have hend := Sat.runWith hsat xs (fun n _ _ => hxs n) rfl
  unfold listing
  split at hend
  · rename_i found heq
    rw [heq, hend]
  · exact hend.elim

/-- The entries of the deliveries that were read are those that were looked for. -/
theorem map_behind (hrecorded : Recorded P s) {w : String} {status : Status}
    {entries : List (ℕ × String)} (h : ∀ e ∈ entries, HasStatus s w status e) :
    (behind s entries).map (fun d => (d.created_at, d.id)) = entries := by
  induction entries with
  | nil => rfl
  | cons e entries ih =>
    rw [List.forall_mem_cons] at h
    obtain ⟨⟨d, hd, -, -, hscore⟩, hrest⟩ := h
    have hcons : behind s (e :: entries) = d :: behind s entries := List.filterMap_cons_some hd
    rw [hcons, List.map_cons, ih hrest, hrecorded.keyed e.2 d hd, hscore]

/-- **A complete index lists exactly.** -/
theorem Complete.newest (h : Complete P s) (w : String) (status : Status) {limit : ℕ}
    (hlimit : limit ≤ RECENT_DELIVERIES_LIMIT) :
    Newest s w status limit (behind s (newestEntries (s.statusIndex w status) limit)) := by
  have hhighest := h.highest w status
  generalize s.statusIndex w status = z at *
  have hentries : ∀ e ∈ newestEntries z limit, e ∈ z.entries :=
    fun e he => List.mem_reverse.mp (List.mem_of_mem_take he)
  have hmap := map_behind h.recorded fun e he => hhighest.sound e (hentries e he)
  have hlength : (behind s (newestEntries z limit)).length = min limit z.zcard := by
    have hlen := congrArg List.length hmap
    rw [List.length_map] at hlen
    rw [hlen, newestEntries, List.length_take, List.length_reverse]
    rfl
  have hmem : ∀ d ∈ behind s (newestEntries z limit), (d.created_at, d.id) ∈ newestEntries z limit := by
    intro d hd
    rw [← hmap]
    exact List.mem_map_of_mem hd
  refine ⟨fun d hd => ?_, ?_, ?_, ?_, fun id d hd hw hstatus hnot => ?_⟩
  · obtain ⟨e, he, hde⟩ := List.mem_filterMap.mp hd
    obtain ⟨d', hd', hw, hstatus, -⟩ := hhighest.sound e (hentries e he)
    obtain rfl := Option.some.inj (hde.symm.trans hd')
    rw [h.recorded.keyed e.2 d hd']
    exact ⟨hd', hw, hstatus⟩
  · have hids : (behind s (newestEntries z limit)).map Delivery.id =
        (newestEntries z limit).map Prod.snd := by
      rw [← congrArg (List.map Prod.snd) hmap, List.map_map]
      rfl
    rw [hids]
    refine (List.Sublist.map Prod.snd (List.take_sublist _ _)).nodup ?_
    rw [List.map_reverse]
    exact List.nodup_reverse.mpr z.nodup
  · have hranked : (newestEntries z limit).Pairwise fun a b => b.1 ≤ a.1 := by
      refine List.Pairwise.sublist (List.take_sublist _ _) ?_
      rw [List.pairwise_reverse]
      exact z.ranked.imp fun h => h.score_le
    rw [← hmap, List.pairwise_map] at hranked
    exact hranked
  · rw [hlength]
    exact Nat.min_le_left _ _
  · have hself : HasStatus s w status (d.created_at, id) := ⟨d, hd, hw, hstatus, rfl⟩
    have hout : (d.created_at, id) ∉ newestEntries z limit := by
      intro hin
      exact hnot (List.mem_filterMap.mpr ⟨_, hin, hd⟩)
    by_cases hin : (d.created_at, id) ∈ z.entries
    · -- it is in the index, below those that were read
      have hsplit := List.take_append_drop limit z.entries.reverse
      have hdrop : (d.created_at, id) ∈ z.entries.reverse.drop limit := by
        have hrev := List.mem_reverse.mpr hin
        rw [← hsplit] at hrev
        exact (List.mem_append.mp hrev).resolve_left hout
      have hlong : limit ≤ z.zcard := by
        have hpos := List.length_pos_of_mem hdrop
        rw [List.length_drop, List.length_reverse] at hpos
        unfold zcard
        omega
      refine ⟨hlength.trans (Nat.min_eq_left hlong), fun e he => ?_⟩
      have hranked : z.entries.reverse.Pairwise fun a b => b.1 ≤ a.1 := by
        rw [List.pairwise_reverse]
        exact z.ranked.imp fun h => h.score_le
      rw [← hsplit] at hranked
      exact (List.pairwise_append.mp hranked).2.2 _ (hmem e he) _ hdrop
    · -- it was trimmed, and the index is full
      obtain ⟨hfull, hlow⟩ := hhighest.top _ hself hin
      refine ⟨hlength.trans (Nat.min_eq_left (hfull ▸ hlimit)), fun e he => ?_⟩
      exact (hlow _ (hentries _ (hmem e he))).score_le

/-- **Listing by status is exact** after every sequence of calls none of which opens a gap: with a
limit that an index can serve, it returns the newest deliveries of the webhook in the status. -/
theorem filtered_listing_exact (P : Platform) (config : Config) (s : Store) (hs : NoDeliveries s)
    (turns : List Turn) (hdated : ∀ t ∈ turns, t.Dated)
    (hgap : Along (deliveryStep P config) OpensNoGap s turns)
    (w : String) (status : Status) (limit : ℕ) (hlimit : 1 ≤ limit)
    (hcap : limit ≤ RECENT_DELIVERIES_LIMIT) (caller : Caller) (xs : ℕ → Env)
    (hxs : ∀ n, (xs n).fault = .none) :
    ∃ found, listing P (run (deliveryStep P config) s turns) caller w limit status xs = .ok found ∧
      Newest (run (deliveryStep P config) s turns) w status limit found := by
  have hcomplete : Complete P (run (deliveryStep P config) s turns) := by
    refine run_inv (φ := fun s t => Turn.Dated t ∧ OpensNoGap s t)
      (fun _ _ h ht => h.step ht.1 ht.2) hs.complete ?_
    exact (Along.of_mem hdated s).and hgap
  exact ⟨_, listing_eq P _ caller w hlimit status hxs, hcomplete.newest w status hcap⟩

/-- A delivery, which has succeeded. -/
theorem filtered_listing_exact_sample :
    ∃ found, listing samplePlatform (run (deliveryStep samplePlatform sampleConfig) quietStore
        [sampleCreate 0, sampleSuccess 0]) ⟨0, none⟩ "wh_0" 50 .success (fun _ => answering 200) =
          .ok found ∧
      Newest (run (deliveryStep samplePlatform sampleConfig) quietStore
        [sampleCreate 0, sampleSuccess 0]) "wh_0" .success 50 found := by
  have hdated : ∀ t ∈ [sampleCreate 0, sampleSuccess 0], t.Dated := by
    simp only [List.forall_mem_cons]
    exact ⟨sampleCreate_dated 0, sampleSuccess_dated 0, by simp⟩
  have hgap : Along (deliveryStep samplePlatform sampleConfig) OpensNoGap quietStore
      [sampleCreate 0, sampleSuccess 0] := by
    refine ⟨fun id patch existing hcall => (by cases hcall), fun id patch existing _ _ _ _ => ?_, trivial⟩
    refine .inl fun l hnodup hl => ?_
    -- all that is stored is the one delivery
    have hone : ∀ e ∈ l, e.2 = sampleDeliveryId 0 := by
      intro e he
      obtain ⟨d, hd, -⟩ := hl e he
      by_contra hne
      have hupdate : (deliveryStep samplePlatform sampleConfig quietStore (sampleCreate 0)).deliveries =
          Function.update (fun _ => none) (sampleDeliveryId 0)
            (some (deliveryRepository.newRecord ⟨"wh_0", "evt_0", "pool.created", some "trace_0", none⟩
              (sampleDeliveryId 0) "trace_0" 1)) := rfl
      rw [hupdate, Function.update_of_ne hne] at hd
      cases hd
    cases l with
    | nil => exact Nat.zero_le _
    | cons e l =>
      cases l with
      | nil => exact (by decide : 1 ≤ RECENT_DELIVERIES_LIMIT)
      | cons e' l =>
        simp only [List.forall_mem_cons] at hl hone
        have heq : e = e' := (hl.1.unique hl.2.1 (hone.1.trans hone.2.1.symm)).2.2
        rw [heq] at hnodup
        exact absurd List.mem_cons_self (List.nodup_cons.mp hnodup).1
  exact filtered_listing_exact samplePlatform sampleConfig quietStore quietStore_noDeliveries _ hdated
    hgap "wh_0" .success 50 (by decide) (by decide) ⟨0, none⟩ _ fun _ => rfl

/-- A success takes its delivery out of the index of the pending ones, and leaves the others alone. -/
theorem sampleSuccess_spec {n : ℕ} (h : s.deliveries (sampleDeliveryId n) = some (sampleStored n)) :
    (deliveryStep samplePlatform sampleConfig s (sampleSuccess n)).statusIndex "wh_0" .pending =
        (s.statusIndex "wh_0" .pending).zrem (sampleDeliveryId n) ∧
      ∀ id, id ≠ sampleDeliveryId n → (deliveryStep samplePlatform sampleConfig s (sampleSuccess n)).deliveries id =
        s.deliveries id := by
  have hread : (machine samplePlatform).exec (sampleSuccess n).caller (Op.getDelivery (sampleDeliveryId n))
      ((sampleSuccess n).env 0) s = (.ok (some (sampleStored n)), s) := by
    rw [← h]
    rfl
  have hrun : deliveryStep samplePlatform sampleConfig s (sampleSuccess n) = _ :=
    congrArg Prod.snd (runWith_step rfl hread)
  rw [hrun]
  exact ⟨rfl, fun id hid => Function.update_of_ne hid _ _⟩

/-- The newest delivery ranks above the others. -/
theorem Sampled.above (h : Sampled 101 s) (hrecorded : Recorded samplePlatform s) {x : ℕ × String}
    (hx : HasStatus s "wh_0" .pending x) : Ranked x (101, sampleDeliveryId 100) := by
  obtain ⟨d, hd, -, -, hscore⟩ := hx
  obtain ⟨k, hk, hid⟩ := hrecorded.drawn _ _ hd
  rw [h.drawn] at hk
  obtain ⟨score, id⟩ := x
  obtain rfl : id = sampleDeliveryId k := hid
  obtain rfl : sampleStored k = d := Option.some.inj ((h.deliveries k hk).symm.trans hd)
  obtain rfl : k + 1 = score := hscore
  rcases Nat.lt_succ_iff_lt_or_eq.mp hk with hlt | rfl
  · exact .inl (Nat.succ_lt_succ hlt)
  · exact .inr ⟨rfl, le_refl _⟩

/-- A hundred and one deliveries, and the newest has succeeded. -/
def crowdedTurns : List Turn := (List.finRange 101).map sampleCreate ++ [sampleSuccess 100]

/-- The oldest delivery is pending, and one of a hundred, but the listing has lost it. -/
theorem trimmed_delivery_lost :
    ¬ ∃ found, listing samplePlatform (run (deliveryStep samplePlatform sampleConfig) quietStore
        crowdedTurns) ⟨0, none⟩ "wh_0" 100 .pending (fun _ => answering 200) = .ok found ∧
      Newest (run (deliveryStep samplePlatform sampleConfig) quietStore crowdedTurns)
        "wh_0" .pending 100 found := by
  rintro ⟨found, hlisting, hnewest⟩
  have hcomplete : Complete samplePlatform (run (deliveryStep samplePlatform sampleConfig) quietStore
      ((List.finRange 101).map sampleCreate)) := by
    refine run_inv (φ := fun _ t => ∃ n, t = sampleCreate n) ?_ quietStore_noDeliveries.complete
      (Along.of_mem (List.forall_mem_map.mpr fun n _ => ⟨n, rfl⟩) _)
    rintro s t h ⟨n, rfl⟩
    refine h.step (sampleCreate_dated n) fun id patch existing hcall => ?_
    cases hcall
  have hsampled := sampled_run
  rw [crowdedTurns, run_append, run_cons, run_nil] at hlisting hnewest
  generalize run (deliveryStep samplePlatform sampleConfig) quietStore ((List.finRange 101).map sampleCreate) = s at *
  obtain ⟨hindex, hothers⟩ := sampleSuccess_spec (hsampled.deliveries 100 (Nat.lt_succ_self 100))
  -- the newest delivery leaves the index of the pending ones, which was full
  have hin : (101, sampleDeliveryId 100) ∈ (s.statusIndex "wh_0" .pending).entries :=
    (hcomplete.highest "wh_0" .pending).mem_of_above (by decide)
      ⟨_, hsampled.deliveries 100 (Nat.lt_succ_self 100), rfl, rfl, rfl⟩ fun x hx => hsampled.above hcomplete.recorded hx
  have hcard : ((s.statusIndex "wh_0" .pending).zrem (sampleDeliveryId 100)).zcard < RECENT_DELIVERIES_LIMIT :=
    (zcard_zrem_lt (mem_of_mem_entries hin)).trans_le (hcomplete.highest "wh_0" .pending).card
  rw [listing_eq _ _ _ _ (by decide) _ fun _ => rfl, hindex] at hlisting
  have hfew : found.length < 100 := by
    rw [← Except.ok.inj hlisting]
    refine (List.length_filterMap_le _ _).trans_lt ?_
    rw [newestEntries, List.length_take, List.length_reverse]
    exact (Nat.min_le_right _ _).trans_lt hcard
  -- the hundred others are still pending, and there is room for all of them
  have hall : (List.range 100).map sampleDeliveryId ⊆ found.map Delivery.id := by
    intro id hid
    obtain ⟨k, hk, rfl⟩ := List.mem_map.mp hid
    have hk := List.mem_range.mp hk
    have hstored := (hothers _ fun he => hk.ne (sampleDeliveryId_inj he)).trans
      (hsampled.deliveries k (Nat.lt_succ_of_lt hk))
    refine List.mem_map.mpr ⟨sampleStored k, ?_, rfl⟩
    by_contra hout
    exact hfew.ne (hnewest.complete _ _ hstored rfl rfl hout).1
  have hle := (List.subperm_of_subset (List.nodup_range.map fun _ _ => sampleDeliveryId_inj) hall).length_le
  rw [List.length_map, List.length_map, List.length_range] at hle
  omega
end SmartDrop.Webhooks
