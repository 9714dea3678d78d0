/-
# The records of the alerts and their indexes

A record, its entry in `alerts:ids` and its place in the set of its asset are written and deleted
together, so `create` and `remove` keep them in agreement.  The write-back of `evaluateForAsset` is of
the record alone: after a removal it brings the record back without the entries.  As long as every
write-back finds its record there, the three agree in every state of every run, and an alert that
has been removed stays away (`agrees_run`).
-/
import SmartDrop.Alerts.Store

namespace SmartDrop.Alerts

open Binary64 Conc Redis

variable {τ : Type} {P : Platform τ} {calls : τ → Call} {s s' : Store} {id : String}

/-! ## 1. Agreement -/

/-- The record of every alert is there exactly when the indexes have it. -/
def Agrees (s : Store) : Prop :=
  ∀ id, ((s.records id).isSome ↔ id ∈ s.ids) ∧
    ∀ key, id ∈ s.assets key ↔ ∃ alert, s.records id = some alert ∧ assetIdsKey alert.asset = key

/-- The id that a call draws. -/
def own (P : Platform τ) (i : τ) : String := alertId (P.randomUUID i)

theorem own_inj (P : Platform τ) : Function.Injective (own P) := by
  intro i j h
  exact P.uuid_inj ((String.append_right_inj "alrt_").mp h)

/-- The alert has been created as one of the calls says. -/
def Origin (P : Platform τ) (calls : τ → Call) (id : String) (alert : Alert) : Prop :=
  ∃ i data, calls i = .create data ∧ id = own P i ∧ alert.id = id ∧
    alert.asset = toUpperCase data.asset ∧ alert.repeats = (data.repeats = some true : Bool)

/-- What an alert was created with does not change. -/
theorem Origin.same {a b : Alert} (ha : Origin P calls id a) (hb : Origin P calls id b) :
    a.asset = b.asset ∧ a.repeats = b.repeats := by
  obtain ⟨i, data, hi, hid, -, hasset, hrepeats⟩ := ha
  obtain ⟨j, data', hj, hid', -, hasset', hrepeats'⟩ := hb
  obtain rfl := own_inj P (hid.symm.trans hid')
  obtain rfl : data = data' := by
    rw [hi] at hj
    exact Call.create.inj hj
  exact ⟨hasset.trans hasset'.symm, hrepeats.trans hrepeats'.symm⟩

theorem Origin.fired {a : Alert} (h : Origin P calls id a) (priceUsd : Double) (now : ℕ) :
    Origin P calls id (a.fired priceUsd now) := h

/-- Every record comes from a call. -/
structure Sound (P : Platform τ) (calls : τ → Call) (s : Store) : Prop where
  origin : ∀ id alert, s.records id = some alert → Origin P calls id alert
  created : ∀ id, (s.records id).isSome → s.created id = true

/-! ## 2. One command -/

/-- The parts of the database that the indexes are about have not changed. -/
structure Quiet (s s' : Store) : Prop where
  records : s'.records = s.records
  ids : s'.ids = s.ids
  assets : s'.assets = s.assets
  created : s'.created = s.created

theorem quiet_wait (s : Store) (elapsed : ℕ) : Quiet s (s.wait elapsed) := ⟨rfl, rfl, rfl, rfl⟩

/-- The commands that write neither a record nor an index. -/
def Op.isQuiet : Op → Bool
  | .insert .. | .delete .. | .set .. => false
  | _ => true

theorem quiet_exec {op : Op} (h : op.isQuiet) (i : τ) (price : Option Double) (s : Store) :
    Quiet s (s.exec P i price op).2 := by
  cases op with
  | insert => cases h
  | delete => cases h
  | set => cases h
  | _ => exact ⟨rfl, rfl, rfl, rfl⟩

theorem Quiet.agrees (h : Quiet s s') (ha : Agrees s) : Agrees s' := by
  intro id
  rw [h.records, h.ids, h.assets]
  exact ha id

theorem Quiet.sound (h : Quiet s s') (hs : Sound P calls s) : Sound P calls s' := by
  refine ⟨?_, ?_⟩
  · rw [h.records]
    exact hs.origin
  · rw [h.records, h.created]
    exact hs.created

/-- A command is executed, or it is not and throws; one that is executed may throw too. -/
theorem machine_cases (i : τ) (op : Op) (x : Env) (s : Store) :
    (executes op x = false ∧ (machine P).exec i op x s = (.error "command failed", s.wait x.elapsed)) ∨
    executes op x = true ∧
      ((machine P).exec i op x s).2 = ((s.wait x.elapsed).exec P i x.price op).2 ∧
      ∀ r, ((machine P).exec i op x s).1 = .ok r → r = ((s.wait x.elapsed).exec P i x.price op).1 := by
  cases hx : executes op x with
  | false =>
    refine Or.inl ⟨rfl, ?_⟩
    simp only [executes, Bool.or_eq_false_iff, decide_eq_false_iff_not, not_not] at hx
    simp [machine, executes, hx]
  | true =>
    refine Or.inr ⟨rfl, by simp [machine, hx], fun r hr => ?_⟩
    simp only [machine] at hr
    cases hb : op.isLocal || decide (x.fault = .none) with
    | true =>
      rw [hb] at hr
      exact (Except.ok.inj hr).symm
    | false =>
      rw [hb] at hr
      cases hr

theorem quiet_machine {op : Op} (h : op.isQuiet) (i : τ) (x : Env) (s : Store) :
    Quiet s ((machine P).exec i op x s).2 := by
  rcases machine_cases (P := P) i op x s with ⟨-, he⟩ | ⟨-, hs, -⟩
  · rw [he]
    exact quiet_wait s _
  · rw [hs]
    have hquiet : Quiet (s.wait x.elapsed) ((s.wait x.elapsed).exec P i x.price op).2 :=
      quiet_exec h i x.price _
    exact ⟨hquiet.records, hquiet.ids, hquiet.assets, hquiet.created⟩

section Writes

variable {i : τ} {price : Option Double} {alert : Alert} {score : ℕ} {asset : String}

theorem sound_insert (hs : Sound P calls s) (ho : Origin P calls alert.id alert) :
    Sound P calls (s.exec P i price (.insert alert score)).2 where
  origin id a ha := by
    by_cases hid : id = alert.id
    · subst hid
      obtain rfl : alert = a := by simpa [Store.exec] using ha
      exact ho
    · exact hs.origin id a (by simpa [Store.exec, hid] using ha)
  created id ha := by
    by_cases hid : id = alert.id
    · simp [Store.exec, hid]
    · have hsome : (s.records id).isSome := by simpa [Store.exec, hid] using ha
      simpa [Store.exec, hid] using hs.created id hsome

theorem sound_delete (hs : Sound P calls s) :
    Sound P calls (s.exec P i price (.delete id asset)).2 where
  origin id' a ha := by
    by_cases hid : id' = id
    · simp [Store.exec, hid] at ha
    · exact hs.origin id' a (by simpa [Store.exec, hid] using ha)
  created id' ha := by
    by_cases hid : id' = id
    · simp [Store.exec, hid] at ha
    · exact hs.created id' (by simpa [Store.exec, hid] using ha)

theorem sound_set (hs : Sound P calls s) (ho : Origin P calls id alert)
    (hc : s.created id = true) : Sound P calls (s.exec P i price (.set id alert)).2 where
  origin id' a ha := by
    by_cases hid : id' = id
    · subst hid
      obtain rfl : alert = a := by simpa [Store.exec] using ha
      exact ho
    · exact hs.origin id' a (by simpa [Store.exec, hid] using ha)
  created id' ha := by
    by_cases hid : id' = id
    · exact hid ▸ hc
    · exact hs.created id' (by simpa [Store.exec, hid] using ha)

theorem agrees_insert (ha : Agrees s) (hnone : s.records alert.id = none) :
    Agrees (s.exec P i price (.insert alert score)).2 := by
  intro id
  obtain ⟨hids, hassets⟩ := ha id
  by_cases hid : id = alert.id
  · subst hid
    refine ⟨by simp [Store.exec], fun key => ?_⟩
    have hout : alert.id ∉ s.assets key := by
      rw [hassets, hnone]
      simp
    by_cases hkey : key = assetIdsKey alert.asset
    · subst hkey
      simp [Store.exec]
    · simp [Store.exec, hkey, hout, Ne.symm hkey]
  · refine ⟨by simpa [Store.exec, hid] using hids, fun key => ?_⟩
    by_cases hkey : key = assetIdsKey alert.asset
    · subst hkey
      simpa [Store.exec, hid] using hassets (assetIdsKey alert.asset)
    · simpa [Store.exec, hid, hkey] using hassets key

theorem agrees_delete (ha : Agrees s)
    (hasset : ∀ a, s.records id = some a → a.asset = asset) :
    Agrees (s.exec P i price (.delete id asset)).2 := by
  intro id'
  obtain ⟨hids, hassets⟩ := ha id'
  by_cases hid : id' = id
  · subst hid
    refine ⟨by simp [Store.exec], fun key => ?_⟩
    by_cases hkey : key = assetIdsKey asset
    · subst hkey
      simp [Store.exec]
    · have hout : id' ∉ s.assets key := by
        rw [hassets]
        rintro ⟨a, ha, hk⟩
        rw [hasset a ha] at hk
        exact hkey hk.symm
      simp [Store.exec, hkey, hout]
  · refine ⟨by simpa [Store.exec, hid] using hids, fun key => ?_⟩
    by_cases hkey : key = assetIdsKey asset
    · subst hkey
      simpa [Store.exec, hid] using hassets (assetIdsKey asset)
    · simpa [Store.exec, hid, hkey] using hassets key

theorem agrees_set (ha : Agrees s) {a : Alert} (hrecord : s.records id = some a)
    (hasset : a.asset = alert.asset) : Agrees (s.exec P i price (.set id alert)).2 := by
  intro id'
  obtain ⟨hids, hassets⟩ := ha id'
  by_cases hid : id' = id
  · subst hid
    rw [hrecord] at hids hassets
    refine ⟨by simpa [Store.exec] using hids, fun key => ?_⟩
    simpa [Store.exec, hasset] using hassets key
  · refine ⟨by simpa [Store.exec, hid] using hids, fun key => ?_⟩
    simpa [Store.exec, hid] using hassets key

end Writes

/-! ## 3. The contract of a call -/

/-- What is known of the database between two commands. -/
structure Good (P : Platform τ) (calls : τ → Call) (s : Store) : Prop where
  sound : Sound P calls s
  agrees : Agrees s

theorem Quiet.good (h : Quiet s s') (hs : Good P calls s) : Good P calls s' :=
  ⟨h.sound hs.sound, h.agrees hs.agrees⟩

/-- What a step of the `i`-th call may do: alerts that are gone stay away, and only the call itself
creates the alert with its id. -/
structure Moves (P : Platform τ) (calls : τ → Call) (i : τ) (s s' : Store) : Prop where
  good : Good P calls s → Good P calls s'
  created : ∀ id, s.created id = true → s'.created id = true
  gone : ∀ id, s.created id = true → s.records id = none → s'.records id = none
  others : ∀ j, j ≠ i → s'.created (own P j) = s.created (own P j)

theorem Quiet.moves (h : Quiet s s') (i : τ) : Moves P calls i s s' where
  good := h.good
  created id hc := by rwa [h.created]
  gone id _ hr := by rwa [h.records]
  others j _ := by rw [h.created]

/-- A write-back that is executed finds its record there. -/
def SetFinds (op : sig.Op) (x : Env) (s : Store) : Prop :=
  match op with
  | Op.set id _ => executes op x = true → (s.records id).isSome
  | _ => True

instance (op : sig.Op) (x : Env) (s : Store) : Decidable (SetFinds op x s) := by
  unfold SetFinds
  cases op <;> infer_instance

/-- The contract of the `i`-th call. -/
def contract (P : Platform τ) (calls : τ → Call) (i : τ) : Contract sig Env Store where
  ok := SetFinds
  rely s s' := ∃ j, j ≠ i ∧ Moves P calls j s s'
  guar := Moves P calls i

theorem compatible : Pool.Compatible (contract P calls) := by
  intro i j hij s s' h
  exact ⟨i, hij.symm, h⟩

theorem stable_good (i : τ) : Stable (contract P calls i).rely (Good P calls) := by
  rintro s s' hs ⟨j, -, h⟩
  exact h.good hs

/-- The call has not created its alert yet. -/
def Fresh (P : Platform τ) (calls : τ → Call) (i : τ) (s : Store) : Prop :=
  Good P calls s ∧ s.created (own P i) = false

theorem stable_fresh (i : τ) : Stable (contract P calls i).rely (Fresh P calls i) := by
  rintro s s' ⟨hs, hc⟩ ⟨j, hj, h⟩
  exact ⟨h.good hs, by rw [h.others i hj.symm, hc]⟩

/-! ## 4. The calls -/

section Calls

variable {i : τ}

/-- A command that writes neither a record nor an index, which answers what it reads. -/
theorem satE_quiet (op : Op) (h : op.isQuiet) {A : Store → Prop} (Q : op.Ret → Prop)
    (hA : Stable (contract P calls i).rely A) (hquiet : ∀ s s', Quiet s s' → A s → A s')
    (hQ : ∀ price s, A s → Q (s.exec P i price op).1) :
    SatE (machine P) i (contract P calls i) (command op) A (fun r s => Q r ∧ A s) fun _ _ => True := by
  refine satE_command (fun r s s' hs hr => ⟨hs.1, hA hs.2 hr⟩) fun x s hs _ => ?_
  have hq : Quiet s ((machine P).exec i op x s).2 := quiet_machine h i x s
  refine ⟨hq.moves i, fun r hr => ⟨?_, hquiet _ _ hq hs⟩⟩
  rcases machine_cases (P := P) i op x s with ⟨-, he⟩ | ⟨-, -, hreply⟩
  · rw [he] at hr
    cases hr
  · rw [hreply r hr]
    exact hQ _ _ (hquiet _ _ (quiet_wait s _) hs)

/-- A command whose answer does not matter. -/
theorem satE_skip (op : Op) (h : op.isQuiet) :
    SatE (machine P) i (contract P calls i) (command op) (Good P calls) (fun _ => Good P calls)
      fun _ _ => True :=
  (satE_quiet op h (fun _ => True) (stable_good i) (fun _ _ hq => hq.good) fun _ _ _ => trivial).mono
    (fun _ h => h) (fun _ _ h => h.2) fun _ _ h => h

/-- A command that writes a record. -/
theorem satE_write {op : Op} {A : Store → Prop} (hquiet : ∀ s s', Quiet s s' → A s → A s')
    (h : ∀ price s, A s → (∀ id alert, op = .set id alert → (s.records id).isSome) →
      Moves P calls i s (s.exec P i price op).2 ∧ Good P calls (s.exec P i price op).2) :
    SatE (machine P) i (contract P calls i) (command op) A (fun _ => Good P calls)
      fun _ _ => True := by
  refine satE_command (fun _ => stable_good i) fun x s hs hok => ?_
  have hw : Quiet s (s.wait x.elapsed) := quiet_wait s _
  rcases machine_cases (P := P) i op x s with ⟨-, he⟩ | ⟨hx, hstore, -⟩
  · rw [he]
    exact ⟨hw.moves i, fun r hr => by cases hr⟩
  · rw [hstore]
    have hfinds : ∀ id alert, op = .set id alert → ((s.wait x.elapsed).records id).isSome := by
      rintro id alert rfl
      exact hok hx
    obtain ⟨hmoves, hgood⟩ := h x.price _ (hquiet _ _ hw hs) hfinds
    exact ⟨⟨fun h => hmoves.good (hw.good h), hmoves.created, hmoves.gone, hmoves.others⟩,
      fun _ _ => hgood⟩

theorem create_spec {data : CreateBody} (hi : calls i = .create data) :
    SatE (machine P) i (contract P calls i) (create data) (Fresh P calls i) (fun _ _ => True)
      fun _ _ => True := by
  have hfresh : ∀ s s', Quiet s s' → Fresh P calls i s → Fresh P calls i s' := by
    intro s s' h hs
    exact ⟨h.good hs.1, by rw [h.created, hs.2]⟩
  have hskip : ∀ op : Op, op.isQuiet → SatE (machine P) i (contract P calls i) (command op)
      (Fresh P calls i) (fun _ => Fresh P calls i) fun _ _ => True := by
    intro op h
    exact (satE_quiet op h (fun _ => True) (stable_fresh i) hfresh fun _ _ _ => trivial).mono
      (fun _ h => h) (fun _ _ h => h.2) fun _ _ h => h
  unfold create generateId
  refine SatE.bind (SatE.bind (satE_quiet .randomUUID rfl (fun r => r = P.randomUUID i)
    (stable_fresh i) hfresh fun _ _ _ => rfl) fun uuid => SatE.assume fun huuid =>
      SatE.pure (Q := fun id s => id = own P i ∧ Fresh P calls i s) fun s hs => ?_) fun id => ?_
  · exact ⟨by rw [huuid]; rfl, hs⟩
  refine SatE.assume ?_
  rintro rfl
  refine SatE.bind (Q := fun _ => Fresh P calls i) ?_ fun baseline => ?_
  · unfold baselinePrice
    split
    · exact SatE.bind (hskip (.price _) rfl) fun _ => SatE.pure fun _ h => h
    · exact SatE.pure fun _ h => h
  refine SatE.bind (hskip .now rfl) fun created_at => ?_
  refine SatE.bind (hskip .now rfl) fun score => ?_
  refine SatE.bind (satE_write hfresh ?_) fun _ => SatE.pure fun _ _ => trivial
  rintro price s ⟨hs, hc⟩ -
  have hid : (data.alert (own P i) created_at baseline).id = own P i := rfl
  have horigin : Origin P calls (own P i) (data.alert (own P i) created_at baseline) :=
    ⟨i, data, hi, rfl, rfl, rfl, rfl⟩
  have hnone : s.records (own P i) = none := by
    cases hr : s.records (own P i) with
    | none => rfl
    | some a =>
      have := hs.sound.created (own P i) (by rw [hr]; rfl)
      rw [hc] at this
      cases this
  have hgood : Good P calls
      (s.exec P i price (.insert (data.alert (own P i) created_at baseline) score)).2 :=
    ⟨sound_insert hs.sound horigin, agrees_insert hs.agrees hnone⟩
  refine ⟨⟨fun _ => hgood, fun id h => ?_, fun id h hr => ?_, fun j hj => ?_⟩, hgood⟩
  · by_cases hid : id = own P i
    · subst hid
      simp [Store.exec, CreateBody.alert]
    · simpa [Store.exec, CreateBody.alert, hid] using h
  · have hne : id ≠ own P i := by
      rintro rfl
      rw [hc] at h
      cases h
    simpa [Store.exec, CreateBody.alert, hne] using hr
  · have hne : own P j ≠ own P i := fun h => hj (own_inj P h)
    simp [Store.exec, CreateBody.alert, hne]

theorem remove_spec (id : String) :
    SatE (machine P) i (contract P calls i) (remove id) (Good P calls) (fun _ => Good P calls)
      fun _ _ => True := by
  have hgood : ∀ s s', Quiet s s' → Good P calls s → Good P calls s' := fun _ _ h => h.good
  unfold remove
  refine SatE.bind (satE_quiet (.get id) rfl
    (fun r => ∀ a, r = some a → Origin P calls id a) (stable_good i) hgood
    fun _ s hs a ha => hs.sound.origin id a ha) fun r => SatE.assume fun horigin => ?_
  cases r with
  | none => exact SatE.pure fun _ h => h
  | some existing =>
    refine SatE.bind (satE_write hgood ?_) fun _ => SatE.pure fun _ h => h
    intro price s hs _
    have hgood : Good P calls (s.exec P i price (.delete id existing.asset)).2 :=
      ⟨sound_delete hs.sound, agrees_delete hs.agrees fun a ha =>
        ((hs.sound.origin id a ha).same (horigin existing rfl)).1⟩
    refine ⟨⟨fun _ => hgood, fun _ h => h, fun id' _ hr => ?_, fun _ _ => rfl⟩, hgood⟩
    by_cases hid : id' = id
    · simp [Store.exec, hid]
    · simpa [Store.exec, hid] using hr

theorem isCooling_spec (time : Option ℕ) :
    SatE (machine P) i (contract P calls i) (isCooling time) (Good P calls) (fun _ => Good P calls)
      fun _ _ => True := by
  unfold isCooling
  cases time with
  | none => exact SatE.pure fun _ h => h
  | some time => exact SatE.bind (satE_skip .now rfl) fun _ => SatE.pure fun _ h => h

theorem onCooldown_spec (alert : Alert) :
    SatE (machine P) i (contract P calls i) (onCooldown alert) (Good P calls) (fun _ => Good P calls)
      fun _ _ => True := by
  unfold onCooldown
  split
  · exact SatE.pure fun _ h => h
  · refine SatE.bind (isCooling_spec _) fun cooling => ?_
    split
    · exact SatE.pure fun _ h => h
    · exact SatE.bind (satE_skip (.getCooldown _) rfl) fun time => isCooling_spec time

theorem fire_spec (alert : Alert) (priceUsd : Double) :
    SatE (machine P) i (contract P calls i) (fire alert priceUsd) (Good P calls)
      (fun _ => Good P calls) fun _ _ => True :=
  SatE.bind (satE_skip .now rfl) fun _ => satE_skip (.deliver ..) rfl

theorem afterFire_spec {alert : Alert} (horigin : Origin P calls id alert) (priceUsd : Double) :
    SatE (machine P) i (contract P calls i) (afterFire id alert priceUsd) (Good P calls)
      (fun _ => Good P calls) fun _ _ => True := by
  unfold afterFire
  split
  · exact SatE.bind (remove_spec id) fun _ => SatE.pure fun _ h => h
  refine SatE.bind (satE_skip .now rfl) fun now => ?_
  refine SatE.bind (satE_write (fun _ _ h => h.good) ?_) fun _ => satE_skip (.setCooldown ..) rfl
  intro price s hs hfinds
  -- the record that is written over has the asset of the one that was read
  obtain ⟨a, ha⟩ := Option.isSome_iff_exists.mp (hfinds id (alert.fired priceUsd now) rfl)
  have hasset : a.asset = (alert.fired priceUsd now).asset :=
    ((hs.sound.origin id a ha).same horigin).1
  have hgood : Good P calls (s.exec P i price (.set id (alert.fired priceUsd now))).2 :=
    ⟨sound_set hs.sound (horigin.fired priceUsd now) (hs.sound.created id (by rw [ha]; rfl)),
      agrees_set hs.agrees ha hasset⟩
  refine ⟨⟨fun _ => hgood, fun _ h => h, fun id' _ hr => ?_, fun _ _ => rfl⟩, hgood⟩
  have hne : id' ≠ id := by
    rintro rfl
    rw [ha] at hr
    cases hr
  simpa [Store.exec, hne] using hr

theorem evaluate_spec (asset : String) (priceUsd : Double) (id : String) :
    SatE (machine P) i (contract P calls i) (evaluate asset priceUsd id) (Good P calls)
      (fun _ => Good P calls) fun _ _ => True := by
  unfold evaluate
  refine SatE.bind (satE_quiet (.get id) rfl
    (fun r => ∀ a, r = some a → Origin P calls id a) (stable_good i) (fun _ _ h => h.good)
    fun _ s hs a ha => hs.sound.origin id a ha) fun r => SatE.assume fun horigin => ?_
  cases r with
  | none => exact SatE.pure fun _ h => h
  | some alert =>
    dsimp only
    split
    · exact SatE.pure fun _ h => h
    split
    · exact SatE.pure fun _ h => h
    refine SatE.bind (onCooldown_spec alert) fun cooling => ?_
    split
    · exact SatE.pure fun _ h => h
    · exact SatE.bind (fire_spec alert priceUsd) fun _ => afterFire_spec (horigin alert rfl) priceUsd

theorem evaluateEach_spec (asset : String) (priceUsd : Double) (ids : List String) :
    SatE (machine P) i (contract P calls i) (evaluateEach asset priceUsd ids) (Good P calls)
      (fun _ => Good P calls) fun _ _ => True := by
  induction ids with
  | nil => exact SatE.pure fun _ h => h
  | cons id ids ih => exact SatE.bind (evaluate_spec asset priceUsd id) fun _ => ih

theorem call_spec (i : τ) :
    SatE (machine P) i (contract P calls i) (calls i).code (Fresh P calls i) (fun _ _ => True)
      fun _ _ => True := by
  cases hi : calls i with
  | create data => exact SatE.bind (create_spec hi) fun _ => SatE.pure fun _ _ => trivial
  | remove id =>
    exact (remove_spec id).mono (fun _ h => h.1) (fun _ _ _ => trivial) fun _ _ h => h
  | evaluateForAsset asset priceUsd =>
    refine SatE.bind (Q := fun _ _ => True) ?_ fun _ => SatE.pure fun _ _ => trivial
    refine SatE.tryCatch (E := fun _ _ => True) ?_ fun _ => SatE.pure fun _ _ => trivial
    refine (SatE.bind (satE_skip (.smembers _) rfl) fun ids =>
      evaluateEach_spec asset priceUsd ids).mono (fun _ h => h.1) (fun _ _ _ => trivial) fun _ _ h => h

end Calls

/-! ## 5. Every interleaving -/

theorem good_init : Good P calls .init where
  sound := ⟨nofun, nofun⟩
  agrees := by simp [Agrees, Store.init, ← Redis.ZSet.mem_zrange, ZSet.zrange, ZSet.empty]

theorem safe_start (P : Platform τ) (calls : τ → Call) :
    (start calls).Safe (machine P) (contract P calls) fun _ _ _ => True := by
  intro i
  refine ⟨Fresh P calls i, stable_fresh i, ⟨good_init, rfl⟩, Sat.mono (call_spec i) (fun _ h => h) ?_⟩
  exact fun _ _ _ => trivial

/-- **Records and indexes agree** in every state of a run whose write-backs all find their records,
whatever calls are made in whatever threads and with whatever failures; and an alert that has been
removed does not come back. -/
theorem agrees_run [DecidableEq τ] {ls : List (τ × Env)}
    (h : Along (Pool.step (machine P)) (Pool.Issues SetFinds) (start calls) ls) (l₁ l₂ l₃ : List (τ × Env))
    (hls : ls = l₁ ++ l₂ ++ l₃) :
    let s₁ := (run (Pool.step (machine P)) (start calls) l₁).store
    let s₂ := (run (Pool.step (machine P)) (start calls) (l₁ ++ l₂)).store
    Agrees s₁ ∧ ∀ id, s₁.created id = true → s₁.records id = none → s₂.records id = none := by
  intro s₁ s₂
  rw [hls, along_append, along_append] at h
  obtain ⟨⟨h₁, h₂⟩, -⟩ := h
  have hsafe := (safe_start P calls).run compatible h₁
  refine ⟨?_, fun id hcreated hgone => ?_⟩
  · have hkeep : ∀ i, Stable (contract P calls i).guar (Good P calls) :=
      fun i s s' hs hm => Moves.good hm hs
    exact ((safe_start P calls).run_stable hkeep compatible good_init h₁).agrees
  · have hkeep : ∀ i, Stable (contract P calls i).guar
        fun s => s.created id = true ∧ s.records id = none :=
      fun i s s' hs hm => ⟨Moves.created hm id hs.1, Moves.gone hm id hs.1 hs.2⟩
    have hstays := hsafe.run_stable hkeep compatible ⟨hcreated, hgone⟩ h₂
    rw [← run_append] at hstays
    exact hstays.2

theorem sampleUUID_inj : Function.Injective fun n => String.ofList (List.replicate n '0') :=
  JsText.repeat_inj '0' 0

/-- UUIDs that are never the same twice. -/
def samplePlatform : Platform ℕ where
  randomUUID n := String.ofList (List.replicate n '0')
  uuid_inj := sampleUUID_inj

/-- An alert is created, evaluated and removed, each by one call. -/
def sampleCalls (repeats : Bool) : ℕ → Call
  | 0 => .create ⟨"XLM", .above, Double.ofNat 10 Double.nearest_ten, "http://a", "12345678",
      some repeats, none⟩
  | 1 => .evaluateForAsset "XLM" (Double.ofNat 20 Double.nearest_twenty)
  | 2 => .evaluateForAsset "XLM" (Double.ofNat 20 Double.nearest_twenty)
  | _ => .remove "alrt_"

/-- So many steps of a call, without failures. -/
def steps (i n : ℕ) : List (ℕ × Env) := List.replicate n (i, {})

/-- A pass that is not interfered with writes the alert back where it is. -/
theorem agrees_run_sample :
    Agrees (run (Pool.step (machine samplePlatform)) (start (sampleCalls true))
      (steps 0 4 ++ steps 1 8)).store := by
  have hfinds : Along (Pool.step (machine samplePlatform)) (Pool.Issues SetFinds)
      (start (sampleCalls true)) (steps 0 4 ++ steps 1 8) := by decide +kernel
  exact (agrees_run hfinds (steps 0 4 ++ steps 1 8) [] [] (by simp)).1

/-- A pass delivers the alert, the alert is removed, and the pass writes it back: every call has
returned, and the record is there without its entries. -/
theorem removed_alert_returns :
    let s := run (Pool.step (machine samplePlatform)) (start (sampleCalls true))
      (steps 0 4 ++ steps 1 6 ++ steps 3 2 ++ steps 1 2)
    (∀ i < 4, i ≠ 2 → (s.prog i).result?.isSome) ∧ ¬ Agrees s.store := by
  refine ⟨by decide +kernel, fun h => ?_⟩
  have hids := (h "alrt_").1
  revert hids
  decide +kernel

end SmartDrop.Alerts
