/-
# How often an alert is delivered

A pass reads an alert, delivers it, and only then removes it or writes back when it was delivered.
Nothing keeps two passes apart: a pass that has read the alert before another one has written delivers
it too.  A record beside the run (`Trace`) counts, for each alert, the deliveries and those of them
that have been written.  As long as a pass delivers only what it has read after all deliveries had
been written, an alert that does not repeat is delivered at most once, and one that repeats at most
once in any span of `COOLDOWN_MS` (`fires_once_run`).
-/
import SmartDrop.Alerts.Agreement

namespace SmartDrop.Alerts.Firing

open Binary64 Conc Redis

variable {τ : Type}

/-! ## 1. The record -/

/-- Of each alert: how many deliveries there have been, how many of them have been written, and the
call that has delivered it and not written yet.  Of each call: how many deliveries had been written
when it last read an alert. -/
structure Trace (τ : Type) where
  made : String → ℕ
  written : String → ℕ
  owner : String → Option τ
  seen : τ → ℕ

/-- Nothing has been delivered. -/
def Trace.init : Trace τ := ⟨fun _ => 0, fun _ => 0, fun _ => none, fun _ => 0⟩

/-- A removal or a write-back by the call that has delivered. -/
def Trace.write [DecidableEq τ] (t : Trace τ) (i : τ) (id : String) : Trace τ :=
  if t.owner id = some i then
    { t with
      written := Function.update t.written id (t.written id + 1)
      owner := Function.update t.owner id none }
  else t

/-- What is recorded of a step. -/
def note [DecidableEq τ] (i : τ) (op : sig.Op) (x : Env) (_ : Store) (t : Trace τ) : Trace τ :=
  match op with
  | Op.get id => { t with seen := Function.update t.seen i (t.written id) }
  | Op.deliver _ _ payload =>
    if x.fault = .before then t
    else { t with
      made := Function.update t.made payload.alert_id (t.made payload.alert_id + 1)
      owner := Function.update t.owner payload.alert_id (some i) }
  | Op.delete id _ => if x.fault = .before then t else t.write i id
  | Op.set id _ => if x.fault = .before then t else t.write i id
  | _ => t

/-- The database and the record. -/
abbrev World (τ : Type) := Store × Trace τ

/-- Redis and the endpoints, and what is recorded. -/
def observed [DecidableEq τ] (P : Platform τ) : Machine sig τ Env (World τ) := (machine P).observe note

/-- Every thread is about to make its call. -/
def begin (calls : τ → Call) : Pool sig (Except Err (Option Alert)) τ (World τ) :=
  ⟨(.init, .init), fun i => (calls i).code.prog⟩

/-- A delivery that is executed is of what the call has read after all deliveries of the alert had
been written. -/
def ReadLate (i : τ) (op : sig.Op) (x : Env) (w : World τ) : Prop :=
  match op with
  | Op.deliver _ _ payload => x.fault ≠ .before → w.2.seen i = w.2.made payload.alert_id
  | _ => True

instance (i : τ) (op : sig.Op) (x : Env) (w : World τ) : Decidable (ReadLate i op x w) :=
  match op with
  | Op.deliver .. => inferInstanceAs (Decidable (_ → _))
  | Op.now | Op.randomUUID | Op.price _ | Op.insert .. | Op.get _ | Op.delete .. | Op.smembers _
  | Op.getCooldown _ | Op.set .. | Op.setCooldown .. => inferInstanceAs (Decidable True)

/-! ## 2. What is known -/

variable {P : Platform τ} {calls : τ → Call} {w w' : World τ} {id : String} {i : τ} {alert : Alert}

/-- A call has created the alert as one that repeats. -/
def Repeats (P : Platform τ) (calls : τ → Call) (id : String) : Prop :=
  ∃ i data, calls i = .create data ∧ id = own P i ∧ data.repeats = some true

theorem repeats_of_origin (h : Origin P calls id alert) (hr : alert.repeats = true) :
    Repeats P calls id := by
  obtain ⟨i, data, hi, hid, -, -, hrepeats⟩ := h
  rw [hrepeats] at hr
  exact ⟨i, data, hi, hid, of_decide_eq_true hr⟩

/-- Two deliveries are of different alerts, or of one that repeats and far enough apart. -/
def Apart (P : Platform τ) (calls : τ → Call) (later earlier : Delivery) : Prop :=
  later.payload.alert_id = earlier.payload.alert_id →
    Repeats P calls later.payload.alert_id ∧ earlier.time + COOLDOWN_MS ≤ later.time

/-- The deliveries of an alert. -/
def Of (s : Store) (id : String) (d : Delivery) : Prop :=
  d ∈ s.deliveries ∧ d.payload.alert_id = id

/-- What is known of the database and the record between two commands. -/
structure Orderly (P : Platform τ) (calls : τ → Call) (w : World τ) : Prop where
  sound : Sound P calls w.1
  counts : ∀ id, w.2.owner id = none ∧ w.2.written id = w.2.made id ∨
    w.2.owner id ≠ none ∧ w.2.written id + 1 = w.2.made id
  past : ∀ d ∈ w.1.deliveries, d.time ≤ w.1.now
  created : ∀ d ∈ w.1.deliveries, w.1.created d.payload.alert_id = true
  settled : ∀ id, w.2.owner id = none → ∀ d, Of w.1 id d → ∀ a, w.1.records id = some a →
    a.repeats = true ∧ ∃ t, a.last_fired_at = some t ∧ d.time ≤ t
  apart : w.1.deliveries.Pairwise (Apart P calls)

/-- What a step of the `i`-th call may do. -/
structure Moves (P : Platform τ) (calls : τ → Call) (i : τ) (w w' : World τ) : Prop where
  orderly : Orderly P calls w → Orderly P calls w'
  created : ∀ id, w.1.created id = true → w'.1.created id = true
  others : ∀ j, j ≠ i → w'.1.created (own P j) = w.1.created (own P j)
  clock : w.1.now ≤ w'.1.now
  seen : ∀ j, j ≠ i → w'.2.seen j = w.2.seen j
  made : ∀ id, w.2.made id ≤ w'.2.made id
  written : ∀ id, w.2.written id ≤ w'.2.written id
  deliveries : ∀ id, w'.2.made id = w.2.made id → ∀ d, Of w'.1 id d → Of w.1 id d
  owned : ∀ id j, j ≠ i → w.2.owner id = some j →
    w'.2.owner id = some j ∧ w'.2.made id = w.2.made id

/-- A step that writes nothing, but for what the call has seen. -/
structure Calm (i : τ) (w w' : World τ) : Prop where
  quiet : Quiet w.1 w'.1
  deliveries : w'.1.deliveries = w.1.deliveries
  clock : w.1.now ≤ w'.1.now
  made : w'.2.made = w.2.made
  written : w'.2.written = w.2.written
  owner : w'.2.owner = w.2.owner
  seen : ∀ j, j ≠ i → w'.2.seen j = w.2.seen j

theorem Calm.of_iff (h : Calm i w w') {d : Delivery} : Of w'.1 id d ↔ Of w.1 id d := by
  rw [Of, Of, h.deliveries]

theorem Calm.orderly (h : Calm i w w') (ho : Orderly P calls w) : Orderly P calls w' where
  sound := h.quiet.sound ho.sound
  counts := by
    rw [h.owner, h.written, h.made]
    exact ho.counts
  past d hd := (ho.past d (h.deliveries ▸ hd)).trans h.clock
  created d hd := by
    rw [h.quiet.created]
    exact ho.created d (h.deliveries ▸ hd)
  settled id hid d hd a ha := by
    rw [h.owner] at hid
    rw [h.quiet.records] at ha
    exact ho.settled id hid d (h.of_iff.mp hd) a ha
  apart := by
    rw [h.deliveries]
    exact ho.apart

theorem Calm.moves (h : Calm i w w') : Moves P calls i w w' where
  orderly := h.orderly
  created id hc := by rwa [h.quiet.created]
  others j _ := by rw [h.quiet.created]
  clock := h.clock
  seen := h.seen
  made id := by rw [h.made]
  written id := by rw [h.written]
  deliveries id _ d hd := h.of_iff.mp hd
  owned id j _ hj := ⟨by rw [h.owner, hj], by rw [h.made]⟩

/-- The contract of the `i`-th call. -/
def contract (P : Platform τ) (calls : τ → Call) (i : τ) : Contract sig Env (World τ) where
  ok := ReadLate i
  rely w w' := ∃ j, j ≠ i ∧ Moves P calls j w w'
  guar := Moves P calls i

theorem compatible : Pool.Compatible (contract P calls) := by
  intro i j hij s s' h
  exact ⟨i, hij.symm, h⟩

theorem stable_orderly (i : τ) : Stable (contract P calls i).rely (Orderly P calls) := by
  rintro w w' hw ⟨j, -, h⟩
  exact h.orderly hw

/-- The call has not created its alert yet. -/
structure Fresh (P : Platform τ) (calls : τ → Call) (i : τ) (w : World τ) : Prop where
  orderly : Orderly P calls w
  fresh : w.1.created (own P i) = false

theorem stable_fresh (i : τ) : Stable (contract P calls i).rely (Fresh P calls i) := by
  rintro w w' hw ⟨j, hj, h⟩
  exact ⟨h.orderly hw.orderly, by rw [h.others i hj.symm, hw.fresh]⟩

/-- The call has read the alert, and `φ` holds of its deliveries unless there has been another. -/
structure Reading (P : Platform τ) (calls : τ → Call) (i : τ) (id : String) (alert : Alert)
    (φ : ℕ → Delivery → Prop) (w : World τ) : Prop where
  orderly : Orderly P calls w
  origin : Origin P calls id alert
  created : w.1.created id = true
  seen : w.2.seen i ≤ w.2.written id
  latest : w.2.seen i = w.2.made id → ∀ d, Of w.1 id d → φ w.1.now d

/-- What is made true by time stays true. -/
def Lasting (φ : ℕ → Delivery → Prop) : Prop := ∀ ⦃n n' d⦄, n ≤ n' → φ n d → φ n' d

theorem Orderly.written_le (h : Orderly P calls w) (id : String) : w.2.written id ≤ w.2.made id := by
  rcases h.counts id with ⟨-, h⟩ | ⟨-, h⟩ <;> omega

theorem stable_reading (i : τ) {φ : ℕ → Delivery → Prop} (hφ : Lasting φ) :
    Stable (contract P calls i).rely (Reading P calls i id alert φ) := by
  rintro w w' hw ⟨j, hj, h⟩
  have hseen : w'.2.seen i = w.2.seen i := h.seen i hj.symm
  refine ⟨h.orderly hw.orderly, hw.origin, h.created id hw.created, ?_, fun heq d hd => ?_⟩
  · rw [hseen]
    exact hw.seen.trans (h.written id)
  · -- nothing has been delivered since, so that the deliveries are those from before
    have hsame : w'.2.made id = w.2.made id := by
      have hle := hw.seen
      have hwritten := hw.orderly.written_le id
      have hmade := h.made id
      omega
    refine hφ h.clock (hw.latest ?_ d (h.deliveries id hsame d hd))
    omega

theorem calm_reading {φ : ℕ → Delivery → Prop} (hφ : Lasting φ) (h : Calm i w w')
    (ht : w'.2 = w.2) (hw : Reading P calls i id alert φ w) : Reading P calls i id alert φ w' where
  orderly := h.orderly hw.orderly
  origin := hw.origin
  created := by rw [h.quiet.created, hw.created]
  seen := by rw [ht]; exact hw.seen
  latest heq d hd := hφ h.clock (hw.latest (ht ▸ heq) d (h.of_iff.mp hd))

/-- What a pass knows of the deliveries of an alert that it has read. -/
def KnownBy (alert : Alert) (_ : ℕ) (d : Delivery) : Prop :=
  alert.repeats = true ∧ ∃ t, alert.last_fired_at = some t ∧ d.time ≤ t

/-- What it knows once the cooldown has been checked. -/
def Cooled (alert : Alert) (now : ℕ) (d : Delivery) : Prop :=
  alert.repeats = true ∧ d.time + COOLDOWN_MS ≤ now

theorem lasting_cooled (alert : Alert) : Lasting (Cooled alert) := by
  rintro n n' d hle ⟨hr, h⟩
  exact ⟨hr, h.trans hle⟩

/-- The call has delivered the alert and has not written yet; its deliveries are from before `n`. -/
structure Owning (P : Platform τ) (calls : τ → Call) (i : τ) (id : String) (alert : Alert) (n : ℕ)
    (w : World τ) : Prop where
  orderly : Orderly P calls w
  origin : Origin P calls id alert
  created : w.1.created id = true
  owner : w.2.owner id = some i
  past : ∀ d, Of w.1 id d → d.time ≤ n

theorem stable_owning (i : τ) (n : ℕ) :
    Stable (contract P calls i).rely (Owning P calls i id alert n) := by
  rintro w w' hw ⟨j, hj, h⟩
  obtain ⟨howner, hmade⟩ := h.owned id i hj.symm hw.owner
  exact ⟨h.orderly hw.orderly, hw.origin, h.created id hw.created, howner,
    fun d hd => hw.past d (h.deliveries id hmade d hd)⟩

/-! ## 3. One command -/

section Commands

variable [DecidableEq τ]

/-- The commands that neither deliver nor write an alert. -/
def isCalm : Op → Bool
  | .insert .. | .delete .. | .set .. | .deliver .. => false
  | _ => true

/-- What a step leaves. -/
def after (P : Platform τ) (i : τ) (op : Op) (x : Env) (w : World τ) : World τ :=
  ((observed P).exec i op x w).2

theorem after_of_executes {op : Op} {x : Env} (hx : executes op x = true) :
    after P i op x w = (((w.1.wait x.elapsed).exec P i x.price op).2, note i op x w.1 w.2) := by
  simp [after, observed, Machine.observe, machine, hx]

/-- A command that is not executed changes nothing. -/
theorem calm_of_not_executes {op : Op} {x : Env} (hx : executes op x = false) :
    Calm i w (after P i op x w) := by
  have hfault : x.fault = .before := by
    simp only [executes, Bool.or_eq_false_iff, decide_eq_false_iff_not, not_not] at hx
    exact hx.2
  have hstore : (after P i op x w).1 = w.1.wait x.elapsed := by
    simp [after, observed, Machine.observe, machine, hx]
  have htrace : (after P i op x w).2 = note i op x w.1 w.2 := rfl
  have hcalm : ∀ t : Trace τ, t.made = w.2.made → t.written = w.2.written → t.owner = w.2.owner →
      (∀ j, j ≠ i → t.seen j = w.2.seen j) → (after P i op x w).2 = t → Calm i w (after P i op x w) := by
    intro t hmade hwritten howner hseen ht
    refine ⟨?_, ?_, ?_, ht ▸ hmade, ht ▸ hwritten, ht ▸ howner, ht ▸ hseen⟩
    · rw [hstore]
      exact quiet_wait _ _
    · rw [hstore]
      rfl
    · rw [hstore]
      exact Nat.le_add_right _ _
  cases op with
  | get id =>
    exact hcalm (note i (.get id) x w.1 w.2) rfl rfl rfl (fun j hj => Function.update_of_ne hj ..) htrace
  | _ => exact hcalm w.2 rfl rfl rfl (fun _ _ => rfl) (by rw [htrace]; simp [note, hfault])

theorem calm_of_isCalm {op : Op} (hop : isCalm op) (x : Env) : Calm i w (after P i op x w) := by
  cases hx : executes op x with
  | false => exact calm_of_not_executes hx
  | true =>
    rw [after_of_executes hx]
    have hclock : w.1.now ≤ (w.1.wait x.elapsed).now := Nat.le_add_right _ _
    cases op with
    | insert => cases hop
    | delete => cases hop
    | set => cases hop
    | deliver => cases hop
    | get id =>
      exact ⟨⟨rfl, rfl, rfl, rfl⟩, rfl, hclock, rfl, rfl, rfl, fun j hj => Function.update_of_ne hj ..⟩
    | _ => exact ⟨⟨rfl, rfl, rfl, rfl⟩, rfl, hclock, rfl, rfl, rfl, fun _ _ => rfl⟩

/-- What a command that has not thrown has answered. -/
theorem reply_eq {op : Op} {x : Env} {r : op.Ret} (h : ((observed P).exec i op x w).1 = .ok r) :
    executes op x = true ∧ r = ((w.1.wait x.elapsed).exec P i x.price op).1 := by
  rcases machine_cases (P := P) i op x w.1 with ⟨-, he⟩ | ⟨hx, -, hreply⟩
  · have herror : ((observed P).exec i op x w).1 = .error "command failed" := by
      change ((machine P).exec i op x w.1).1 = _
      rw [he]
    rw [herror] at h
    cases h
  · exact ⟨hx, hreply r h⟩

/-- A command that neither delivers nor writes. -/
theorem satE_calm (op : Op) (hop : isCalm op) {A : World τ → Prop} {B : op.Ret → World τ → Prop}
    (hB : ∀ r, Stable (contract P calls i).rely (B r))
    (h : ∀ x w, A w → Calm i w (after P i op x w) → executes op x = true →
      B ((w.1.wait x.elapsed).exec P i x.price op).1 (after P i op x w)) :
    SatE (observed P) i (contract P calls i) (command op) A B fun _ _ => True := by
  refine satE_command hB fun x w hw _ => ?_
  have hcalm : Calm i w (after P i op x w) := calm_of_isCalm hop x
  refine ⟨hcalm.moves, fun r hr => ?_⟩
  obtain ⟨hx, rfl⟩ := reply_eq hr
  exact h x w hw hcalm hx

/-- A command whose answer does not matter. -/
theorem satE_skip (op : Op) (hop : isCalm op) :
    SatE (observed P) i (contract P calls i) (command op) (Orderly P calls) (fun _ => Orderly P calls)
      fun _ _ => True :=
  satE_calm op hop (fun _ => stable_orderly i) fun _ _ hw hcalm _ => hcalm.orderly hw

/-- The clock is read. -/
theorem satE_now {A : World τ → Prop} {B : ℕ → World τ → Prop}
    (hA : ∀ w w', Calm i w w' → w'.2 = w.2 → A w → A w')
    (hB : ∀ n, Stable (contract P calls i).rely (B n)) (h : ∀ w, A w → B w.1.now w) :
    SatE (observed P) i (contract P calls i) (command .now) A B fun _ _ => True :=
  satE_calm .now rfl hB fun _ _ hw hcalm _ => h _ (hA _ _ hcalm rfl hw)

/-- An alert is read. -/
theorem satE_get (id : String) :
    SatE (observed P) i (contract P calls i) (command (.get id)) (Orderly P calls)
      (fun r w => match r with
        | none => Orderly P calls w
        | some alert => Reading P calls i id alert (KnownBy alert) w)
      fun _ _ => True := by
  refine satE_calm (.get id) rfl (fun r => ?_) fun x w hw hcalm hx => ?_
  · cases r with
    | none => exact stable_orderly i
    | some alert => exact stable_reading i fun _ _ _ _ h => h
  have hafter := hcalm.orderly hw
  have hread : ((w.1.wait x.elapsed).exec P i x.price (.get id)).1 = w.1.records id := rfl
  rw [hread]
  cases hr : w.1.records id with
  | none => exact hafter
  | some alert =>
    have hseen : (after P i (.get id) x w).2.seen i = w.2.written id := Function.update_self ..
    refine ⟨hafter, hw.sound.origin id alert hr, ?_, ?_, fun heq d hd => ?_⟩
    · rw [hcalm.quiet.created]
      exact hw.sound.created id (by rw [hr]; rfl)
    · rw [hseen, hcalm.written]
    · -- everything that has been delivered had been written when the alert was read
      rw [hseen, hcalm.made] at heq
      have howner : w.2.owner id = none := by
        rcases hw.counts id with ⟨h, -⟩ | ⟨-, h⟩
        · exact h
        · omega
      exact hw.settled id howner d (hcalm.of_iff.mp hd) alert hr

/-- A command that writes: what has to be shown is about a step that is executed. -/
theorem satE_write {op : Op} {A B : World τ → Prop}
    (hB : Stable (contract P calls i).rely B)
    (h : ∀ x w, A w → ReadLate i op x w → executes op x = true →
      Moves P calls i w (after P i op x w) ∧ B (after P i op x w)) :
    SatE (observed P) i (contract P calls i) (command op) A (fun _ => B) fun _ _ => True := by
  refine satE_command (fun _ => hB) fun x w hw hok => ?_
  cases hx : executes op x with
  | false =>
    refine ⟨(calm_of_not_executes hx).moves, fun r hr => ?_⟩
    have := (reply_eq (P := P) hr).1
    rw [hx] at this
    cases this
  | true =>
    obtain ⟨hmoves, hb⟩ := h x w hw hok hx
    exact ⟨hmoves, fun _ _ => hb⟩

theorem fault_of_executes {op : Op} {x : Env} (hlocal : op.isLocal = false)
    (hx : executes op x = true) : x.fault ≠ .before := by
  simpa [executes, hlocal] using hx

/-- The alert is delivered. -/
theorem satE_deliver {webhook_url webhook_secret : String} {payload : Payload}
    (hid : payload.alert_id = id) :
    SatE (observed P) i (contract P calls i) (command (.deliver webhook_url webhook_secret payload))
      (Reading P calls i id alert (Cooled alert))
      (fun _ w => ∃ n, Owning P calls i id alert n w) fun _ _ => True := by
  refine satE_write ?_ fun x w hw hok hx => ?_
  · rintro w w' ⟨n, hn⟩ hr
    exact ⟨n, stable_owning i n hn hr⟩
  have hfault : x.fault ≠ .before := fault_of_executes rfl hx
  have hlate : w.2.seen i = w.2.made id := hid ▸ hok hfault
  -- what has been delivered has been written, and none of it is too recent
  have hall : w.2.written id = w.2.made id := by
    have hle := hw.orderly.written_le id
    have hseen := hw.seen
    omega
  have hnone : w.2.owner id = none := by
    rcases hw.orderly.counts id with ⟨h, -⟩ | ⟨-, h⟩
    · exact h
    · omega
  have hlatest := hw.latest hlate
  have hclock : w.1.now ≤ w.1.now + x.elapsed := Nat.le_add_right _ _
  have hafter : after P i (.deliver webhook_url webhook_secret payload) x w =
      ({ w.1.wait x.elapsed with
          deliveries := ⟨webhook_url, payload, w.1.now + x.elapsed⟩ :: w.1.deliveries },
        { w.2 with
          made := Function.update w.2.made id (w.2.made id + 1)
          owner := Function.update w.2.owner id (some i) }) := by
    rw [after_of_executes hx]
    simp only [note, hfault, if_false, hid]
    rfl
  rw [hafter]
  have horderly : Orderly P calls ({ w.1.wait x.elapsed with
      deliveries := ⟨webhook_url, payload, w.1.now + x.elapsed⟩ :: w.1.deliveries },
    { w.2 with
      made := Function.update w.2.made id (w.2.made id + 1)
      owner := Function.update w.2.owner id (some i) }) := by
    have hsound := hw.orderly.sound
    refine ⟨⟨hsound.origin, hsound.created⟩, fun id' => ?_, ?_, ?_, ?_, ?_⟩
    · by_cases h : id' = id
      · subst h
        simp [hall]
      · simpa [h] using hw.orderly.counts id'
    · intro d hd
      rcases List.mem_cons.mp hd with rfl | hd
      · exact le_rfl
      · exact (hw.orderly.past d hd).trans hclock
    · intro d hd
      rcases List.mem_cons.mp hd with rfl | hd
      · exact hid ▸ hw.created
      · exact hw.orderly.created d hd
    · intro id' howner d hd a ha
      have hne : id' ≠ id := by
        rintro rfl
        simp at howner
      have hold : Of w.1 id' d := by
        refine ⟨(List.mem_cons.mp hd.1).resolve_left ?_, hd.2⟩
        rintro rfl
        exact hne (hd.2.symm.trans hid)
      exact hw.orderly.settled id' (by simpa [hne] using howner) d hold a ha
    · refine List.pairwise_cons.mpr ⟨fun d hd hsame => ?_, hw.orderly.apart⟩
      have hof : Of w.1 id d := ⟨hd, hsame.symm.trans hid⟩
      obtain ⟨hrepeats, htime⟩ := hlatest d hof
      exact ⟨hid ▸ repeats_of_origin hw.origin hrepeats, htime.trans hclock⟩
  refine ⟨⟨fun _ => horderly, fun _ h => h, fun _ _ => rfl, hclock, fun _ _ => rfl, fun id' => ?_,
    fun _ => le_rfl, fun id' hmade d hd => ?_, fun id' j hj howner => ?_⟩, w.1.now + x.elapsed,
    horderly, hw.origin, hw.created, Function.update_self .., fun d hd => horderly.past d hd.1⟩
  · by_cases h : id' = id
    · subst h
      simp
    · simp [h]
  · have hne : id' ≠ id := by
      rintro rfl
      simp at hmade
    refine ⟨(List.mem_cons.mp hd.1).resolve_left ?_, hd.2⟩
    rintro rfl
    exact hne (hd.2.symm.trans hid)
  · have hne : id' ≠ id := by
      rintro rfl
      rw [hnone] at howner
      cases howner
    simp [hne, howner]

section Write

variable {t : Trace τ}

@[simp] theorem write_made (t : Trace τ) (i : τ) (id : String) : (t.write i id).made = t.made := by
  unfold Trace.write
  split <;> rfl

@[simp] theorem write_seen (t : Trace τ) (i : τ) (id : String) : (t.write i id).seen = t.seen := by
  unfold Trace.write
  split <;> rfl

theorem write_written_le (t : Trace τ) (i : τ) (id id' : String) :
    t.written id' ≤ (t.write i id).written id' := by
  unfold Trace.write
  split
  · by_cases h : id' = id
    · subst h
      simp
    · simp [h]
  · exact le_rfl

/-- A write ends what the call owns, and nothing else. -/
theorem write_owner_of_ne {id' : String} {j : τ} (hj : j ≠ i) (h : t.owner id' = some j) :
    (t.write i id).owner id' = some j := by
  unfold Trace.write
  split
  · rename_i howner
    have hne : id' ≠ id := by
      rintro rfl
      rw [howner] at h
      exact hj (Option.some.inj h).symm
    simp [hne, h]
  · exact h

theorem owner_of_write {id' : String} (h : (t.write i id).owner id' = none) :
    t.owner id' = none ∨ id' = id ∧ t.owner id = some i := by
  unfold Trace.write at h
  split at h
  · rename_i howner
    by_cases hid : id' = id
    · exact Or.inr ⟨hid, howner⟩
    · exact Or.inl (by simpa [hid] using h)
  · exact Or.inl h

theorem write_counts (h : ∀ id, t.owner id = none ∧ t.written id = t.made id ∨
      t.owner id ≠ none ∧ t.written id + 1 = t.made id) (id' : String) :
    (t.write i id).owner id' = none ∧ (t.write i id).written id' = (t.write i id).made id' ∨
      (t.write i id).owner id' ≠ none ∧ (t.write i id).written id' + 1 = (t.write i id).made id' := by
  unfold Trace.write
  split
  · rename_i howner
    by_cases hid : id' = id
    · subst hid
      have hcount := h id'
      simp only [howner, reduceCtorEq, false_and, false_or, ne_eq, not_false_eq_true, true_and] at hcount
      simp [hcount]
    · simpa [hid] using h id'
  · exact h id'

end Write

/-- A record is written or deleted: what it says of the deliveries is all that matters. -/
theorem moves_write {s : Store} (elapsed : ℕ) (hw : Orderly P calls w)
    (hsound : Sound P calls s) (hcreated : s.created = w.1.created)
    (hdeliveries : s.deliveries = w.1.deliveries) (hnow : s.now = w.1.now + elapsed)
    (hothers : ∀ id', id' ≠ id → s.records id' = w.1.records id')
    (hrecord : (w.2.write i id).owner id = none → ∀ d, Of w.1 id d → ∀ a, s.records id = some a →
      a.repeats = true ∧ ∃ t, a.last_fired_at = some t ∧ d.time ≤ t) :
    Moves P calls i w (s, w.2.write i id) ∧ Orderly P calls (s, w.2.write i id) := by
  have hof : ∀ id' d, Of s id' d ↔ Of w.1 id' d := fun id' d => by rw [Of, Of, hdeliveries]
  have hclock : w.1.now ≤ s.now := hnow ▸ Nat.le_add_right _ _
  have horderly : Orderly P calls (s, w.2.write i id) := by
    refine ⟨hsound, write_counts hw.counts, ?_, ?_, ?_, ?_⟩
    · intro d hd
      exact (hw.past d (hdeliveries ▸ hd)).trans hclock
    · intro d hd
      exact hcreated ▸ hw.created d (hdeliveries ▸ hd)
    · intro id' howner d hd a ha
      by_cases hid : id' = id
      · subst hid
        exact hrecord howner d ((hof _ d).mp hd) a ha
      · have hold : w.2.owner id' = none := (owner_of_write howner).resolve_right fun h => hid h.1
        exact hw.settled id' hold d ((hof id' d).mp hd) a (hothers id' hid ▸ ha)
    · exact hdeliveries ▸ hw.apart
  refine ⟨⟨fun _ => horderly, fun _ h => by rwa [hcreated], fun _ _ => by rw [hcreated], hclock,
    fun _ _ => by rw [write_seen], fun _ => by rw [write_made], write_written_le w.2 i id,
    fun id' _ d hd => (hof id' d).mp hd, fun id' j hj howner => ?_⟩, horderly⟩
  exact ⟨write_owner_of_ne hj howner, by rw [write_made]⟩

/-- The alert is deleted. -/
theorem satE_delete (id asset : String) :
    SatE (observed P) i (contract P calls i) (command (.delete id asset)) (Orderly P calls)
      (fun _ => Orderly P calls) fun _ _ => True := by
  refine satE_write (stable_orderly i) fun x w hw _ hx => ?_
  have hfault : x.fault ≠ .before := fault_of_executes rfl hx
  rw [after_of_executes hx]
  simp only [note, hfault, if_false]
  refine moves_write x.elapsed hw (sound_delete ((quiet_wait w.1 _).sound hw.sound)) rfl rfl
    rfl (fun id' hne => ?_) fun _ d _ a ha => ?_
  · simp [Store.exec, Store.wait, hne]
  · simp [Store.exec] at ha

/-- The alert is written back, `n` being no earlier than its deliveries. -/
theorem satE_set {n : ℕ} (priceUsd : Double) (hrepeats : alert.repeats = true) :
    SatE (observed P) i (contract P calls i) (command (.set id (alert.fired priceUsd n)))
      (Owning P calls i id alert n) (fun _ => Orderly P calls) fun _ _ => True := by
  refine satE_write (stable_orderly i) fun x w hw _ hx => ?_
  have hfault : x.fault ≠ .before := fault_of_executes rfl hx
  rw [after_of_executes hx]
  simp only [note, hfault, if_false]
  refine moves_write x.elapsed hw.orderly
    (sound_set ((quiet_wait w.1 _).sound hw.orderly.sound) (hw.origin.fired priceUsd n) hw.created) rfl rfl
    rfl (fun id' hne => ?_) fun _ d hd a ha => ?_
  · simp [Store.exec, Store.wait, hne]
  · obtain rfl : alert.fired priceUsd n = a := by simpa [Store.exec] using ha
    exact ⟨hrepeats, n, rfl, hw.past d hd⟩

/-- The alert of the call is created. -/
theorem satE_insert (score : ℕ) (hid : alert.id = own P i) (horigin : Origin P calls alert.id alert) :
    SatE (observed P) i (contract P calls i) (command (.insert alert score)) (Fresh P calls i)
      (fun _ => Orderly P calls) fun _ _ => True := by
  refine satE_write (stable_orderly i) fun x w hw _ hx => ?_
  have hnew : w.1.created alert.id = false := hid ▸ hw.fresh
  rw [after_of_executes hx]
  have hnote : note i (.insert alert score) x w.1 w.2 = w.2 := rfl
  rw [hnote]
  have hrecords : ∀ id', id' ≠ alert.id →
      ((w.1.wait x.elapsed).exec P i x.price (.insert alert score)).2.records id' = w.1.records id' :=
    fun id' hne => by simp [Store.exec, Store.wait, hne]
  have hcreated : ∀ id', id' ≠ alert.id →
      ((w.1.wait x.elapsed).exec P i x.price (.insert alert score)).2.created id' = w.1.created id' :=
    fun id' hne => by simp [Store.exec, Store.wait, hne]
  -- an alert that has not been created has not been delivered
  have hnone : ∀ d, ¬ Of w.1 alert.id d := by
    rintro d ⟨hd, hsame⟩
    have := hw.orderly.created d hd
    rw [hsame, hnew] at this
    cases this
  have hmono : ∀ id', w.1.created id' = true →
      ((w.1.wait x.elapsed).exec P i x.price (.insert alert score)).2.created id' = true := by
    intro id' h
    have hne : id' ≠ alert.id := by
      rintro rfl
      rw [hnew] at h
      cases h
    rw [hcreated id' hne, h]
  have hclock : w.1.now ≤ w.1.now + x.elapsed := Nat.le_add_right _ _
  have horderly : Orderly P calls
      (((w.1.wait x.elapsed).exec P i x.price (.insert alert score)).2, w.2) := by
    have hsound : Sound P calls ((w.1.wait x.elapsed).exec P i x.price (.insert alert score)).2 :=
      sound_insert ((quiet_wait w.1 _).sound hw.orderly.sound) horigin
    refine ⟨hsound, hw.orderly.counts, ?_, ?_, ?_, hw.orderly.apart⟩
    · exact fun d hd => (hw.orderly.past d hd).trans hclock
    · exact fun d hd => hmono _ (hw.orderly.created d hd)
    · intro id' howner d hd a ha
      have hne : id' ≠ alert.id := by
        rintro rfl
        exact hnone d hd
      exact hw.orderly.settled id' howner d hd a (hrecords id' hne ▸ ha)
  refine ⟨⟨fun _ => horderly, hmono, fun j hj => ?_, hclock, fun _ _ => rfl, fun _ => le_rfl,
    fun _ => le_rfl, fun _ _ _ hd => hd, fun _ _ _ h => ⟨h, rfl⟩⟩, horderly⟩
  refine hcreated _ fun h => hj (own_inj P ?_)
  exact h.trans hid

end Commands

/-! ## 4. The calls -/

section Calls

variable [DecidableEq τ]

theorem create_spec {data : CreateBody} (hi : calls i = .create data) :
    SatE (observed P) i (contract P calls i) (create data) (Fresh P calls i) (fun _ _ => True)
      fun _ _ => True := by
  have hfresh : ∀ {w w' : World τ}, Calm i w w' → Fresh P calls i w → Fresh P calls i w' := by
    intro w w' h hw
    exact ⟨h.orderly hw.orderly, by rw [h.quiet.created, hw.fresh]⟩
  have hskip : ∀ op : Op, isCalm op → SatE (observed P) i (contract P calls i) (command op)
      (Fresh P calls i) (fun _ => Fresh P calls i) fun _ _ => True := by
    intro op h
    exact satE_calm op h (fun _ => stable_fresh i) fun _ _ hw hcalm _ => hfresh hcalm hw
  have hdraw : SatE (observed P) i (contract P calls i) (command .randomUUID) (Fresh P calls i)
      (fun uuid w => uuid = P.randomUUID i ∧ Fresh P calls i w) fun _ _ => True :=
    satE_calm .randomUUID rfl (fun _ _ _ hw hr => ⟨hw.1, stable_fresh i hw.2 hr⟩)
      fun _ _ hw hcalm _ => ⟨rfl, hfresh hcalm hw⟩
  unfold create generateId
  refine SatE.bind (SatE.bind hdraw fun uuid => SatE.assume fun huuid =>
      SatE.pure (Q := fun id w => id = own P i ∧ Fresh P calls i w) fun w hw => ?_) fun id => ?_
  · exact ⟨by rw [huuid]; rfl, hw⟩
  refine SatE.assume ?_
  rintro rfl
  refine SatE.bind (Q := fun _ => Fresh P calls i) ?_ fun baseline => ?_
  · unfold baselinePrice
    split
    · exact SatE.bind (hskip (.price _) rfl) fun _ => SatE.pure fun _ h => h
    · exact SatE.pure fun _ h => h
  refine SatE.bind (hskip .now rfl) fun created_at => ?_
  refine SatE.bind (hskip .now rfl) fun score => ?_
  refine SatE.bind (satE_insert score rfl ?_) fun _ => SatE.pure fun _ _ => trivial
  exact ⟨i, data, hi, rfl, rfl, rfl, rfl⟩

theorem remove_spec (id : String) :
    SatE (observed P) i (contract P calls i) (remove id) (Orderly P calls) (fun _ => Orderly P calls)
      fun _ _ => True := by
  unfold remove
  refine SatE.bind (satE_skip (.get id) rfl) fun r => ?_
  cases r with
  | none => exact SatE.pure fun _ h => h
  | some existing => exact SatE.bind (satE_delete id _) fun _ => SatE.pure fun _ h => h

/-- A command between the read and the delivery. -/
theorem satE_reading (op : Op) (hop : isCalm op) (hget : ∀ id, op ≠ .get id)
    {φ : ℕ → Delivery → Prop} (hφ : Lasting φ) :
    SatE (observed P) i (contract P calls i) (command op) (Reading P calls i id alert φ)
      (fun _ => Reading P calls i id alert φ) fun _ _ => True := by
  refine satE_calm op hop (fun _ => stable_reading i hφ) fun x w hw hcalm _ => ?_
  refine calm_reading hφ hcalm ?_ hw
  cases op with
  | get id => exact absurd rfl (hget id)
  | insert => cases hop
  | delete => cases hop
  | set => cases hop
  | deliver => cases hop
  | _ => rfl

/-- A time is compared with the clock: if it is not too recent, what is from before it is not. -/
theorem isCooling_spec {φ ψ : ℕ → Delivery → Prop} (hφ : Lasting φ) (hψ : Lasting ψ)
    (time : Option ℕ) (himp : ∀ n d, (∀ t, time = some t → t + COOLDOWN_MS ≤ n) → φ n d → ψ n d) :
    SatE (observed P) i (contract P calls i) (isCooling time) (Reading P calls i id alert φ)
      (fun cooling w => cooling = false → Reading P calls i id alert ψ w) fun _ _ => True := by
  have hweaken : ∀ w, (∀ t, time = some t → t + COOLDOWN_MS ≤ w.1.now) →
      Reading P calls i id alert φ w → Reading P calls i id alert ψ w :=
    fun w ht hw => ⟨hw.orderly, hw.origin, hw.created, hw.seen,
      fun heq d hd => himp _ d ht (hw.latest heq d hd)⟩
  unfold isCooling
  cases time with
  | none => exact SatE.pure fun w hw _ => hweaken w nofun hw
  | some time =>
    refine SatE.bind (Q := fun n w => ¬ n < time + COOLDOWN_MS → Reading P calls i id alert ψ w)
      (satE_now (fun _ _ h ht hw => calm_reading hφ h ht hw) (fun n w w' hw hr hn =>
        stable_reading i hψ (hw hn) hr) fun w hw hn => hweaken w ?_ hw) fun n => ?_
    · rintro _ ⟨⟩
      omega
    · refine SatE.pure fun w hw hcooling => hw ?_
      simpa using hcooling

theorem onCooldown_spec :
    SatE (observed P) i (contract P calls i) (onCooldown alert) (Reading P calls i id alert (KnownBy alert))
      (fun cooling w => cooling = false → Reading P calls i id alert (Cooled alert) w)
      fun _ _ => True := by
  have hknown : Lasting (KnownBy alert) := fun _ _ _ _ h => h
  unfold onCooldown
  split
  · -- an alert that does not repeat and is still there has not been delivered
    rename_i hrepeats
    refine SatE.pure fun w hw _ => ⟨hw.orderly, hw.origin, hw.created, hw.seen, fun heq d hd => ?_⟩
    have := (hw.latest heq d hd).1
    simp [this] at hrepeats
  · refine SatE.bind (isCooling_spec hknown (lasting_cooled alert) alert.last_fired_at ?_)
      fun cooling => ?_
    · rintro n d htime ⟨hrepeats, t, ht, hle⟩
      exact ⟨hrepeats, (Nat.add_le_add_right hle _).trans (htime t ht)⟩
    cases cooling with
    | true => exact SatE.pure fun _ _ h => by cases h
    | false =>
      refine SatE.bind (Q := fun _ => Reading P calls i id alert (Cooled alert)) ?_ fun time => ?_
      · exact (satE_reading (.getCooldown _) rfl (fun _ => nofun) (lasting_cooled alert)).mono
          (fun _ h => h rfl) (fun _ _ h => h) fun _ _ h => h
      · exact isCooling_spec (lasting_cooled alert) (lasting_cooled alert) time fun _ _ _ h => h

theorem fire_spec (priceUsd : Double) :
    SatE (observed P) i (contract P calls i) (fire alert priceUsd)
      (Reading P calls i id alert (Cooled alert)) (fun _ w => ∃ n, Owning P calls i id alert n w)
      fun _ _ => True := by
  -- the delivery names the alert that was read
  refine SatE.fix fun w hw => ?_
  obtain ⟨_, _, _, _, hid, -⟩ := hw.origin
  refine SatE.bind ((satE_reading .now rfl (fun _ => nofun) (lasting_cooled alert)).mono ?_
    (fun _ _ h => h) fun _ _ h => h) fun triggered_at => satE_deliver hid
  rintro w rfl
  exact hw

theorem afterFire_spec (priceUsd : Double) :
    SatE (observed P) i (contract P calls i) (afterFire id alert priceUsd)
      (fun w => ∃ n, Owning P calls i id alert n w) (fun _ => Orderly P calls) fun _ _ => True := by
  unfold afterFire
  split
  · refine SatE.bind ((remove_spec id).mono ?_ (fun _ _ h => h) fun _ _ h => h) fun _ => SatE.pure ?_
    · rintro w ⟨n, hn⟩
      exact hn.orderly
    · exact fun _ h => h
  · rename_i hrepeats
    refine SatE.bind (Q := fun n w => Owning P calls i id alert n w) (satE_now ?_ (stable_owning i) ?_)
      fun n => ?_
    · rintro w w' hcalm ht ⟨n, hn⟩
      exact ⟨n, hcalm.orderly hn.orderly, hn.origin, by rw [hcalm.quiet.created, hn.created],
        by rw [hcalm.owner, hn.owner], fun d hd => hn.past d (hcalm.of_iff.mp hd)⟩
    · rintro w ⟨n, hn⟩
      exact ⟨hn.orderly, hn.origin, hn.created, hn.owner, fun d hd => hn.orderly.past d hd.1⟩
    · exact SatE.bind (satE_set priceUsd (by simpa using hrepeats)) fun _ =>
        satE_skip (.setCooldown ..) rfl

theorem evaluate_spec (asset : String) (priceUsd : Double) (id : String) :
    SatE (observed P) i (contract P calls i) (evaluate asset priceUsd id) (Orderly P calls)
      (fun _ => Orderly P calls) fun _ _ => True := by
  unfold evaluate
  refine SatE.bind (satE_get id) fun r => ?_
  cases r with
  | none => exact SatE.pure fun _ h => h
  | some alert =>
    dsimp only
    split
    · exact SatE.pure fun _ h => h.orderly
    split
    · exact SatE.pure fun _ h => h.orderly
    have hkeep : Stable (contract P calls i).guar (Orderly P calls) := fun _ _ hw h =>
      Moves.orderly h hw
    refine SatE.bind ((onCooldown_spec.keep (stable_orderly i) hkeep).mono (fun w hw => ⟨hw, hw.orderly⟩)
      (fun _ _ h => h) fun _ _ _ => trivial) fun cooling => ?_
    cases cooling with
    | true => exact SatE.pure fun _ h => h.2
    | false =>
      refine SatE.bind ((fire_spec priceUsd).mono ?_ (fun _ _ h => h) fun _ _ h => h) fun _ =>
        afterFire_spec priceUsd
      exact fun _ h => h.1 rfl

theorem evaluateEach_spec (asset : String) (priceUsd : Double) (ids : List String) :
    SatE (observed P) i (contract P calls i) (evaluateEach asset priceUsd ids) (Orderly P calls)
      (fun _ => Orderly P calls) fun _ _ => True := by
  induction ids with
  | nil => exact SatE.pure fun _ h => h
  | cons id ids ih => exact SatE.bind (evaluate_spec asset priceUsd id) fun _ => ih

theorem call_spec (i : τ) :
    SatE (observed P) i (contract P calls i) (calls i).code (Fresh P calls i) (fun _ _ => True)
      fun _ _ => True := by
  cases hi : calls i with
  | create data => exact SatE.bind (create_spec hi) fun _ => SatE.pure fun _ _ => trivial
  | remove id =>
    exact (remove_spec id).mono (fun _ h => h.orderly) (fun _ _ _ => trivial) fun _ _ h => h
  | evaluateForAsset asset priceUsd =>
    refine SatE.bind (Q := fun _ _ => True) ?_ fun _ => SatE.pure fun _ _ => trivial
    refine SatE.tryCatch (E := fun _ _ => True) ?_ fun _ => SatE.pure fun _ _ => trivial
    exact (SatE.bind (satE_skip (.smembers _) rfl) fun ids =>
      evaluateEach_spec asset priceUsd ids).mono (fun _ h => h.orderly) (fun _ _ _ => trivial)
      fun _ _ h => h

end Calls

/-! ## 5. Every interleaving -/

theorem orderly_begin : Orderly P calls (.init, .init) where
  sound := good_init.sound
  counts _ := Or.inl ⟨rfl, rfl⟩
  past := nofun
  created := nofun
  settled _ _ _ hd := nomatch hd.1
  apart := List.Pairwise.nil

theorem safe_begin [DecidableEq τ] (P : Platform τ) (calls : τ → Call) :
    (begin calls).Safe (observed P) (contract P calls) fun _ _ _ => True := by
  intro i
  refine ⟨Fresh P calls i, stable_fresh i, ⟨orderly_begin, rfl⟩,
    Sat.mono (call_spec i) (fun _ h => h) ?_⟩
  exact fun _ _ _ => trivial

/-- The deliveries of the alert of a call: one if it does not repeat, and no two of them in a span of
`COOLDOWN_MS` if it does.  The latest delivery is the first. -/
def FiresOnce (P : Platform τ) (calls : τ → Call) (s : Store) : Prop :=
  ∀ i data, calls i = .create data → s.deliveries.Pairwise fun later earlier =>
    later.payload.alert_id = own P i → earlier.payload.alert_id = own P i →
      data.repeats = some true ∧ earlier.time + COOLDOWN_MS ≤ later.time

theorem Orderly.firesOnce {w : World τ} (h : Orderly P calls w) : FiresOnce P calls w.1 := by
  intro i data hi
  refine h.apart.imp ?_
  intro later earlier hapart hlater hearlier
  obtain ⟨⟨j, data', hj, hid, hrepeats⟩, htime⟩ := hapart (hlater.trans hearlier.symm)
  obtain rfl := own_inj P (hlater.symm.trans hid)
  obtain rfl : data = data' := by
    rw [hi] at hj
    exact Call.create.inj hj
  exact ⟨hrepeats, htime⟩

/-- **Alerts fire once** in every state of a run in which a pass delivers only what it has read after
the deliveries before had been written, whatever calls are made in whatever threads and with
whatever failures. -/
theorem fires_once_run [DecidableEq τ] {ls : List (τ × Env)}
    (h : Along (Pool.step (observed P)) (fun c l => Pool.Issues (ReadLate l.1) c l) (begin calls) ls)
    (l₁ l₂ : List (τ × Env)) (hls : ls = l₁ ++ l₂) :
    FiresOnce P calls (run (Pool.step (observed P)) (begin calls) l₁).store.1 := by
  rw [hls, along_append] at h
  have hkeep : ∀ i, Stable (contract P calls i).guar (Orderly P calls) := fun i _ _ hw hm =>
    Moves.orderly hm hw
  exact ((safe_begin P calls).run_stable hkeep compatible orderly_begin h.1).firesOnce

/-- A pass that is not interfered with. -/
theorem fires_once_sample : FiresOnce samplePlatform (sampleCalls true)
    (run (Pool.step (observed samplePlatform)) (begin (sampleCalls true))
      (steps 0 4 ++ steps 1 8)).store.1 := by
  have hlate : Along (Pool.step (observed samplePlatform))
      (fun c l => Pool.Issues (ReadLate l.1) c l) (begin (sampleCalls true))
      (steps 0 4 ++ steps 1 8) := by decide +kernel
  exact fires_once_run hlate (steps 0 4 ++ steps 1 8) [] (by simp)

/-- Two passes read an alert that does not repeat, and both deliver it. -/
theorem fires_twice : ¬ FiresOnce samplePlatform (sampleCalls false)
    (run (Pool.step (observed samplePlatform)) (begin (sampleCalls false))
      (steps 0 4 ++ steps 1 2 ++ steps 2 2 ++ steps 1 4 ++ steps 2 2)).store.1 := by
  intro h
  have htwice := h 0 _ rfl
  revert htwice
  decide +kernel

end SmartDrop.Alerts.Firing
