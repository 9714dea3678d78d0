/-
# Claiming retries

`webhooks:retries` is a sorted set of delivery ids with the times at which they are due.
`scheduleRetry` puts an id there, or moves one that is there already, and `popDueRetries` takes
due ids out in the same round trip in which it reads them.

A record of the run notes every scheduling and every answer of `popDueRetries`.  `pending` reads
off from it which ids are scheduled and have not been returned since, and the queue holds exactly
these (`Queued`).  From it: each scheduling is returned once at most, not before it is due, and
nothing is lost (`retries_claimed`).
-/
import SmartDrop.Webhooks.Attempt
import SmartDrop.Lib.Run

namespace SmartDrop.Webhooks

open Conc Redis

/-! ## 1. The record of the queue -/

/-- What happens to the queue: an id is scheduled, or a worker is given ids. -/
inductive QueueEvent where
  | scheduled (id : String) (due : ℚ)
  | popped (now max : ℕ) (ids : List String)

/-- The record after a step, the latest event first.  A scheduling is noted when Redis executes
it, and an answer when it reaches the worker. -/
def noteQueue (P : Platform) (caller : Caller) : Op → Env → Store → List QueueEvent →
    List QueueEvent
  | .scheduleRetry id due, x, _, h =>
    if x.fault = .before then h else .scheduled id due :: h
  | .popDueRetries now max, x, s, h =>
    match ((machine P).exec caller (.popDueRetries now max) x s).1 with
    | .ok ids => .popped now max ids :: h
    | .error _ => h
  | _, _, _, h => h

/-- The time at which an id is due that was scheduled and not returned since. -/
def pending : List QueueEvent → String → Option ℚ
  | [], _ => none
  | .scheduled i due :: h, id => if i = id then some due else pending h id
  | .popped _ _ ids :: h, id => if id ∈ ids then none else pending h id

/-- Every answer was right when it was given. -/
def Answered : List QueueEvent → Prop
  | [] => True
  | .scheduled _ _ :: h => Answered h
  | .popped now max ids :: h =>
    (ids.length ≤ max ∧ ids.Nodup ∧ ∀ id ∈ ids, ∃ due ≤ (now : ℚ), pending h id = some due) ∧
      Answered h

/-- The queue holds what is pending, and every answer was right. -/
structure Queued (queue : ZSet ℚ String) (h : List QueueEvent) : Prop where
  holds : ∀ id due, (due, id) ∈ queue.entries ↔ pending h id = some due
  answered : Answered h

/-! ## 2. Each step -/

section Step

variable {queue : ZSet ℚ String} {h : List QueueEvent}

theorem queued_empty : Queued .empty [] where
  holds id due := by simp [ZSet.empty, pending]
  answered := trivial

/-- An id is scheduled, perhaps again. -/
theorem Queued.schedule (hq : Queued queue h) (id : String) (due : ℚ) :
    Queued (queue.zadd due id) (.scheduled id due :: h) := by
  refine ⟨fun i t => ?_, hq.answered⟩
  rw [ZSet.mem_entries_zadd, pending]
  by_cases hi : id = i
  · subst hi
    simp [eq_comm]
  · simp only [hi, if_false, ← hq.holds i t, Prod.mk.injEq, Ne.symm hi, and_false, or_false,
      ne_eq, not_false_eq_true, and_true]

/-- Due ids are taken out and returned. -/
theorem Queued.pop (hq : Queued queue h) (now max : ℕ) :
    Queued (queue.zremAll (queue.zrangebyscore now max))
      (.popped now max (queue.zrangebyscore now max) :: h) := by
  refine ⟨fun i t => ?_, ⟨queue.length_zrangebyscore now max, queue.nodup_zrangebyscore now max,
    fun i hi => ?_⟩, hq.answered⟩
  · rw [ZSet.mem_entries_zremAll, pending, hq.holds i t]
    split
    · rename_i hi
      simp [hi]
    · rename_i hi
      simp [hi]
  · obtain ⟨due, hmem, hle⟩ := ZSet.score_of_mem_zrangebyscore hi
    exact ⟨due, hle, (hq.holds i due).mp hmem⟩

/-- Only the two calls, and the removal of a webhook, change the queue. -/
theorem exec_retries {P : Platform} {caller : Caller} {x : Env} {s : Store} {op : Op}
    (hschedule : ∀ id due, op ≠ .scheduleRetry id due)
    (hpop : ∀ now max, op ≠ .popDueRetries now max)
    (hdelete : ∀ id existing ids, op ≠ .deleteWebhook id existing ids) :
    (s.exec P caller x op).2.retries = s.retries := by
  cases op with
  | scheduleRetry id due => exact absurd rfl (hschedule id due)
  | popDueRetries now max => exact absurd rfl (hpop now max)
  | deleteWebhook id existing ids => exact absurd rfl (hdelete id existing ids)
  | cachedWebhook id =>
    simp only [Store.exec]
    split
    · rfl
    · split <;> rfl
  | assertPublicTarget url =>
    simp only [Store.exec]
    split <;> rfl
  | post request =>
    simp only [Store.exec]
    split <;> rfl
  | _ => rfl

/-- No answer of `popDueRetries` is lost on its way to the worker. -/
def Arrives (op : Op) (x : Env) : Prop :=
  match op with
  | .popDueRetries .. => x.fault ≠ .after
  | _ => True

/-- **One step** of any call that removes no webhook. -/
theorem Queued.exec {P : Platform} {caller : Caller} {x : Env} {s : Store} {op : Op}
    (hop : ∀ id existing ids, op ≠ .deleteWebhook id existing ids) (hx : Arrives op x)
    (hq : Queued s.retries h) :
    Queued ((machine P).exec caller op x s).2.retries (noteQueue P caller op x s h) := by
  by_cases hschedule : ∃ id due, op = .scheduleRetry id due
  · obtain ⟨id, due, rfl⟩ := hschedule
    rw [machine_store, noteQueue]
    by_cases hbefore : x.fault = .before
    · simpa [hbefore, Op.isLocal] using hq
    · simpa [hbefore, Store.exec] using hq.schedule id due
  by_cases hpop : ∃ now max, op = .popDueRetries now max
  · obtain ⟨now, max, rfl⟩ := hpop
    cases hfault : x.fault with
    | none =>
      simp only [noteQueue]
      rw [machine_exec_ok P s hfault]
      exact hq.pop now max
    | before => simpa [noteQueue, machine, Op.isLocal, hfault] using hq
    | after => exact absurd hfault hx
  have hnote : noteQueue P caller op x s h = h := by
    cases op with
    | scheduleRetry id due => exact absurd ⟨id, due, rfl⟩ hschedule
    | popDueRetries now max => exact absurd ⟨now, max, rfl⟩ hpop
    | _ => rfl
  have hexec : (s.exec P caller x op).2.retries = s.retries :=
    exec_retries (fun id due he => hschedule ⟨id, due, he⟩) (fun now max he => hpop ⟨now, max, he⟩)
      hop
  rw [hnote]
  refine machine_store_of (Q := fun s => Queued s.retries h) hq ?_
  rwa [hexec]

end Step

/-! ## 3. What the record says -/

/-- The law of the retry queue, for a queue and the record of what was done to it. -/
structure Claimed (queue : ZSet ℚ String) (h : List QueueEvent) : Prop where
  /-- Two answers with the same id have a scheduling of it between them. -/
  once : ∀ later now max ids between now' max' ids' earlier id,
    h = later ++ .popped now max ids :: (between ++ .popped now' max' ids' :: earlier) →
    id ∈ ids → id ∈ ids' → ∃ due, .scheduled id due ∈ between
  /-- What is returned was scheduled, and its latest due time has come. -/
  due : ∀ later (now max : ℕ) ids earlier id, h = later ++ .popped now max ids :: earlier → id ∈ ids →
    ∃ between before, ∃ due : ℚ, earlier = between ++ .scheduled id due :: before ∧
      (∀ t, .scheduled id t ∉ between) ∧ due ≤ (now : ℚ)
  /-- An answer has at most as many ids as were asked for, none of them twice. -/
  bounded : ∀ now max ids, .popped now max ids ∈ h → ids.length ≤ max ∧ ids.Nodup
  /-- What was not returned since it was scheduled is in the queue. -/
  kept : ∀ later id due earlier, h = later ++ .scheduled id due :: earlier →
    (∀ now max ids, .popped now max ids ∈ later → id ∉ ids) → id ∈ queue

section Record

variable {h : List QueueEvent} {id : String}

/-- What is pending was scheduled, and neither scheduled again nor returned since. -/
theorem pending_eq_some {due : ℚ} (hp : pending h id = some due) :
    ∃ later earlier, h = later ++ .scheduled id due :: earlier ∧
      (∀ t, .scheduled id t ∉ later) ∧ ∀ now max ids, .popped now max ids ∈ later → id ∉ ids := by
  induction h with
  | nil => cases hp
  | cons e h ih =>
    cases e with
    | scheduled i t =>
      rw [pending] at hp
      split at hp
      · rename_i hi
        obtain rfl := Option.some.inj hp
        exact ⟨[], h, by rw [hi]; rfl, by simp, by simp⟩
      · rename_i hi
        obtain ⟨later, earlier, rfl, hs, hpop⟩ := ih hp
        refine ⟨.scheduled i t :: later, earlier, rfl, fun t' hmem => ?_, fun now max ids hmem => ?_⟩
        · rcases List.mem_cons.mp hmem with he | hmem
          · cases he
            exact hi rfl
          · exact hs t' hmem
        · rcases List.mem_cons.mp hmem with he | hmem
          · cases he
          · exact hpop now max ids hmem
    | popped n m is =>
      rw [pending] at hp
      split at hp
      · cases hp
      · rename_i hi
        obtain ⟨later, earlier, rfl, hs, hpop⟩ := ih hp
        refine ⟨.popped n m is :: later, earlier, rfl, fun t' hmem => ?_, fun now max ids hmem => ?_⟩
        · rcases List.mem_cons.mp hmem with he | hmem
          · cases he
          · exact hs t' hmem
        · rcases List.mem_cons.mp hmem with he | hmem
          · cases he
            exact hi
          · exact hpop now max ids hmem

/-- What was scheduled and not returned since is pending. -/
theorem pending_of_scheduled {later earlier : List QueueEvent} {due : ℚ}
    (hpop : ∀ now max ids, .popped now max ids ∈ later → id ∉ ids) :
    ∃ t, pending (later ++ .scheduled id due :: earlier) id = some t := by
  induction later with
  | nil => exact ⟨due, by simp [pending]⟩
  | cons e later ih =>
    have hrest := ih fun now max ids hmem => hpop now max ids (List.mem_cons_of_mem _ hmem)
    cases e with
    | scheduled i t =>
      rw [List.cons_append, pending]
      split
      · exact ⟨t, rfl⟩
      · exact hrest
    | popped n m is =>
      rw [List.cons_append, pending, if_neg (hpop n m is List.mem_cons_self)]
      exact hrest

/-- An answer was right when it was given. -/
theorem Answered.at {later earlier : List QueueEvent} {now max : ℕ} {ids : List String}
    (ha : Answered (later ++ .popped now max ids :: earlier)) :
    ids.length ≤ max ∧ ids.Nodup ∧ ∀ id ∈ ids, ∃ due ≤ (now : ℚ), pending earlier id = some due := by
  induction later with
  | nil => exact ha.1
  | cons e later ih =>
    cases e with
    | scheduled i t => exact ih ha
    | popped n m is => exact ih ha.2

/-- The queue and its record obey the law. -/
theorem Queued.claimed {queue : ZSet ℚ String} (hq : Queued queue h) : Claimed queue h where
  once later now max ids between now' max' ids' earlier id he hid hid' := by
    -- the second answer found the id pending: it was scheduled after the first one
    have ha := hq.answered
    rw [he] at ha
    obtain ⟨due, -, hpend⟩ := ha.at.2.2 id hid
    obtain ⟨later', earlier', hsplit, -, hpop⟩ := pending_eq_some hpend
    rcases List.append_eq_append_iff.mp hsplit with ⟨l, hl, hr⟩ | ⟨l, hl, hr⟩
    · cases l with
      | nil => cases hr
      | cons e l =>
        obtain ⟨rfl, -⟩ := List.cons.inj hr
        exact absurd hid' (hpop now' max' ids' (by simp [hl]))
    · cases l with
      | nil => cases hr
      | cons e l =>
        obtain ⟨rfl, -⟩ := List.cons.inj hr
        exact ⟨due, by simp [hl]⟩
  due later now max ids earlier id he hid := by
    have ha := hq.answered
    rw [he] at ha
    obtain ⟨due, hle, hpend⟩ := ha.at.2.2 id hid
    obtain ⟨between, before, hsplit, hs, -⟩ := pending_eq_some hpend
    exact ⟨between, before, due, hsplit, hs, hle⟩
  bounded now max ids hmem := by
    obtain ⟨later, earlier, he⟩ := List.append_of_mem hmem
    have ha := hq.answered
    rw [he] at ha
    exact ⟨ha.at.1, ha.at.2.1⟩
  kept later id due earlier he hpop := by
    have hpending : ∃ t, pending (later ++ .scheduled id due :: earlier) id = some t :=
      pending_of_scheduled hpop
    obtain ⟨t, ht⟩ := hpending
    rw [← he] at ht
    exact List.mem_map.mpr ⟨(t, id), (hq.holds id t).mpr ht, rfl⟩

end Record

/-! ## 4. Every interleaving -/

/-- The calls of the workers, with the record of the queue beside the store. -/
def recordedMachine {τ : Type} (P : Platform) (who : τ → Caller) :
    Machine sig τ Env (Store × List QueueEvent) :=
  ((machine P).comap who).observe fun i op x s h => noteQueue P (who i) op x s h

/-- **Retries are claimed.**  Any number of workers interleave calls of `scheduleRetry` and
`popDueRetries`, and whatever else they do short of removing webhooks.  Unless an answer is lost
on its way, each scheduling is returned by one `popDueRetries` at most, not before it is due, no
answer is longer than asked for, and an id that was not returned since it was scheduled is in the
queue. -/
theorem retries_claimed {τ α : Type} [DecidableEq τ] (P : Platform) (who : τ → Caller)
    (c : Pool sig α τ (Store × List QueueEvent)) (hqueue : c.store.1.retries = .empty)
    (hrecord : c.store.2 = [])
    (huses : c.Uses fun _ (op : Op) => ∀ id existing ids, op ≠ .deleteWebhook id existing ids)
    (ls : List (τ × Env))
    (hls : Along (Pool.step (recordedMachine P who)) (Pool.Issues fun (op : Op) x _ => Arrives op x)
      c ls) :
    let s := (run (Pool.step (recordedMachine P who)) c ls).store
    Claimed s.1.retries s.2 := by
  have hstart : Queued c.store.1.retries c.store.2 := by
    rw [hqueue, hrecord]
    exact queued_empty
  refine (Pool.run_keeps (I := fun s : Store × List QueueEvent => Queued s.1.retries s.2)
    (fun i op x s hop hx hs => ?_) huses hstart hls).claimed
  exact Queued.exec hop hx hs

/-- One worker schedules a retry and asks for what is due; another one asks at the same time. -/
def sampleWorkers : Bool → Prog sig (Except Err (List String))
  | false => (do
    deliveryRepository.scheduleRetry "dlv_0" 5
    deliveryRepository.popDueRetries 10 25 : Code (List String))
  | true => deliveryRepository.popDueRetries 10 25

theorem retries_claimed_sample :
    let c : Pool sig _ Bool _ := ⟨(Store.init, []), sampleWorkers⟩
    let ls := [(false, answering 200), (true, answering 200), (false, answering 200)]
    let s := (run (Pool.step (recordedMachine samplePlatform fun _ => ⟨0, none⟩)) c ls).store
    Claimed s.1.retries s.2 := by
  refine retries_claimed samplePlatform (fun _ => ⟨0, none⟩) ⟨(Store.init, []), sampleWorkers⟩ rfl
    rfl (fun i => ?_) _ ?_
  · have hpop : Throws.Uses (S := sig) (fun (op : Op) => ∀ id existing ids,
        op ≠ .deleteWebhook id existing ids) (deliveryRepository.popDueRetries 10 25) :=
      uses_redis fun _ _ _ h => by cases h
    cases i with
    | false => exact Throws.Uses.bind (uses_redis fun _ _ _ h => by cases h) fun _ => hpop
    | true => exact hpop
  · exact ⟨trivial, nofun, nofun, trivial⟩

end SmartDrop.Webhooks
