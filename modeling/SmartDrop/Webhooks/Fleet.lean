/-
# The processes that deliver webhooks

Workers in any number of processes share one Redis.  A worker that is idle can be given an event
to deliver (`deliverToWebhook`), a delivery to attempt, or a tick of the retry worker; it works on
what it has one step at a time, and a process can stop between any two steps of its workers, which
then drop what they have.  Webhooks are edited meanwhile.

The jobs of a worker are the deliveries in its hands: the one that a notice has made, from the draw
of its id on, or the ids that a tick has popped, until the attempt at each is over.
`forget_deliverToWebhook` and `forget_tick` connect the jobs with the calls of the source.
-/
import SmartDrop.Lib.Crew
import SmartDrop.Lib.Run
import SmartDrop.Webhooks.Attempt

namespace SmartDrop.Webhooks

open Conc Redis deliveryRepository dispatcher

/-! ## 1. Calls as jobs -/

/-- A call whose outcome nobody reads. -/
def forget {α : Type} (t : Code α) : Prog sig Unit := t.prog.bind fun _ => .ret ()

/-- Work on a delivery. -/
abbrev Errand := Job sig String Unit

variable (P : Platform) (config : Config)

/-- An attempt at `d`. -/
def attemptErrand (d : String) (sequence : Option ℕ) : Errand :=
  ⟨d, forget (attempt P config d sequence)⟩

/-- `deliverToWebhook` up to the draw of an id: whether there is to be a delivery. -/
def vet (n : Notice) : Code Bool := do
  redis (.cacheWebhook n.webhook)
  if ← redis (.claimDelivery n.webhook.id n.eventId) then
    if n.webhook.id = "" then throw "deliveryRepository.create: webhook_id is required"
    else match ← webhookRepository.findById P config n.webhook.id with
      | none =>
        throw ("deliveryRepository.create: webhook '" ++ n.webhook.id ++ "' does not exist")
      | some _ => return true
  else return false

/-- `deliverToWebhook` up to the id of the new delivery, if there is to be one. -/
def accept (n : Notice) : Code (Option String) := do
  if ← vet P config n then return some (← deliveryRepository.generateId) else return none

/-- `deliverToWebhook` from the id of the new delivery on. -/
def deliverAs (n : Notice) (id : String) : Code (Option Delivery) := do
  let delivery ← insertAs n.newDelivery id
  applyDeliveryRetention delivery.id
  let _ ← update delivery.id { payload := some n.payload, sequence := some n.sequence }
  attempt P config delivery.id n.sequence

/-- The job that an accepted notice leads to. -/
def newErrands (n : Notice) : Except Err (Option String) → List Errand
  | .ok (some id) => [⟨id, forget (deliverAs P config n id)⟩]
  | _ => []

/-- The jobs of a tick. -/
def dueErrands : Except Err (List String) → List Errand
  | .ok ids => ids.map fun id => attemptErrand P config id none
  | .error _ => []

/-- `deliverToWebhook` as a program that decides on a job. -/
def takeNotice (n : Notice) : Prog sig (List Errand) :=
  (accept P config n).prog.bind fun r => .ret (newErrands P config n r)

/-- `tick` as a program that decides on jobs. -/
def takeDue : Prog sig (List Errand) :=
  (retryWorker.due config).prog.bind fun r => .ret (dueErrands P config r)

section Jobs

variable {P config}

theorem forget_bind {α β : Type} (t : Code α) (f : α → Code β) :
    forget (t >>= f) = t.prog.bind fun r => match r with
      | .ok a => forget (f a)
      | .error _ => .ret () := by
  rw [forget, Throws.prog_bind, Prog.bind_assoc]
  congr 1
  funext r
  cases r <;> rfl

/-- What follows a call that decides on one job. -/
theorem runJobs_single (d : String) (code : Prog sig Unit) :
    runJobs [(⟨d, code⟩ : Errand)] = code := Prog.bind_ret code

/-- **`deliverToWebhook` decides on its job and does it.** -/
theorem forget_deliverToWebhook (n : Notice) :
    forget (deliverToWebhook P config n) = (takeNotice P config n).bind runJobs := by
  have hsplit : deliverToWebhook P config n = accept P config n >>= fun accepted =>
      accepted.elim (return none) fun id => deliverAs P config n id := by
    simp only [deliverToWebhook, accept, vet, deliverAs, create, prepare, bind_assoc]
    refine bind_congr fun _ => bind_congr fun claimed => ?_
    cases claimed with
    | false => rfl
    | true =>
      have hid : n.newDelivery.webhook_id = n.webhook.id := rfl
      simp only [if_true, hid]
      split
      · rfl
      · simp only [bind_assoc]
        refine bind_congr fun found => ?_
        cases found with
        | none => rfl
        | some webhook => simp only [pure_bind, if_true, bind_assoc, Option.elim_some]
  rw [hsplit, forget_bind, takeNotice, Prog.bind_assoc]
  congr 1
  funext r
  rcases r with e | _ | id
  · rfl
  · rfl
  · exact (runJobs_single id _).symm

/-- The attempts of a tick, one after the other. -/
theorem forget_attemptAll (ids : List String) :
    forget (retryWorker.attemptAll P config ids) = runJobs (dueErrands P config (.ok ids)) := by
  induction ids with
  | nil => rfl
  | cons id ids ih =>
    rw [retryWorker.attemptAll, forget_bind, Throws.prog_tryCatch, Throws.prog_bind,
      Prog.bind_assoc, Prog.bind_assoc]
    change _ = (forget (attempt P config id none)).bind fun _ =>
      runJobs (dueErrands P config (.ok ids))
    have hforget : forget (attempt P config id none) =
      (attempt P config id none).prog.bind fun _ => .ret () := rfl
    rw [hforget, Prog.bind_assoc]
    congr 1
    funext r
    cases r with
    | error e => exact ih
    | ok a => exact ih

/-- **`tick` decides on its jobs and does them.** -/
theorem forget_tick : forget (retryWorker.tick P config) = (takeDue P config).bind runJobs := by
  rw [retryWorker.tick, forget, Throws.prog_tryCatch, Throws.prog_bind, Prog.bind_assoc,
    Prog.bind_assoc, takeDue, Prog.bind_assoc]
  congr 1
  funext r
  rcases r with e | ids
  · rfl
  · rw [Prog.ret_bind, ← forget_attemptAll]
    change (retryWorker.attemptAll P config ids).prog.bind _ =
      (retryWorker.attemptAll P config ids).prog.bind fun _ => .ret ()
    congr 1
    funext r
    cases r with
    | error e => rfl
    | ok a => rfl

end Jobs

/-! ## 2. The system -/

/-- The workers of all processes, and the store. -/
abbrev Fleet (τ : Type) := Crew sig String Unit τ Store

namespace Fleet

/-- What can happen next: an idle worker is given something to do, a worker takes a step, a process
stops, or a webhook is edited or removed. -/
inductive Event (τ : Type) where
  | deliver (i : τ) (n : Notice)
  | attempt (i : τ) (d : String) (sequence : Option ℕ)
  | tick (i : τ)
  | act (i : τ) (x : Env)
  | stop (p : ℕ)
  | edit (id : String) (record : Option WebhookRecord)

variable {τ : Type} (proc : τ → ℕ)

/-- Who takes the step of a worker. -/
def who (i : τ) (d : Option String) : Caller := ⟨proc i, d⟩

variable [DecidableEq τ]

def step (c : Fleet τ) : Event τ → Fleet τ
  | .deliver i n => c.assign i (takeNotice P config n)
  | .attempt i d sequence => c.assign i (.ret [attemptErrand P config d sequence])
  | .tick i => c.assign i (takeDue P config)
  | .act i x => c.act (machine P) (who proc) i x
  | .stop p => c.stop (fun i => proc i = p) fun s => s.onProcess p fun _ => .init
  | .edit id record =>
    { c with store := { c.store with webhooks := Function.update c.store.webhooks id record } }

end Fleet

end SmartDrop.Webhooks
