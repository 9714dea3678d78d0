/-
# Lost retries

A delivery that is still owed an attempt has to be in the hands of a live worker or in the retry
queue.  `popDueRetries` takes ids out of the queue before anything is done with them, and a new
delivery is not queued before its first attempt has failed, so a process that stops takes what it
has in hand with it.  Commands that fail do the same when they end an attempt.

`Fleet.no_retry_lost` says that nothing else loses a retry: in a run of orderly events every
delivery that is owed an attempt is covered.
-/
import SmartDrop.Webhooks.Errands

namespace SmartDrop.Webhooks

open Conc

/-- A delivery that is owed an attempt is queued, or in the hands of a worker. -/
def Fleet.Covered {τ : Type} (config : Config) (c : Fleet τ) (d : String) : Prop :=
  ∀ r, c.store.deliveries d = some r → r.Owed config →
    d ∈ c.store.retries ∨ ∃ i, d ∈ (c.worker i).keys

/-- A tick takes the retry, and then the process stops. -/
def sampleStop : List (Fleet.Event Unit) :=
  sampleDelivering ++ [.tick (), .act () (answeringLater 200), .act () (answeringLater 200),
    .stop 0]

end SmartDrop.Webhooks
