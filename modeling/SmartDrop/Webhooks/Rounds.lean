/-
# Rounds, attempts and the retry queue

In a calm fleet no command on a delivery fails, the secrets can be read, and no delivery is given
to a worker while another one has it.  Then the record, the retry queue and the network agree on
every delivery that nobody is working on, whatever the endpoints answer and whenever the webhook is
deactivated.
-/
import SmartDrop.Webhooks.Errands

namespace SmartDrop.Webhooks

open Conc

/-- A round that is answered 500, and a second one that is answered 200. -/
def sampleRecovered : List (Fleet.Event Unit) :=
  sampleDelivering ++ .tick () :: List.replicate 20 (.act () (answeringLater 200))

end SmartDrop.Webhooks
