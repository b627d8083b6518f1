import EventHarbor.ReceiverLab.Api

/-!
# A request of the worker at the receiver

The headers the transport writes are the headers the handler reads.
-/

namespace EventHarbor.ReceiverLab

open EventHarbor

/-- The value of a header. -/
def header (headers : List (String × String)) (name : String) : Option String :=
  (headers.find? (·.1 = name)).map Prod.snd

/-- The request that the handler of a route sees. -/
def posted (receiverChannel : Option String) (receivedAt : Time) (body : Bytes)
    (headers : List (String × String)) : Webhook where
  body := body
  receiverChannel := receiverChannel
  eventId := header headers "X-EventHarbor-Event-Id"
  deliveryId := header headers "X-EventHarbor-Delivery-Id"
  eventType := header headers "X-EventHarbor-Event-Type"
  deliveryAttempt := (header headers "X-EventHarbor-Attempt").bind String.toInt?
  requestTimestamp := (header headers "X-EventHarbor-Timestamp").bind String.toInt?
  signature := header headers "X-EventHarbor-Signature"
  demoRunId := header headers "X-EventHarbor-Demo-Run-Id"
  receivedAt := receivedAt

/-- `receive_webhook` on the registry. -/
def ReceiverState.receiveWebhook (lib : ReceiverLib) (s : ReceiverState) (w : Webhook) :
    ReceiverState × Handled :=
  s.webhookState w.demoRunId fun run => run.receive lib w

theorem step_receiveWebhook (lib : ReceiverLib) (s : ReceiverState) (w : Webhook) :
    s.step lib (.receiveWebhook w) =
      ((s.receiveWebhook lib w).1, .webhook (s.receiveWebhook lib w).2) := by
  simp only [ReceiverState.step, ReceiverState.receiveWebhook, ReceiverState.webhookState]
  cases w.demoRunId.bind fun r => (s.find r).map (r, ·) <;> rfl

end EventHarbor.ReceiverLab
