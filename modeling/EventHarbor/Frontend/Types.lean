import EventHarbor.JavaScript.Values
import EventHarbor.Deliveries.Retry
import EventHarbor.Deliveries.StateMachine

/-!
# What the API answers

The answers that the page works with, as far as it reads them.
-/

namespace EventHarbor

namespace Frontend

def js (s : String) : JsStr := JavaScript.ofChars s.toList

inductive ReceiverLabPreset
  | success | retryThenRecover | rateLimited | rateLimitThenRecover | timeout | permanentFailure
  | deadLetter
deriving DecidableEq

def ReceiverLabPreset.value : ReceiverLabPreset → String
  | success => "success"
  | retryThenRecover => "retry_then_recover"
  | rateLimited => "rate_limited"
  | rateLimitThenRecover => "rate_limit_then_recover"
  | timeout => "timeout"
  | permanentFailure => "permanent_failure"
  | deadLetter => "dead_letter"

inductive DemoScenarioId
  | outageReplay | transientRecovery | rateLimitRecovery | permanentRejection
deriving DecidableEq

def DemoScenarioId.value : DemoScenarioId → String
  | outageReplay => "outage_replay"
  | transientRecovery => "transient_recovery"
  | rateLimitRecovery => "rate_limit_recovery"
  | permanentRejection => "permanent_rejection"

inductive DemoEventTypeId
  | orderPaid | shipmentDispatched | inventoryThresholdReached
deriving DecidableEq

def DemoEventTypeId.value : DemoEventTypeId → String
  | orderPaid => "order.paid"
  | shipmentDispatched => "shipment.dispatched"
  | inventoryThresholdReached => "inventory.threshold_reached"

inductive DemoEventDataValue
  | string (s : JsStr)
  | number (x : JsNumber)
deriving DecidableEq

/-- Exact editable business event used by the guided reliability scenario. -/
structure DemoEventPayload where
  type : DemoEventTypeId
  data : List (JsStr × DemoEventDataValue)
deriving DecidableEq

structure Endpoint where
  id : JsStr

structure Delivery where
  id : JsStr
  endpointId : JsStr
  replayGeneration : JsNumber
  replayedFromDeliveryId : Option JsStr
  status : DeliveryStatus
  attemptCount : JsNumber

structure EventDetail where
  id : JsStr
  type : JsStr
  data : List (JsStr × JsValue)
  createdAt : JsStr
  deliveries : List Delivery

structure DeliveryAttempt where
  attemptNumber : JsNumber
  status : DeliveryAttemptStatus
  disposition : Option DeliveryDisposition
  httpStatusCode : Option JsNumber
  responseBodyExcerpt : Option JsStr

structure DeliveryAttemptsResponse where
  attempts : List DeliveryAttempt

structure ReceiverLabState where
  preset : Option ReceiverLabPreset

structure EventAccepted where
  eventId : JsStr

structure ReplayAccepted where
  deliveryId : JsStr

end Frontend

end EventHarbor
