import EventHarbor.Frontend.Types
import EventHarbor.JavaScript.Parse

/-!
# Demo scenarios and demo events

What the guided tour needs to know of each scenario and of each event type, and the
attempt that proves a schema rejection.
-/

namespace EventHarbor

namespace Frontend

open JavaScript

inductive DemoScenarioStrategy
  | replay | automatic | terminal
deriving DecidableEq

structure DemoScenario where
  id : DemoScenarioId
  shortLabel : String
  preset : ReceiverLabPreset
  strategy : DemoScenarioStrategy

def demoScenario : DemoScenarioId → DemoScenario
  | .outageReplay => ⟨.outageReplay, "Outage + replay", .deadLetter, .replay⟩
  | .transientRecovery =>
    ⟨.transientRecovery, "Transient outage", .retryThenRecover, .automatic⟩
  | .rateLimitRecovery =>
    ⟨.rateLimitRecovery, "Rate limited", .rateLimitThenRecover, .automatic⟩
  | .permanentRejection =>
    ⟨.permanentRejection, "Permanent rejection", .success, .terminal⟩

def defaultDemoScenarioId : DemoScenarioId := .outageReplay

def demoScenarioIds : List DemoScenarioId :=
  [.outageReplay, .transientRecovery, .rateLimitRecovery, .permanentRejection]

/-- `isDemoScenarioId`, with the scenario it finds. -/
def scenarioOf (value : Option JsValue) : Option DemoScenarioId :=
  demoScenarioIds.find? fun id =>
    match value with
    | some (.string s) => js id.value = s
    | _ => false

inductive DemoEventFieldKind
  | text | money | integer
deriving DecidableEq

structure DemoEventField where
  key : String
  kind : DemoEventFieldKind
deriving DecidableEq

structure DemoEventDefinition where
  type : DemoEventTypeId
  invalidField : String
  fields : List DemoEventField

def definitionOf : DemoEventTypeId → DemoEventDefinition
  | .orderPaid => ⟨.orderPaid, "customer_id",
      [⟨"order_id", .text⟩, ⟨"customer_id", .text⟩, ⟨"amount_cents", .money⟩, ⟨"currency", .text⟩]⟩
  | .shipmentDispatched => ⟨.shipmentDispatched, "tracking_number",
      [⟨"shipment_id", .text⟩, ⟨"order_id", .text⟩, ⟨"carrier", .text⟩,
        ⟨"tracking_number", .text⟩]⟩
  | .inventoryThresholdReached => ⟨.inventoryThresholdReached, "warehouse_id",
      [⟨"sku", .text⟩, ⟨"warehouse_id", .text⟩, ⟨"quantity_remaining", .integer⟩,
        ⟨"reorder_threshold", .integer⟩]⟩

def demoEventTypes : List DemoEventTypeId :=
  [.orderPaid, .shipmentDispatched, .inventoryThresholdReached]

/-- `isDemoEventTypeId`, with the type it finds. -/
def eventTypeOf (value : JsStr) : Option DemoEventTypeId :=
  demoEventTypes.find? fun type => js type.value = value

def demoEventDefinition (value : JsStr) : DemoEventDefinition :=
  definitionOf ((eventTypeOf value).getD .orderPaid)

/-- The attempt of a delivery that the receiver rejected for the field that its event
lacks. -/
def isExpectedSchemaRejection (eventType : JsStr) (delivery : Delivery)
    (attempts : List DeliveryAttempt) : Bool :=
  (eventTypeOf eventType).isSome && delivery.status = .deadLettered &&
    delivery.attemptCount = .finite 1 &&
    match attempts with
    | [attempt] =>
      attempt.status = .completed && attempt.attemptNumber = .finite 1 &&
        attempt.httpStatusCode = some (.finite 400) &&
        attempt.disposition = some .terminalFailure &&
        -- A body that is no JSON text, or `null`, throws and is caught.
        match (parse (attempt.responseBodyExcerpt.getD [])).bind (·.get? (js "code")) with
        | some (.string code) => code = js s!"missing_{(demoEventDefinition eventType).invalidField}"
        | _ => false
    | _ => false

end Frontend

end EventHarbor
