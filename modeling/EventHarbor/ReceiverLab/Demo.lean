import EventHarbor.ReceiverLab.Api
import EventHarbor.Deliveries.Worker
import EventHarbor.Serialization.Datetime

/-!
# The demo service

What the API reads of Receiver Lab: the answer to `GET /control`, validated by
the API's own schemas.
-/

namespace EventHarbor.ReceiverLab

open EventHarbor

/-! ## Schemas of the API -/

inductive ReceiverLabPreset
  | success | retryThenRecover | rateLimited | rateLimitThenRecover | timeout | permanentFailure
  | deadLetter
deriving DecidableEq, Repr

/-- Current deterministic behavior of Receiver Lab. -/
structure ReceiverLabConfigurationResponse where
  mode : PyStr
  failuresBeforeSuccess : ℤ
  delayMs : ℤ
deriving DecidableEq

/-- Bounded receiver-side evidence for one observed webhook. -/
structure ReceiverLabRequestResponse where
  sequence : ℤ
  attempt : ℤ
  eventId : Option PyStr
  deliveryId : Option PyStr
  eventType : Option PyStr
  receiverRoute : PyStr
  deliveryAttempt : Option ℤ
  requestTimestamp : Option ℤ
  receivedAt : Time
  responseStatusCode : ℤ
  receiverMode : PyStr
  signaturePresent : Bool
  bodyPreview : PyStr
  bodySha256 : PyStr
deriving DecidableEq

/-- Control Room-safe Receiver Lab state and recent observations. -/
structure ReceiverLabStateResponse where
  preset : Option ReceiverLabPreset
  configuration : ReceiverLabConfigurationResponse
  attempts : ℤ
  requests : List ReceiverLabRequestResponse
deriving DecidableEq

/-- `extra="forbid"` -/
def forbidsExtra (fields : List String) (members : List (PyStr × Json)) : Bool :=
  members.all fun m => fields.any fun f => m.1 = PyStr.ofString f

/-- A required field of one type. Coercions from other JSON types are left out:
the lab sends every field as the type that is declared. -/
def field {α : Type} (members : List (PyStr × Json)) (read : Json → Option α) (name : String) :
    Option α :=
  (Json.lookup members name).bind read

def readStr : Json → Option PyStr
  | .str s => some s
  | _ => none

/-- `Field(ge=low)` -/
def readInt (ok : ℤ → Bool) : Json → Option ℤ
  | .int n => if ok n then some n else none
  | _ => none

def readBool : Json → Option Bool
  | .bool b => some b
  | _ => none

/-- `T | None`; the bounds of `T` do not concern `None`. -/
def nullable {α : Type} (read : Json → Option α) : Json → Option (Option α)
  | .null => some none
  | j => (read j).map some

/-- `^[0-9a-f]{64}$` -/
def isSha256 (s : PyStr) : Bool :=
  s.length = 64 && s.all fun c => (48 ≤ c.val && c.val ≤ 57) || (97 ≤ c.val && c.val ≤ 102)

def ReceiverLabConfigurationResponse.modelValidate :
    Json → Option ReceiverLabConfigurationResponse
  | .obj ms =>
    if forbidsExtra ["mode", "failures_before_success", "delay_ms"] ms then do
      let mode ← field ms readStr "mode"
      let failuresBeforeSuccess ← field ms (readInt fun _ => true) "failures_before_success"
      let delayMs ← field ms (readInt fun _ => true) "delay_ms"
      return { mode, failuresBeforeSuccess, delayMs }
    else none
  | _ => none

-- The validation of a `datetime` in JSON.
variable (datetimeOf : PyStr → Option Time)

def ReceiverLabRequestResponse.modelValidate : Json → Option ReceiverLabRequestResponse
  | .obj ms =>
    if forbidsExtra ["sequence", "attempt", "event_id", "delivery_id", "event_type",
        "receiver_route", "delivery_attempt", "request_timestamp", "received_at",
        "response_status_code", "receiver_mode", "signature_present", "body_preview",
        "body_sha256"] ms then do
      let sequence ← field ms (readInt (1 ≤ ·)) "sequence"
      let attempt ← field ms (readInt (1 ≤ ·)) "attempt"
      let eventId ← field ms (nullable readStr) "event_id"
      let deliveryId ← field ms (nullable readStr) "delivery_id"
      let eventType ← field ms (nullable readStr) "event_type"
      let receiverRoute ← match Json.lookup ms "receiver_route" with
        | none => some (PyStr.ofString "legacy-generic")
        | some j => readStr j
      let deliveryAttempt ← field ms (nullable (readInt (1 ≤ ·))) "delivery_attempt"
      let requestTimestamp ← field ms (nullable (readInt (0 ≤ ·))) "request_timestamp"
      let receivedAt ← field ms (fun j => (readStr j).bind datetimeOf) "received_at"
      let responseStatusCode ←
        field ms (readInt fun n => 100 ≤ n && n ≤ 599) "response_status_code"
      let receiverMode ← field ms readStr "receiver_mode"
      let signaturePresent ← field ms readBool "signature_present"
      let bodyPreview ← field ms readStr "body_preview"
      let bodySha256 ← field ms (fun j => (readStr j).filter isSha256) "body_sha256"
      return { sequence, attempt, eventId, deliveryId, eventType, receiverRoute, deliveryAttempt,
               requestTimestamp, receivedAt, responseStatusCode, receiverMode, signaturePresent,
               bodyPreview, bodySha256 }
    else none
  | _ => none

/-! ## The answer of the lab -/

def optionJson {α : Type} (f : α → Json) : Option α → Json
  | none => .null
  | some a => f a

def textJson (s : String) : Json := .str (PyStr.ofString s)

/-- `configuration.model_dump()` -/
def ReceiverConfiguration.modelDump (c : ReceiverConfiguration) : Json :=
  .obj [(PyStr.ofString "mode", textJson c.mode.value),
        (PyStr.ofString "failures_before_success", .int c.failuresBeforeSuccess),
        (PyStr.ofString "delay_ms", .int c.delayMs)]

/-- A record as the lab sends it. -/
def RequestRecord.json (q : RequestRecord) : Json :=
  .obj [(PyStr.ofString "sequence", .int q.sequence),
        (PyStr.ofString "attempt", .int q.attempt),
        (PyStr.ofString "event_id", optionJson textJson q.eventId),
        (PyStr.ofString "delivery_id", optionJson textJson q.deliveryId),
        (PyStr.ofString "event_type", optionJson textJson q.eventType),
        (PyStr.ofString "receiver_route", textJson q.receiverRoute),
        (PyStr.ofString "delivery_attempt", optionJson Json.int q.deliveryAttempt),
        (PyStr.ofString "request_timestamp", optionJson Json.int q.requestTimestamp),
        (PyStr.ofString "received_at", .str (PyStr.ofChars (Datetime.isoformat q.receivedAt))),
        (PyStr.ofString "response_status_code", .int q.responseStatusCode),
        (PyStr.ofString "receiver_mode", textJson q.receiverMode),
        (PyStr.ofString "signature_present", .bool q.signaturePresent),
        (PyStr.ofString "body_preview", textJson q.bodyPreview),
        (PyStr.ofString "body_sha256", textJson q.bodySha256)]

/-- The JSON that answers `GET /control`. -/
def controlJson : Answer → Json
  | .control configuration attempts requests =>
    .obj [(PyStr.ofString "configuration", configuration.modelDump),
          (PyStr.ofString "attempts", .int attempts),
          (PyStr.ofString "requests", .arr (requests.map RequestRecord.json))]
  | _ => .null

/-! ## The service -/

/-- One server-owned Receiver Lab configuration. -/
structure ReceiverScenario where
  mode : String
  failuresBeforeSuccess : ℤ
  delayMs : ℤ

def scenarios : List (ReceiverLabPreset × ReceiverScenario) :=
  [(.success, ⟨"success", 0, 0⟩),
   (.retryThenRecover, ⟨"fail_then_succeed", 2, 0⟩),
   (.rateLimited, ⟨"rate_limited", 0, 0⟩),
   (.rateLimitThenRecover, ⟨"rate_limited", 2, 0⟩),
   (.timeout, ⟨"timeout", 0, 7000⟩),
   (.permanentFailure, ⟨"permanent_failure", 0, 0⟩),
   -- Receiver Lab permits at most twenty seeded failures. That is intentionally
   -- greater than EventHarbor's local worker attempt budget, guaranteeing a DLQ item.
   (.deadLetter, ⟨"fail_then_succeed", 20, 0⟩)]

namespace ReceiverLabDemoService

def unavailable : Error := .domain {
  statusCode := 503
  code := "receiver_lab_unavailable"
  title := "Receiver Lab is unavailable"
  detail := "The local Receiver Lab did not return a valid response. Check its service health." }

def identifyPreset (configuration : ReceiverLabConfigurationResponse) : Option ReceiverLabPreset :=
  (scenarios.find? fun s => configuration.mode = PyStr.ofString s.2.mode &&
    configuration.failuresBeforeSuccess = s.2.failuresBeforeSuccess &&
    configuration.delayMs = s.2.delayMs).map Prod.fst

/-- The part of `state` that reads the payload. -/
def readPayload : Json → Option ReceiverLabStateResponse
  | .obj payload => do
    let configuration ← field payload ReceiverLabConfigurationResponse.modelValidate "configuration"
    let attempts ← field payload (readInt fun _ => true) "attempts"
    let rawRequests ← match Json.lookup payload "requests" with
      | none => some []
      | some (.arr items) => some items
      | some _ => none
    let requests ← (Recency.lastN 20 rawRequests).mapM
      (ReceiverLabRequestResponse.modelValidate datetimeOf)
    return { preset := identifyPreset configuration, configuration, attempts, requests }
  | _ => none

/-- `normalized_demo_run_id(run_id) == run_id` -/
def isRunId (runId : String) : Bool :=
  DeliveryWorker.normalizedDemoRunId (some (.str (PyStr.ofString runId))) = some runId

/-- `state`, with the lab it reads. -/
def state (lib : ReceiverLib) (lab : ReceiverState) (runId : Option String) :
    ReceiverState × Except Error ReceiverLabStateResponse :=
  if runId.all isRunId then
    let (lab', answer) := lab.step lib (.controlState runId)
    match readPayload datetimeOf (controlJson answer) with
    | some response => (lab', .ok response)
    | none => (lab', .error unavailable)
  else (lab, .error (.value "run_id must be a bounded, header-safe identifier"))

end ReceiverLabDemoService

end EventHarbor.ReceiverLab
