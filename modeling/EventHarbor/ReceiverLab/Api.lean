import EventHarbor.Serialization.Loads
import EventHarbor.Deliveries.Transport
import EventHarbor.Collections.Recency

/-!
# Receiver Lab

The deterministic webhook receiver: its contracts, the bounded registry of
runs, and the four operations on it. Each operation is one critical section of
the receiver's lock.
-/

namespace EventHarbor.ReceiverLab

open EventHarbor Recency

def maxScopedRuns : ℕ := 100

def maxRequestsPerRun : ℕ := 100

def controlRequestLimit : ℕ := 20

def rateLimitRetryAfterSeconds : ℕ := 5

structure ReceiverContract where
  route : String
  requiredText : List String
  requiredPositiveInteger : List String

def receiverContracts : List (String × ReceiverContract) :=
  [("order.paid", {
      route := "orders"
      requiredText := ["order_id", "customer_id", "currency"]
      requiredPositiveInteger := ["amount_cents"] }),
   -- Retained with its original contract so older stopped events remain replayable.
   ("demo.order.paid", {
      route := "orders"
      requiredText := ["order_id"]
      requiredPositiveInteger := [] }),
   ("shipment.dispatched", {
      route := "shipping"
      requiredText := ["shipment_id", "order_id", "carrier", "tracking_number"]
      requiredPositiveInteger := [] }),
   ("inventory.threshold_reached", {
      route := "inventory"
      requiredText := ["sku", "warehouse_id"]
      requiredPositiveInteger := ["quantity_remaining", "reorder_threshold"] })]

inductive ReceiverMode
  | success | failThenSucceed | rateLimited | timeout | permanentFailure
deriving DecidableEq, Repr

def ReceiverMode.value : ReceiverMode → String
  | success => "success"
  | failThenSucceed => "fail_then_succeed"
  | rateLimited => "rate_limited"
  | timeout => "timeout"
  | permanentFailure => "permanent_failure"

structure ReceiverConfiguration where
  mode : ReceiverMode := .success
  failuresBeforeSuccess : ℕ := 0
  delayMs : ℕ := 0
  failures_le : failuresBeforeSuccess ≤ 20 := by decide
  delay_le : delayMs ≤ 30000 := by decide
deriving DecidableEq

theorem ReceiverConfiguration.no_failures : 0 ≤ 20 := by decide

theorem ReceiverConfiguration.no_delay : 0 ≤ 30000 := by decide

def ReceiverConfiguration.initial : ReceiverConfiguration where
  failures_le := no_failures
  delay_le := no_delay

/-- The library functions the receiver calls. -/
structure ReceiverLib where
  /-- `json.loads` on bytes -/
  loads : Bytes → Except LoadsError Json
  /-- `sha256(..).hexdigest()` -/
  sha256Hex : Bytes → String

/-! ## Validation -/

/-- `text.strip()` -/
def strip (s : PyStr) : PyStr :=
  let isSpace := fun c : CodePoint => isPySpace (Char.ofNat c.val)
  ((s.dropWhile isSpace).reverse.dropWhile isSpace).reverse

/-- Not a string with visible characters. -/
def blankText : Option Json → Bool
  | some (.str s) => (strip s).isEmpty
  | _ => true

/-- Not an integer above zero; booleans are not integers here. -/
def notPositiveInteger : Option Json → Bool
  | some (.int n) => n ≤ 0
  | _ => true

def textError (data : List (PyStr × Json)) (field : String) : Option (String × String) :=
  if blankText (Json.lookup data field) then
    some (s!"missing_{field}", s!"data.{field} is required.")
  else none

def integerError (data : List (PyStr × Json)) (field : String) : Option (String × String) :=
  if notPositiveInteger (Json.lookup data field) then
    some (s!"invalid_{field}", s!"data.{field} must be a positive integer.")
  else none

def currencyError (eventType : String) (data : List (PyStr × Json)) : Option (String × String) :=
  if eventType = "order.paid" then
    match Json.lookup data "currency" with
    | some (.str s) =>
      if (strip s).length ≠ 3 then
        some ("invalid_currency", "data.currency must be a three-letter code.")
      else none
    | _ => some ("invalid_currency", "data.currency must be a three-letter code.")
  else none

/-- The contract that the payload's type names. -/
def contractOf (payload : List (PyStr × Json)) : Option (String × ReceiverContract) :=
  match Json.lookup payload "type" with
  | some (.str eventType) => receiverContracts.find? fun c => PyStr.ofString c.1 = eventType
  | _ => none

/-- The data of a known event, in the order its fields are checked. -/
def dataError (eventType : String) (contract : ReceiverContract) (data : List (PyStr × Json)) :
    Option (String × String) :=
  (contract.requiredText.findSome? (textError data)).or
    ((contract.requiredPositiveInteger.findSome? (integerError data)).or
      (currencyError eventType data))

def contractError (eventType : String) (contract : ReceiverContract)
    (receiverChannel : Option String) (payload : List (PyStr × Json)) : Option (String × String) :=
  if receiverChannel.isSome && receiverChannel ≠ some contract.route then
    some ("wrong_receiver_route", s!"{eventType} must be sent to /webhooks/{contract.route}.")
  else
    match Json.lookup payload "data" with
    | some (.obj data) => dataError eventType contract data
    | _ => some ("invalid_data", "data must be a JSON object.")

/-- Validate a known business event against the receiver route it selected. A
plain `ValueError` of `json.loads` is not caught. -/
def payloadValidationError (loads : Bytes → Except LoadsError Json) (body : Bytes)
    (receiverChannel : Option String) (validateUnknown : Bool) :
    Except LoadsError (Option (String × String)) :=
  match loads body with
  | .error .value => .error .value
  | .error _ => .ok (some ("invalid_json", "The webhook body must be valid JSON."))
  | .ok (.obj payload) =>
    match contractOf payload with
    | none =>
      if validateUnknown then
        .ok (some ("unsupported_event_type", "type must name a Receiver Lab event contract."))
      else .ok none
    | some (eventType, contract) => .ok (contractError eventType contract receiverChannel payload)
  | .ok _ => .ok (some ("invalid_payload", "The webhook body must be a JSON object."))

/-! ## Runs -/

/-- A request to `/webhooks` with the headers the receiver reads. -/
structure Webhook where
  body : Bytes
  receiverChannel : Option String
  eventId : Option String
  deliveryId : Option String
  eventType : Option String
  deliveryAttempt : Option ℤ
  requestTimestamp : Option ℤ
  signature : Option String
  demoRunId : Option String
  receivedAt : Time

/-- The record of one webhook. -/
structure RequestRecord where
  sequence : ℕ
  attempt : ℕ
  eventId : Option String
  deliveryId : Option String
  eventType : Option String
  receiverRoute : String
  deliveryAttempt : Option ℤ
  requestTimestamp : Option ℤ
  receivedAt : Time
  responseStatusCode : ℤ
  receiverMode : String
  signaturePresent : Bool
  bodyPreview : String
  bodySha256 : String
deriving DecidableEq

/-- Independent deterministic behavior and evidence for one demo run. -/
structure ReceiverRunState where
  configuration : ReceiverConfiguration := .initial
  scenarioAttempts : ℕ := 0
  sequence : ℕ := 0
  requests : List RequestRecord := []
deriving DecidableEq

structure WebhookResponse where
  statusCode : ℤ
  code : String
  detail : String
  retryAfter : Option String
deriving DecidableEq

/-- What the caller of the handler gets: a response or the exception. -/
abbrev Handled := Except LoadsError WebhookResponse

/-- Every mode and route that looks at unknown event types. -/
def validateUnknown (receiverChannel : Option String) (configuration : ReceiverConfiguration) :
    Bool :=
  receiverChannel.isSome || configuration.mode = .permanentFailure

/-- The status of a valid body at the given attempt. -/
def scenarioStatus (configuration : ReceiverConfiguration) (attempt : ℕ) : ℤ :=
  match configuration.mode with
  | .rateLimited =>
    -- A zero failure count preserves the sustained-rate-limit test mode.
    if configuration.failuresBeforeSuccess = 0 ∨ attempt ≤ configuration.failuresBeforeSuccess then
      429
    else 200
  | .failThenSucceed => if attempt ≤ configuration.failuresBeforeSuccess then 503 else 200
  | _ => 200

def responseEvidence (statusCode : ℤ) (validationError : Option (String × String)) :
    String × String :=
  match validationError with
  | some e => e
  | none =>
    if statusCode = 429 then
      ("rate_limited",
        s!"Receiver Lab asked the worker to retry after {rateLimitRetryAfterSeconds} seconds.")
    else if statusCode = 503 then
      ("temporarily_unavailable", "Receiver Lab is in the controlled unavailable state.")
    else ("accepted", "Receiver Lab accepted the webhook.")

/-- `receive_webhook` on the run it was routed to. The counters advance before
the body is read, so they stay advanced when reading it raises. -/
def ReceiverRunState.receive (lib : ReceiverLib) (run : ReceiverRunState) (w : Webhook) :
    ReceiverRunState × Handled :=
  let attempt := run.scenarioAttempts + 1
  let sequence := run.sequence + 1
  let advanced := { run with scenarioAttempts := attempt, sequence := sequence }
  match payloadValidationError lib.loads w.body w.receiverChannel
      (validateUnknown w.receiverChannel run.configuration) with
  | .error e => (advanced, .error e)
  | .ok validationError =>
    let statusCode :=
      if validationError.isSome then 400 else scenarioStatus run.configuration attempt
    let (code, detail) := responseEvidence statusCode validationError
    let record : RequestRecord := {
      sequence := sequence
      attempt := attempt
      eventId := w.eventId
      deliveryId := w.deliveryId
      eventType := w.eventType
      receiverRoute := match w.receiverChannel with
        | some "" | none => "legacy-generic"
        | some channel => channel
      deliveryAttempt := w.deliveryAttempt
      requestTimestamp := w.requestTimestamp
      receivedAt := w.receivedAt
      responseStatusCode := statusCode
      receiverMode := run.configuration.mode.value
      signaturePresent := w.signature.isSome
      bodyPreview := String.ofList (decodeReplace (w.body.take 1024))
      bodySha256 := lib.sha256Hex w.body }
    ({ advanced with requests := lastN maxRequestsPerRun (run.requests ++ [record]) },
     .ok {
       statusCode := statusCode
       code := code
       detail := detail
       retryAfter :=
         if statusCode = 429 then some (toString rateLimitRetryAfterSeconds) else none })

/-! ## The registry -/

/-- Bounded run registry plus a backward-compatible unscoped state. The oldest
touched run comes first. -/
structure ReceiverState where
  default : ReceiverRunState := {}
  scopedRuns : List (String × ReceiverRunState) := []
deriving DecidableEq

/-- `while len(scoped) > MAX_SCOPED_RUNS: scoped.popitem(last=False)` -/
def evict (scopedRuns : List (String × ReceiverRunState)) : List (String × ReceiverRunState) :=
  lastN maxScopedRuns scopedRuns

def ReceiverState.find (s : ReceiverState) (runId : String) : Option ReceiverRunState :=
  (s.scopedRuns.find? (·.1 = runId)).map Prod.snd

/-- The run moves to the end of the registry. -/
def ReceiverState.reinsert (s : ReceiverState) (runId : String) (run : ReceiverRunState) :
    List (String × ReceiverRunState) :=
  s.scopedRuns.filter (·.1 ≠ runId) ++ [(runId, run)]

/-- Return or create an LRU-bounded state for a control-plane request, which
does `f` with it. -/
def ReceiverState.configuredState {α : Type} (s : ReceiverState) (runId : Option String)
    (f : ReceiverRunState → ReceiverRunState × α) : ReceiverState × α :=
  match runId with
  | none => ({ s with default := (f s.default).1 }, (f s.default).2)
  | some r =>
    let run := (s.find r).getD {}
    ({ s with scopedRuns := evict (s.reinsert r (f run).1) }, (f run).2)

/-- Use an existing scoped state, falling back for legacy unscoped clients. -/
def ReceiverState.webhookState {α : Type} (s : ReceiverState) (runId : Option String)
    (f : ReceiverRunState → ReceiverRunState × α) : ReceiverState × α :=
  match runId.bind fun r => (s.find r).map (r, ·) with
  | none => ({ s with default := (f s.default).1 }, (f s.default).2)
  | some (r, run) => ({ s with scopedRuns := s.reinsert r (f run).1 }, (f run).2)

inductive Operation
  | configure (runId : Option String) (configuration : ReceiverConfiguration)
  | controlState (runId : Option String)
  | listRequests (runId : Option String)
  | receiveWebhook (w : Webhook)

inductive Answer
  | configured (configuration : ReceiverConfiguration) (attempts : ℕ)
  | control (configuration : ReceiverConfiguration) (attempts : ℕ) (requests : List RequestRecord)
  | requests (count : ℕ) (requests : List RequestRecord)
  | webhook (handled : Handled)

/-- What an operation does to its run. -/
def Operation.onRun (lib : ReceiverLib) (op : Operation) (run : ReceiverRunState) :
    ReceiverRunState × Answer :=
  match op with
  | configure _ configuration =>
    ({ run with configuration := configuration, scenarioAttempts := 0 }, .configured configuration 0)
  | controlState _ =>
    (run, .control run.configuration run.scenarioAttempts (lastN controlRequestLimit run.requests))
  | listRequests _ => (run, .requests run.requests.length run.requests)
  | receiveWebhook w => ((run.receive lib w).1, .webhook (run.receive lib w).2)

/-- One operation on the receiver. -/
def ReceiverState.step (lib : ReceiverLib) (s : ReceiverState) (op : Operation) :
    ReceiverState × Answer :=
  match op with
  | .configure runId _ | .controlState runId | .listRequests runId =>
    s.configuredState runId (op.onRun lib)
  | .receiveWebhook w => s.webhookState w.demoRunId (op.onRun lib)

/-! ## The answer on the wire -/

/-- The body of a `JSONResponse`: compact, not ASCII-escaped, keys as inserted. -/
def responseBody (code detail : String) : Bytes :=
  (encodeUtf8 (CodePoint.ofChar '{' ::
    (joinComma [memberText (PyStr.ofString "code", quote (PyStr.ofString code)),
      memberText (PyStr.ofString "detail", quote (PyStr.ofString detail))] ++
      [CodePoint.ofChar '}']))).getD []

/-- What an HTTP client sees; an exception becomes a plain 500. -/
def outcome : Handled → HttpOutcome
  | .ok r => .response r.statusCode (responseBody r.code r.detail) r.retryAfter
  | .error _ => .response 500 ("Internal Server Error".toUTF8.toList) none

end EventHarbor.ReceiverLab
