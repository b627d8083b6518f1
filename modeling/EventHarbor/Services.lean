import EventHarbor.Repositories

/-!
# Endpoint registration, ingestion and manual replay

The application services, each run in the caller's transaction. What the
process supplies (drawn UUIDs, clock readings, the transaction's `now()`) is an
argument; the hash, the float representation and the JSON reader are `Lib`.
-/

namespace EventHarbor

open Relational Txn

/-- The library functions the services call. -/
structure Lib where
  /-- `sha256(..).hexdigest()` -/
  sha256Hex : Bytes → String
  /-- `float.__repr__` -/
  floatRepr : PyFloat → List Char
  /-- `json.loads`, with `none` for a `JSONDecodeError` -/
  jsonLoads : String → Option Json
  /-- `datetime.astimezone(UTC).isoformat()`, with the offset written `Z` -/
  jsonTimestamp : Time → String

def localSource : String := "local-api"

/-! ## Endpoints -/

def receiverLabRoutes : List String := ["orders", "shipping", "inventory"]

/-- `text.rstrip("/")` -/
def rstripSlash (s : String) : String :=
  String.ofList (s.toList.reverse.dropWhile (· = '/')).reverse

structure EndpointCreateRequest where
  name : String
  url : String

/-- Drawn when an endpoint is registered. -/
structure EndpointDraw where
  id : UUID
  secret : Bytes
  createdAt : Time
  updatedAt : Time

namespace EndpointService

def create (receiverLabUrl : String) (request : EndpointCreateRequest) (draw : EndpointDraw) :
    Tx Endpoint := do
  let receiverBase := rstripSlash receiverLabUrl
  let allowedUrls := receiverBase :: receiverLabRoutes.map fun route => s!"{receiverBase}/{route}"
  if rstripSlash request.url ∉ allowedUrls then
    fail (.domain {
      statusCode := 422
      code := "receiver_url_not_allowed"
      title := "Endpoint URL is not allowed"
      detail := "This local milestone accepts only the configured Receiver Lab " ++
        s!"routes under {receiverBase}." })
  else
    let endpoint : Endpoint := {
      id := draw.id
      name := request.name
      targetUrl := request.url
      signingSecret := draw.secret
      secretVersion := 1
      enabled := true
      createdAt := draw.createdAt
      updatedAt := draw.updatedAt }
    EndpointRepository.create endpoint
    return endpoint

/-- An operator enables or disables an endpoint; `now` is the transaction's `now()`. -/
def setEnabled (endpointId : UUID) (enabled : Bool) (now : Time) : Tx Bool := do
  match ← EndpointRepository.get endpointId with
  | none => return false
  | some _ =>
    acquire (.endpoint endpointId .noKeyUpdate)
    match ← EndpointRepository.get endpointId with
    | none => return false
    | some row =>
      exec (.updateEndpoint { row with enabled := enabled, updatedAt := now })
      return true

end EndpointService

/-! ## Ingestion -/

/-- One event and the explicit endpoint that should receive it. -/
structure EventPublishRequest where
  endpointId : UUID
  type : String
  data : List (PyStr × Json)
  distinct : Json.membersDistinct data = true

/-- Drawn by one publication. -/
structure PublishDraw where
  eventId : UUID
  deliveryId : UUID
  createdAt : Time
  /-- `now()` of the transaction, the default of `next_attempt_at` -/
  transactionNow : Time

structure PublishedEvent where
  event : Event
  delivery : Delivery
  idempotentReplay : Bool

namespace EventService

def endpointNotFound (endpointId : UUID) : Error := .domain {
  statusCode := 404
  code := "endpoint_not_found"
  title := "Endpoint not found"
  detail := s!"Endpoint {endpointId.str} does not exist." }

def invalidEventData : Error := .domain {
  statusCode := 422
  code := "invalid_event_data"
  title := "Event data is not valid JSON"
  detail := "Event data must contain only finite, JSON-compatible values." }

def endpointDisabled (endpointId : UUID) : Error := .domain {
  statusCode := 409
  code := "endpoint_disabled"
  title := "Endpoint is disabled"
  detail := s!"Endpoint {endpointId.str} cannot accept new deliveries." }

def idempotencyKeyReused : Error := .domain {
  statusCode := 409
  code := "idempotency_key_reused"
  title := "Idempotency key was reused"
  detail := "The same Idempotency-Key was already used with a different request." }

/-- The request fields that define idempotency equality. -/
def fingerprintDocument (request : EventPublishRequest) : Json :=
  .obj [(PyStr.ofString "endpoint_id", .str (PyStr.ofChars request.endpointId.chars)),
        (PyStr.ofString "type", .str (PyStr.ofString request.type)),
        (PyStr.ofString "data", .obj request.data)]

/-- `canonical_sha256` of the fingerprint document. -/
def fingerprint (lib : Lib) (request : EventPublishRequest) : Except CanonicalError String :=
  (canonicalJsonBytes lib.floatRepr (fingerprintDocument request)).map lib.sha256Hex

/-- The outbound body. -/
def bodyDocument (lib : Lib) (request : EventPublishRequest) (draw : PublishDraw) : Json :=
  .obj [(PyStr.ofString "id", .str (PyStr.ofChars draw.eventId.chars)),
        (PyStr.ofString "type", .str (PyStr.ofString request.type)),
        (PyStr.ofString "created_at", .str (PyStr.ofString (lib.jsonTimestamp draw.createdAt))),
        (PyStr.ofString "data", .obj request.data)]

def candidate (lib : Lib) (request : EventPublishRequest) (idempotencyKey : String)
    (draw : PublishDraw) (fingerprint : String) (payloadBytes : Bytes) : Event where
  id := draw.eventId
  source := localSource
  eventType := request.type
  idempotencyKey := idempotencyKey
  payload := request.data
  payloadBytes := payloadBytes
  requestFingerprintSha256 := fingerprint
  payloadSha256 := lib.sha256Hex payloadBytes
  createdAt := draw.createdAt

def initialDelivery (endpoint : Endpoint) (draw : PublishDraw) : Delivery where
  id := draw.deliveryId
  eventId := draw.eventId
  endpointId := endpoint.id
  replayGeneration := 0
  replayedFromDeliveryId := none
  replayIdempotencyKey := none
  status := .pending
  attemptCount := 0
  nextAttemptAt := some draw.transactionNow
  leaseOwner := none
  leaseExpiresAt := none
  leaseToken := none
  deliveredAt := none
  lastError := none
  createdAt := draw.createdAt
  updatedAt := draw.createdAt

def resolveIdempotentReplay (endpointId : UUID) (idempotencyKey fingerprint : String) :
    Tx PublishedEvent := do
  match ← EventRepository.getByIdempotencyKey localSource idempotencyKey with
  | none => fail (.runtime "conflicting event could not be read after ON CONFLICT")
  | some event =>
    if event.requestFingerprintSha256 ≠ fingerprint then fail idempotencyKeyReused
    else
      match ← DeliveryRepository.getInitial event.id endpointId with
      | none => fail (.runtime "accepted event is missing its initial delivery")
      | some delivery => return { event, delivery, idempotentReplay := true }

/-- The statements after the event row was inserted. -/
def acceptInserted (request : EventPublishRequest) (draw : PublishDraw) (endpoint : Endpoint)
    (event : Event) : Tx PublishedEvent :=
  if ¬endpoint.enabled then fail (endpointDisabled request.endpointId)
  else do
    let delivery := initialDelivery endpoint draw
    DeliveryRepository.create delivery
    match ← EventRepository.get event.id with
    | none => fail (.runtime "inserted event could not be read in its transaction")
    | some event => return { event, delivery, idempotentReplay := false }

/-- The statements after the event's values are known. -/
def accept (request : EventPublishRequest) (draw : PublishDraw) (endpoint : Endpoint)
    (event : Event) : Tx PublishedEvent := do
  if ← EventRepository.insertIfAbsent event then acceptInserted request draw endpoint event
  else
    resolveIdempotentReplay request.endpointId event.idempotencyKey event.requestFingerprintSha256

def publish (lib : Lib) (request : EventPublishRequest) (idempotencyKey : String)
    (draw : PublishDraw) : Tx PublishedEvent := do
  match ← EndpointRepository.get request.endpointId with
  | none => fail (endpointNotFound request.endpointId)
  | some endpoint =>
    match fingerprint lib request with
    | .error .canonicalJSON => fail invalidEventData
    | .error .unicodeEncode => fail .unicodeEncode
    | .ok digest =>
      match canonicalJsonBytes lib.floatRepr (bodyDocument lib request draw) with
      | .error .canonicalJSON => fail (.value "value is not valid JSON")
      | .error .unicodeEncode => fail .unicodeEncode
      | .ok payloadBytes =>
        accept request draw endpoint
          (candidate lib request idempotencyKey draw digest payloadBytes)

end EventService

/-! ## Manual replay -/

/-- Drawn by one replay request. -/
structure ReplayDraw where
  id : UUID
  now : Time
  transactionNow : Time

structure ReplayedDelivery where
  sourceDelivery : Delivery
  delivery : Delivery
  idempotentReplay : Bool

namespace ReplayService

def deliveryNotFound (deliveryId : UUID) : Error := .domain {
  statusCode := 404
  code := "delivery_not_found"
  title := "Delivery not found"
  detail := s!"Delivery {deliveryId.str} does not exist." }

def replaySourceSuperseded (deliveryId latestId : UUID) : Error := .domain {
  statusCode := 409
  code := "replay_source_superseded"
  title := "Replay source has been superseded"
  detail := s!"Delivery {deliveryId.str} has already been superseded by delivery {latestId.str}." }

def deliveryNotReplayable (deliveryId : UUID) (status : DeliveryStatus) : Error := .domain {
  statusCode := 409
  code := "delivery_not_replayable"
  title := "Delivery is not replayable"
  detail := s!"Delivery {deliveryId.str} has status {status.value}; only the latest " ++
    "dead-lettered generation can be replayed." }

def payloadCorrectionRequired (code : ReplayBlockCode) : Error := .domain {
  statusCode := 409
  code := code.value
  title := "Payload correction is required"
  detail := "The receiver permanently rejected this immutable payload. Publish a " ++
    "corrected event instead of replaying the unchanged body." }

def activeDeliveryExists (activeId : UUID) : Error := .domain {
  statusCode := 409
  code := "active_delivery_exists"
  title := "An active delivery already exists"
  detail := s!"Delivery {activeId.str} is already active for this event and endpoint." }

def endpointDisabled (endpointId : UUID) : Error := .domain {
  statusCode := 409
  code := "endpoint_disabled"
  title := "Endpoint is disabled"
  detail := s!"Endpoint {endpointId.str} cannot accept a replay delivery." }

/-- The successor of a dead-lettered delivery. -/
def successor (source : Delivery) (idempotencyKey : String) (draw : ReplayDraw) : Delivery where
  id := draw.id
  eventId := source.eventId
  endpointId := source.endpointId
  replayGeneration := source.replayGeneration + 1
  replayedFromDeliveryId := some source.id
  replayIdempotencyKey := some idempotencyKey
  status := .pending
  attemptCount := 0
  nextAttemptAt := some draw.transactionNow
  leaseOwner := none
  leaseExpiresAt := none
  leaseToken := none
  deliveredAt := none
  lastError := none
  createdAt := draw.now
  updatedAt := draw.now

/-- The block code of a delivery's last attempt, if it has one. -/
def lastBlockCode (lib : Lib) (attempts : List DeliveryAttempt) : Option ReplayBlockCode :=
  attempts.getLast?.bind fun a =>
    replayBlockCode lib.jsonLoads a.httpStatusCode a.responseBodyExcerpt

/-- The checks on a locked source that has no successor under this key. -/
def supersede (lib : Lib) (loaded : IdentityMap) (source : Delivery) (idempotencyKey : String)
    (draw : ReplayDraw) : Tx ReplayedDelivery := do
  match ← DeliveryRepository.getLatest loaded source.eventId source.endpointId with
  | none => fail (.runtime "delivery chain has no latest generation")
  | some latest =>
    if latest.id ≠ source.id then fail (replaySourceSuperseded source.id latest.id)
    else if source.status ≠ .deadLettered then
      fail (deliveryNotReplayable source.id source.status)
    else
      match lastBlockCode lib (← DeliveryRepository.listAttempts source.id) with
      | some code => fail (payloadCorrectionRequired code)
      | none =>
        match ← DeliveryRepository.getActive loaded source.eventId source.endpointId with
        | some active => fail (activeDeliveryExists active.id)
        | none =>
          match ← EndpointRepository.get source.endpointId with
          | none => fail (.runtime "delivery references an endpoint that does not exist")
          | some endpoint =>
            if ¬endpoint.enabled then fail (endpointDisabled endpoint.id)
            else
              let replay := successor source idempotencyKey draw
              DeliveryRepository.create replay
              return { sourceDelivery := source, delivery := replay, idempotentReplay := false }

/-- The statements on a locked source. -/
def replayLocked (lib : Lib) (loaded : IdentityMap) (source : Delivery) (idempotencyKey : String)
    (draw : ReplayDraw) : Tx ReplayedDelivery := do
  match ← DeliveryRepository.getByReplayRequest loaded source.id idempotencyKey with
  | some existing =>
    return { sourceDelivery := source, delivery := existing, idempotentReplay := true }
  | none => supersede lib loaded source idempotencyKey draw

def replay (lib : Lib) (deliveryId : UUID) (idempotencyKey : String) (draw : ReplayDraw) :
    Tx ReplayedDelivery := do
  match ← DeliveryRepository.get deliveryId with
  | none => fail (deliveryNotFound deliveryId)
  | some candidate =>
    let loaded : IdentityMap := [candidate]
    match ← EventRepository.getForUpdate candidate.eventId with
    | none => fail (.runtime "delivery references an event that could not be locked")
    | some _ =>
      match ← DeliveryRepository.getForUpdate loaded deliveryId with
      | none => fail (.runtime "delivery disappeared after its event was locked")
      | some source => replayLocked lib loaded source idempotencyKey draw

end ReplayService

/-- The body of an accepted replay. A retry reproduces the original acceptance,
so the status is always `pending`. -/
structure ReplayAcceptedResponse where
  sourceDeliveryId : UUID
  deliveryId : UUID
  eventId : UUID
  endpointId : UUID
  replayGeneration : ℕ
  status : DeliveryStatus
  createdAt : Time
deriving DecidableEq

def ReplayedDelivery.accepted (r : ReplayedDelivery) : ReplayAcceptedResponse where
  sourceDeliveryId := r.sourceDelivery.id
  deliveryId := r.delivery.id
  eventId := r.delivery.eventId
  endpointId := r.delivery.endpointId
  replayGeneration := r.delivery.replayGeneration
  status := .pending
  createdAt := r.delivery.createdAt

end EventHarbor
