import EventHarbor.Collections.Keyset
import EventHarbor.Repositories
import EventHarbor.Serialization.Cursor
import EventHarbor.Services
import Mathlib.Data.Prod.Lex

/-!
# Control Room reads

Bounded read models for the operator: the overview, whose counts are separate
statements, and the three collections, each read page by page in descending
key order.
-/

namespace EventHarbor

open Relational Txn

/-! ## Pages -/

/-- Keys are compared by timestamp and then by row id. -/
instance : LinearOrder PageCursor :=
  LinearOrder.lift' (fun c => toLex (c.timestamp, c.rowId)) fun a b h => by
    cases a
    cases b
    simpa using h

structure Page (α : Type) where
  items : List α
  nextCursor : Option PyStr

/-- The page of a query after a cursor. -/
def Page.of {α : Type} (key : α → PageCursor) (limit : ℕ) (cursor : Option PageCursor)
    (rows : List α) : Page α :=
  let slice := Keyset.slice key limit cursor rows
  { items := slice.items, nextCursor := slice.next.map encodeCursor }

structure EventListRecord where
  event : Event
  latestDelivery : Delivery
  endpoint : Endpoint

structure DeadLetterRecord where
  event : Event
  delivery : Delivery
  endpoint : Endpoint
  lastHttpStatusCode : Option ℤ
  lastResponseBodyExcerpt : Option String

structure OverviewSnapshot where
  generatedAt : Time
  eventsTotal : ℕ
  endpointsTotal : ℕ
  endpointsEnabled : ℕ
  /-- The statuses that occur, with their counts. -/
  deliveriesByStatus : List (DeliveryStatus × ℕ)
  actionableDeadLetters : ℕ
deriving DecidableEq

namespace ControlRoom

/-- `_latest_generation_condition`: no newer generation of the same event and endpoint. -/
def latestGenerationCondition (db : Db) (d : Delivery) : Bool :=
  !db.deliveries.rows.any fun newer => newer.eventId = d.eventId &&
    newer.endpointId = d.endpointId && d.replayGeneration < newer.replayGeneration

/-- `generation_count` of a listed event, from its latest delivery. -/
def generationCount (latestDelivery : Delivery) : ℕ := latestDelivery.replayGeneration + 1

/-- The optional equality conditions of a listing. -/
def matchesFilter {α : Type} [DecidableEq α] (wanted : Option α) (value : α) : Bool :=
  match wanted with
  | none => true
  | some w => value = w

/-! ## Events -/

/-- The joined rows of `list_events`, before its cursor. -/
def eventRows (eventType : Option String) (endpointId : Option UUID)
    (deliveryStatus : Option DeliveryStatus) (db : Db) : List EventListRecord :=
  db.events.rows.flatMap fun event =>
    (db.deliveries.rows.filter fun delivery => delivery.eventId = event.id &&
      latestGenerationCondition db delivery && matchesFilter eventType event.eventType &&
      matchesFilter endpointId delivery.endpointId &&
      matchesFilter deliveryStatus delivery.status).flatMap fun delivery =>
        (db.endpoints.rows.filter (·.id = delivery.endpointId)).map fun endpoint =>
          ⟨event, delivery, endpoint⟩

def eventKey (r : EventListRecord) : PageCursor := ⟨r.event.createdAt, r.event.id⟩

def listEvents (limit : ℕ) (cursor : Option PageCursor) (eventType : Option String)
    (endpointId : Option UUID) (deliveryStatus : Option DeliveryStatus) (db : Db) :
    Page EventListRecord :=
  .of eventKey limit cursor (eventRows eventType endpointId deliveryStatus db)

/-! ## Endpoints -/

def endpointKey (e : Endpoint) : PageCursor := ⟨e.createdAt, e.id⟩

def listEndpoints (limit : ℕ) (cursor : Option PageCursor) (db : Db) : Page Endpoint :=
  .of endpointKey limit cursor db.endpoints.rows

/-! ## Dead letters -/

/-- `ORDER BY attempt_number DESC LIMIT 1` -/
def lastAttempt (deliveryId : UUID) (db : Db) : Option DeliveryAttempt :=
  ((db.attempts.rows.filter (·.deliveryId = deliveryId)).insertionSort
    fun a b => b.attemptNumber ≤ a.attemptNumber).head?

/-- The joined rows of `list_dead_letters`, before its cursor. -/
def deadLetterRows (endpointId : Option UUID) (db : Db) : List DeadLetterRecord :=
  (db.deliveries.rows.filter fun delivery => delivery.status = .deadLettered &&
    latestGenerationCondition db delivery && matchesFilter endpointId delivery.endpointId).flatMap
      fun delivery => (db.events.rows.filter (·.id = delivery.eventId)).flatMap fun event =>
        (db.endpoints.rows.filter (·.id = delivery.endpointId)).map fun endpoint =>
          { event, delivery, endpoint
            lastHttpStatusCode := (lastAttempt delivery.id db).bind (·.httpStatusCode)
            lastResponseBodyExcerpt := (lastAttempt delivery.id db).bind (·.responseBodyExcerpt) }

def deadLetterKey (r : DeadLetterRecord) : PageCursor := ⟨r.delivery.updatedAt, r.delivery.id⟩

def listDeadLetters (limit : ℕ) (cursor : Option PageCursor) (endpointId : Option UUID) (db : Db) :
    Page DeadLetterRecord :=
  .of deadLetterKey limit cursor (deadLetterRows endpointId db)

/-! ## Overview -/

def statuses : List DeliveryStatus := [.pending, .inProgress, .retryWait, .delivered, .deadLettered]

/-- The deliveries of a status that no newer generation follows. -/
def latestCount (status : DeliveryStatus) (db : Db) : ℕ :=
  db.deliveries.rows.countP fun d => d.status = status && latestGenerationCondition db d

/-- `GROUP BY status` over the latest generations. -/
def statusRows (db : Db) : List (DeliveryStatus × ℕ) :=
  (statuses.map fun s => (s, latestCount s db)).filter fun r => 0 < r.2

/-- Five statements; `clock` is `clock_timestamp()` at the first. -/
def overview (clock : Option Time) : Tx OverviewSnapshot := do
  let generatedAt ← query fun _ => clock
  let eventsTotal ← query fun db => db.events.rows.length
  let endpointCounts ← query fun db =>
    (db.endpoints.rows.length, db.endpoints.rows.countP (·.enabled))
  let deliveriesByStatus ← query statusRows
  let actionableDeadLetters ← query (latestCount .deadLettered)
  match generatedAt with
  | none => fail (.runtime "PostgreSQL did not return a dashboard timestamp")
  | some generatedAt => return {
      generatedAt, eventsTotal
      endpointsTotal := endpointCounts.1
      endpointsEnabled := endpointCounts.2
      deliveriesByStatus, actionableDeadLetters }

end ControlRoom

/-- `counts.get(status, 0)` -/
def OverviewSnapshot.count (o : OverviewSnapshot) (status : DeliveryStatus) : ℕ :=
  ((o.deliveriesByStatus.find? (·.1 = status)).map Prod.snd).getD 0

/-! ## Requests with a cursor -/

namespace ControlRoomQueryService

open ControlRoom

-- `float(text)` on a JSON number
variable (floatOf : List Char → PyFloat)

def events (limit : ℕ) (eventType : Option String) (endpointId : Option UUID)
    (deliveryStatus : Option DeliveryStatus) (cursor : Option PyStr) (db : Db) :
    Except Error (Page EventListRecord) := do
  return listEvents limit (← decodeCursor floatOf cursor) eventType endpointId deliveryStatus db

def endpoints (limit : ℕ) (cursor : Option PyStr) (db : Db) : Except Error (Page Endpoint) := do
  return listEndpoints limit (← decodeCursor floatOf cursor) db

def deadLetters (limit : ℕ) (endpointId : Option UUID) (cursor : Option PyStr) (db : Db) :
    Except Error (Page DeadLetterRecord) := do
  return listDeadLetters limit (← decodeCursor floatOf cursor) endpointId db

end ControlRoomQueryService

/-! ## Dead letters as an operator sees them -/

/-- Endpoint metadata without the signing secret. -/
structure EndpointPublicResponse where
  id : UUID
  name : String
  url : String
  enabled : Bool
  secretVersion : ℕ
  createdAt : Time
  updatedAt : Time
deriving DecidableEq

def Endpoint.response (e : Endpoint) : EndpointPublicResponse where
  id := e.id
  name := e.name
  url := e.targetUrl
  enabled := e.enabled
  secretVersion := e.secretVersion
  createdAt := e.createdAt
  updatedAt := e.updatedAt

/-- Current state of one event-to-endpoint delivery generation. -/
structure DeliverySummaryResponse where
  id : UUID
  endpointId : UUID
  replayGeneration : ℕ
  replayedFromDeliveryId : Option UUID
  status : DeliveryStatus
  attemptCount : ℕ
  nextAttemptAt : Option Time
  leaseOwner : Option String
  leaseExpiresAt : Option Time
  deliveredAt : Option Time
  lastError : Option String
  createdAt : Time
  updatedAt : Time
deriving DecidableEq

def Delivery.response (d : Delivery) : DeliverySummaryResponse where
  id := d.id
  endpointId := d.endpointId
  replayGeneration := d.replayGeneration
  replayedFromDeliveryId := d.replayedFromDeliveryId
  status := d.status
  attemptCount := d.attemptCount
  nextAttemptAt := d.nextAttemptAt
  leaseOwner := d.leaseOwner
  leaseExpiresAt := d.leaseExpiresAt
  deliveredAt := d.deliveredAt
  lastError := d.lastError
  createdAt := d.createdAt
  updatedAt := d.updatedAt

/-- A latest-generation dead letter that may require operator action. -/
structure DeadLetterItemResponse where
  eventId : UUID
  eventType : String
  eventCreatedAt : Time
  endpoint : EndpointPublicResponse
  delivery : DeliverySummaryResponse
  replayable : Bool
  blockedCode : Option ReplayBlockCode
  blockedReason : Option String
deriving DecidableEq

def ReplayBlockCode.blockedReason : ReplayBlockCode → String
  | payloadCorrectionRequired => "Payload correction required. Publish a corrected event instead " ++
      "of replaying the unchanged body."
  | endpointDisabled => "Endpoint is disabled."

/-- Why a listed dead letter cannot be replayed. -/
def DeadLetterRecord.blockCode (lib : Lib) (item : DeadLetterRecord) : Option ReplayBlockCode :=
  match replayBlockCode lib.jsonLoads item.lastHttpStatusCode item.lastResponseBodyExcerpt with
  | some code => some code
  | none => if item.endpoint.enabled then none else some .endpointDisabled

/-- `_dead_letter_response` -/
def deadLetterResponse (lib : Lib) (item : DeadLetterRecord) : DeadLetterItemResponse where
  eventId := item.event.id
  eventType := item.event.eventType
  eventCreatedAt := item.event.createdAt
  endpoint := item.endpoint.response
  delivery := item.delivery.response
  replayable := (item.blockCode lib).isNone
  blockedCode := item.blockCode lib
  blockedReason := (item.blockCode lib).map ReplayBlockCode.blockedReason

end EventHarbor
