import EventHarbor.Models

/-!
# Repositories

Statements that flush work but never own a transaction. A `SELECT ... FOR
UPDATE` finds its row, waits for the row lock and then tests the newest
version of the row again; a foreign key is checked under a key-share lock on
the referenced row.
-/

namespace EventHarbor

open Relational Txn

/-- `scalar_one_or_none()`. -/
def scalarOneOrNone {α : Type} (rows : Db → List α) : Tx (Option α) := do
  match ← query rows with
  | [] => return none
  | [r] => return some r
  | _ => fail .multipleResultsFound

/-- `SELECT ... FOR UPDATE` of at most one row. -/
def selectForUpdate {α : Type} (key : α → UUID) (rowLock : UUID → Lock) (rows : Db → List α) :
    Tx (Option α) := do
  match ← query rows with
  | [] => return none
  | [r] =>
    acquire (rowLock (key r))
    query fun db => (rows db).find? fun r' => key r' = key r
  | _ => fail .multipleResultsFound

/-- The check of one foreign key of an inserted row. -/
def foreignKey (rowLock : Lock) (present : Db → Bool) (c : Constraint) : Tx Unit := do
  acquire rowLock
  if ← query present then return () else fail (.database c)

namespace EndpointRepository

def create (endpoint : Endpoint) : Tx Unit := exec (.insertEndpoint endpoint)

def get (endpointId : UUID) : Tx (Option Endpoint) := query (·.endpoints.get? endpointId)

end EndpointRepository

namespace EventRepository

/-- Insert once per `(source, idempotency_key)`: `ON CONFLICT DO NOTHING`. -/
def insertIfAbsent (event : Event) : Tx Bool :=
  .write (.insertEvent event) fun
    | none => return true
    | some (.database .uqEventsSourceIdempotencyKey) => return false
    | some e => fail e

def getByIdempotencyKey (source idempotencyKey : String) : Tx (Option Event) :=
  scalarOneOrNone fun db => db.events.rows.filter fun e =>
    e.source = source && e.idempotencyKey = idempotencyKey

def get (eventId : UUID) : Tx (Option Event) := query (·.events.get? eventId)

/-- Lock the stable event row used to serialize delivery generations. -/
def getForUpdate (eventId : UUID) : Tx (Option Event) :=
  selectForUpdate Event.id (.event · .update) fun db => db.events.rows.filter (·.id = eventId)

end EventRepository

/-- The delivery objects a session has already loaded. A row that is loaded
again is answered by the object of the same primary key, with the attributes
it was first loaded with. -/
abbrev IdentityMap := List Delivery

def IdentityMap.resolve (loaded : IdentityMap) (row : Delivery) : Delivery :=
  (loaded.find? (·.id = row.id)).getD row

namespace DeliveryRepository

def create (delivery : Delivery) : Tx Unit := do
  exec (.insertDelivery delivery)
  foreignKey (.event delivery.eventId .keyShare)
    (fun db => (db.events.get? delivery.eventId).isSome) .fkDeliveriesEventId
  foreignKey (.endpoint delivery.endpointId .keyShare)
    (fun db => (db.endpoints.get? delivery.endpointId).isSome) .fkDeliveriesEndpointId
  match delivery.replayedFromDeliveryId with
  | none => return ()
  | some source =>
    foreignKey (.delivery source .keyShare)
      (fun db => (db.deliveries.get? source).isSome) .fkDeliveriesReplayedFromDeliveryId

def getInitial (eventId endpointId : UUID) : Tx (Option Delivery) :=
  scalarOneOrNone fun db => db.deliveries.rows.filter fun d =>
    d.eventId = eventId && d.endpointId = endpointId && d.replayGeneration = 0

/-- `session.get` of a delivery that is not loaded yet. -/
def get (deliveryId : UUID) : Tx (Option Delivery) := query (·.deliveries.get? deliveryId)

def getForUpdate (loaded : IdentityMap) (deliveryId : UUID) : Tx (Option Delivery) := do
  let row ← selectForUpdate Delivery.id (.delivery · .update) fun db =>
    db.deliveries.rows.filter (·.id = deliveryId)
  return row.map loaded.resolve

def getByReplayRequest (loaded : IdentityMap) (sourceDeliveryId : UUID) (idempotencyKey : String) :
    Tx (Option Delivery) := do
  let row ← scalarOneOrNone fun db => db.deliveries.rows.filter fun d =>
    d.replayedFromDeliveryId = some sourceDeliveryId &&
      d.replayIdempotencyKey = some idempotencyKey
  return row.map loaded.resolve

/-- `ORDER BY replay_generation DESC LIMIT 1`. -/
def latestOf (eventId endpointId : UUID) (db : Db) : Option Delivery :=
  ((db.deliveries.rows.filter fun d => d.eventId = eventId && d.endpointId = endpointId).insertionSort
    fun a b => b.replayGeneration ≤ a.replayGeneration).head?

def getLatest (loaded : IdentityMap) (eventId endpointId : UUID) : Tx (Option Delivery) := do
  let row ← query (latestOf eventId endpointId)
  return row.map loaded.resolve

def getActive (loaded : IdentityMap) (eventId endpointId : UUID) : Tx (Option Delivery) := do
  let row ← scalarOneOrNone fun db => db.deliveries.rows.filter fun d =>
    d.eventId = eventId && d.endpointId = endpointId && d.status.active
  return row.map loaded.resolve

/-- The attempts of a delivery, by attempt number. -/
def attemptsOf (deliveryId : UUID) (db : Db) : List DeliveryAttempt :=
  (db.attempts.rows.filter (·.deliveryId = deliveryId)).insertionSort
    fun a b => a.attemptNumber ≤ b.attemptNumber

def listAttempts (deliveryId : UUID) : Tx (List DeliveryAttempt) := query (attemptsOf deliveryId)

end DeliveryRepository

end EventHarbor
