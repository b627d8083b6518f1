import EventHarbor.Models
import EventHarbor.Relational.Schema

/-!
# Schema migrations

Revisions 0002 to 0004 on the rows of a database: every statement that touches
rows, and every constraint it is checked against when it runs. A column that is
nullable for a while is an `Option` for that while.
-/

namespace EventHarbor.Migrations

open EventHarbor Relational

inductive Column
  | payloadSha256 | status | leaseToken
  | disposition | durationMs | requestTimestamp | startedAt | finishedAt
deriving DecidableEq, Repr

/-- Why a statement is refused. -/
inductive Violation
  | constraint (c : Constraint)
  | payloadSha256Length | requestFingerprintSha256Length
  | notNull (column : Column)
deriving DecidableEq, Repr

/-- A CHECK over the rows that are there. -/
def check {α : Type} (p : α → Bool) (rows : List α) (v : Violation) : Except Violation Unit :=
  if rows.all p then .ok () else .error v

/-- A unique constraint over the rows that are there. -/
def unique {α μ : Type} [DecidableEq μ] (k : α → Option μ) (rows : List α) (c : Constraint) :
    Except Violation Unit :=
  if Unique k rows then .ok () else .error (.constraint c)

/-! ## Revision 0001 -/

namespace Initial

structure Event where
  id : UUID
  source : String
  eventType : String
  idempotencyKey : String
  payload : List (PyStr × Json)
  payloadBytes : Bytes
  payloadSha256 : String
  createdAt : Time

structure Delivery where
  id : UUID
  eventId : UUID
  endpointId : UUID
  replayGeneration : ℕ
  status : DeliveryStatus
  attemptCount : ℕ
  nextAttemptAt : Option Time
  leaseOwner : Option String
  leaseExpiresAt : Option Time
  leaseToken : Option UUID
  deliveredAt : Option Time
  lastError : Option String
  createdAt : Time
  updatedAt : Time
deriving DecidableEq

structure DeliveryAttempt where
  id : UUID
  deliveryId : UUID
  attemptNumber : ℕ
  disposition : DeliveryDisposition
  httpStatusCode : Option ℤ
  errorType : Option String
  errorMessage : Option String
  responseBodyExcerpt : Option String
  durationMs : ℤ
  requestTimestamp : ℤ
  retryScheduledFor : Option Time
  startedAt : Time
  finishedAt : Time
  createdAt : Time
deriving DecidableEq

structure Db where
  endpoints : Table Endpoint.id
  events : Table Event.id
  deliveries : Table Delivery.id
  attempts : Table DeliveryAttempt.id

def Event.checks (e : Event) : List Bool :=
  [isVarchar 120 e.source && isVarchar 255 e.eventType && isVarchar 255 e.idempotencyKey,
   isText e.source && isText e.eventType && isText e.idempotencyKey && Json.membersJsonb e.payload,
   0 < e.source.toList.length,
   0 < e.eventType.toList.length,
   0 < e.idempotencyKey.toList.length,
   0 < e.payloadBytes.length,
   e.payloadSha256.toList.length = 64]

def Delivery.checks (d : Delivery) : List Bool :=
  [nullOr (isVarchar 160) d.leaseOwner,
   nullOr isText d.leaseOwner && nullOr isText d.lastError,
   isInteger d.replayGeneration && isInteger d.attemptCount,
   (d.leaseOwner.isNone == d.leaseExpiresAt.isNone) && (d.leaseOwner.isNone == d.leaseToken.isNone),
   d.status != .delivered || d.deliveredAt.isSome]

def DeliveryAttempt.checks (a : DeliveryAttempt) : List Bool :=
  [nullOr (isVarchar 120) a.errorType,
   nullOr isText a.errorType && nullOr isText a.errorMessage && nullOr isText a.responseBodyExcerpt,
   isInteger a.attemptNumber && nullOr isInteger a.httpStatusCode && isInteger a.durationMs &&
     isBigInteger a.requestTimestamp,
   1 ≤ a.attemptNumber,
   0 ≤ a.durationMs,
   0 ≤ a.requestTimestamp,
   nullOr (fun n => 100 ≤ n && n ≤ 599) a.httpStatusCode,
   a.startedAt ≤ a.finishedAt]

/-- The constraints of the initial schema. -/
structure Db.Valid (db : Db) : Prop where
  endpoints : ∀ e ∈ db.endpoints, violation e.checks = none
  events : ∀ e ∈ db.events, ∀ c ∈ e.checks, c = true
  sourceKey : ∀ e ∈ db.events, ∀ f ∈ db.events, e.source = f.source →
    e.idempotencyKey = f.idempotencyKey → e = f
  deliveries : ∀ d ∈ db.deliveries, ∀ c ∈ d.checks, c = true
  generation : ∀ d ∈ db.deliveries, ∀ e ∈ db.deliveries, d.eventId = e.eventId →
    d.endpointId = e.endpointId → d.replayGeneration = e.replayGeneration → d = e
  event : ∀ d ∈ db.deliveries, ∃ e ∈ db.events, e.id = d.eventId
  endpoint : ∀ d ∈ db.deliveries, ∃ e ∈ db.endpoints, e.id = d.endpointId
  attempts : ∀ a ∈ db.attempts, ∀ c ∈ a.checks, c = true
  number : ∀ a ∈ db.attempts, ∀ b ∈ db.attempts, a.deliveryId = b.deliveryId →
    a.attemptNumber = b.attemptNumber → a = b
  delivery : ∀ a ∈ db.attempts, ∃ d ∈ db.deliveries, d.id = a.deliveryId

end Initial

/-! ## Revision 0002 -/

namespace SplitEventHashes

structure Db where
  endpoints : Table Endpoint.id
  events : Table Event.id
  deliveries : Table Initial.Delivery.id
  attempts : Table Initial.DeliveryAttempt.id

/-- An event while its digest is nullable. -/
structure EventDraft where
  id : UUID
  source : String
  eventType : String
  idempotencyKey : String
  payload : List (PyStr × Json)
  payloadBytes : Bytes
  requestFingerprintSha256 : String
  payloadSha256 : Option String
  createdAt : Time

/-- The hash column under its new name, and the new column. -/
def renamed (e : Initial.Event) : EventDraft where
  id := e.id
  source := e.source
  eventType := e.eventType
  idempotencyKey := e.idempotencyKey
  payload := e.payload
  payloadBytes := e.payloadBytes
  requestFingerprintSha256 := e.payloadSha256
  payloadSha256 := none
  createdAt := e.createdAt

/-- `SET payload_sha256 = encode(sha256(payload_bytes), 'hex') WHERE payload_sha256 IS NULL` -/
def digested (sha256Hex : Bytes → String) (e : EventDraft) : EventDraft :=
  if e.payloadSha256.isNone then { e with payloadSha256 := some (sha256Hex e.payloadBytes) } else e

def EventDraft.required (e : EventDraft) : Option Event :=
  e.payloadSha256.map fun digest => {
    id := e.id
    source := e.source
    eventType := e.eventType
    idempotencyKey := e.idempotencyKey
    payload := e.payload
    payloadBytes := e.payloadBytes
    requestFingerprintSha256 := e.requestFingerprintSha256
    payloadSha256 := digest
    createdAt := e.createdAt }

theorem required_id (e : EventDraft) (e' : Event) (h : e.required = some e') : e'.id = e.id := by
  obtain ⟨digest, -, rfl⟩ := Option.map_eq_some_iff.mp h
  rfl

theorem digested_id (sha256Hex : Bytes → String) (e : EventDraft) :
    (digested sha256Hex e).id = e.id := by
  unfold digested
  split <;> rfl

theorem renamed_id (e : Initial.Event) : (renamed e).id = e.id := rfl

/-- Give each distinct hash its own accurately named column. -/
def upgrade (sha256Hex : Bytes → String) (db : Initial.Db) : Except Violation Db := do
  let drafts : Table EventDraft.id := db.events.map renamed renamed_id
  check (·.requestFingerprintSha256.toList.length = 64) drafts.rows .requestFingerprintSha256Length
  let drafts : Table EventDraft.id := drafts.map (digested sha256Hex) (digested_id sha256Hex)
  check (fun e => nullOr (isVarchar 64) e.payloadSha256) drafts.rows (.constraint .characterVarying)
  match (drafts.traverse EventDraft.required required_id : Option (Table Event.id)) with
  | none => .error (.notNull .payloadSha256)
  | some events =>
    check (·.payloadSha256.toList.length = 64) events.rows .payloadSha256Length
    return {
      endpoints := db.endpoints
      events := events
      deliveries := db.deliveries
      attempts := db.attempts }

def restored (e : Event) : Initial.Event where
  id := e.id
  source := e.source
  eventType := e.eventType
  idempotencyKey := e.idempotencyKey
  payload := e.payload
  payloadBytes := e.payloadBytes
  payloadSha256 := e.requestFingerprintSha256
  createdAt := e.createdAt

theorem restored_id (e : Event) : (restored e).id = e.id := rfl

/-- Restore the original request-fingerprint-only schema. -/
def downgrade (db : Db) : Except Violation Initial.Db := do
  let events : Table Initial.Event.id := db.events.map restored restored_id
  check (·.payloadSha256.toList.length = 64) events.rows .payloadSha256Length
  return {
    endpoints := db.endpoints
    events := events
    deliveries := db.deliveries
    attempts := db.attempts }

end SplitEventHashes

/-! ## Revision 0003 -/

namespace DurableAttemptLedger

structure Db where
  endpoints : Table Endpoint.id
  events : Table Event.id
  deliveries : Table Initial.Delivery.id
  attempts : Table DeliveryAttempt.id

/-- An attempt while its status and its token are nullable. -/
structure AttemptDraft where
  id : UUID
  deliveryId : UUID
  attemptNumber : ℕ
  status : Option DeliveryAttemptStatus
  leaseToken : Option UUID
  disposition : Option DeliveryDisposition
  httpStatusCode : Option ℤ
  errorType : Option String
  errorMessage : Option String
  responseBodyExcerpt : Option String
  durationMs : Option ℤ
  requestTimestamp : Option ℤ
  retryScheduledFor : Option Time
  startedAt : Option Time
  finishedAt : Option Time
  resolvedAt : Option Time
  createdAt : Time
deriving DecidableEq

/-- The new columns, and the columns that became nullable. -/
def widened (a : Initial.DeliveryAttempt) : AttemptDraft where
  id := a.id
  deliveryId := a.deliveryId
  attemptNumber := a.attemptNumber
  status := none
  leaseToken := none
  disposition := some a.disposition
  httpStatusCode := a.httpStatusCode
  errorType := a.errorType
  errorMessage := a.errorMessage
  responseBodyExcerpt := a.responseBodyExcerpt
  durationMs := some a.durationMs
  requestTimestamp := some a.requestTimestamp
  retryScheduledFor := a.retryScheduledFor
  startedAt := some a.startedAt
  finishedAt := some a.finishedAt
  resolvedAt := none
  createdAt := a.createdAt

/-- `SET status = 'completed', lease_token = id, resolved_at = created_at` -/
def historical (a : AttemptDraft) : AttemptDraft :=
  { a with
    status := some .completed
    leaseToken := some a.id
    resolvedAt := some a.createdAt }

/-- The attempt that an active lease has consumed. -/
def reservation (d : Initial.Delivery) (leaseToken : UUID) : AttemptDraft where
  id := leaseToken
  deliveryId := d.id
  attemptNumber := d.attemptCount
  status := some .inProgress
  leaseToken := some leaseToken
  disposition := none
  httpStatusCode := none
  errorType := none
  errorMessage := none
  responseBodyExcerpt := none
  durationMs := none
  requestTimestamp := none
  retryScheduledFor := none
  startedAt := none
  finishedAt := none
  resolvedAt := none
  createdAt := d.updatedAt

/-- The leased deliveries that have no evidence for their attempt number. -/
def activeLeases (deliveries : List Initial.Delivery) (attempts : List AttemptDraft) :
    List AttemptDraft :=
  deliveries.filterMap fun d =>
    if d.status = .inProgress ∧
        ∀ a ∈ attempts, ¬(a.deliveryId = d.id ∧ a.attemptNumber = d.attemptCount) then
      d.leaseToken.map (reservation d)
    else none

/-- The checks of the initial schema, which a null value passes. -/
def AttemptDraft.checks (a : AttemptDraft) : List (Bool × Constraint) :=
  [(1 ≤ a.attemptNumber, .attemptNumberPositive),
   (nullOr (0 ≤ ·) a.durationMs, .durationMsNonnegative),
   (nullOr (0 ≤ ·) a.requestTimestamp, .requestTimestampNonnegative),
   (nullOr (fun n => 100 ≤ n && n ≤ 599) a.httpStatusCode, .httpStatusCodeValid),
   (match a.startedAt, a.finishedAt with
    | some s, some f => s ≤ f
    | _, _ => true, .timestampsOrdered)]

/-- `INSERT INTO delivery_attempts SELECT ..` -/
def insertReservations (deliveries : Table Initial.Delivery.id) (attempts : Table AttemptDraft.id) :
    Except Violation (Table AttemptDraft.id) := do
  let rows := activeLeases deliveries.rows attempts.rows
  match rows.findSome? fun a => violation a.checks with
  | some c => .error (.constraint c)
  | none =>
    match attempts.append rows with
    | none => .error (.constraint .pkDeliveryAttempts)
    | some attempts =>
      unique (fun a => some (a.deliveryId, a.attemptNumber)) attempts.rows
        .uqDeliveryAttemptsDeliveryIdAttemptNumber
      check (fun a => (deliveries.get? a.deliveryId).isSome) rows
        (.constraint .fkDeliveryAttemptsDeliveryId)
      return attempts

def AttemptDraft.required (a : AttemptDraft) : Option DeliveryAttempt :=
  match a.status, a.leaseToken with
  | some status, some leaseToken => some {
      id := a.id
      deliveryId := a.deliveryId
      attemptNumber := a.attemptNumber
      status := status
      leaseToken := leaseToken
      disposition := a.disposition
      httpStatusCode := a.httpStatusCode
      errorType := a.errorType
      errorMessage := a.errorMessage
      responseBodyExcerpt := a.responseBodyExcerpt
      durationMs := a.durationMs
      requestTimestamp := a.requestTimestamp
      retryScheduledFor := a.retryScheduledFor
      startedAt := a.startedAt
      finishedAt := a.finishedAt
      resolvedAt := a.resolvedAt
      createdAt := a.createdAt }
  | _, _ => none

theorem required_id (a : AttemptDraft) (a' : DeliveryAttempt) (h : a.required = some a') :
    a'.id = a.id := by
  unfold AttemptDraft.required at h
  split at h
  · cases h
    rfl
  · cases h

theorem widened_id (a : Initial.DeliveryAttempt) : (widened a).id = a.id := rfl

theorem historical_id (a : AttemptDraft) : (historical a).id = a.id := rfl

/-- Turn completed-only attempt rows into a durable claim ledger. -/
def upgrade (db : SplitEventHashes.Db) : Except Violation Db := do
  let drafts : Table AttemptDraft.id := db.attempts.map widened widened_id
  let drafts : Table AttemptDraft.id := drafts.map historical historical_id
  let drafts ← insertReservations db.deliveries drafts
  check (·.status.isSome) drafts.rows (.notNull .status)
  match (drafts.traverse AttemptDraft.required required_id : Option (Table DeliveryAttempt.id)) with
  | none => .error (.notNull .leaseToken)
  | some attempts =>
    unique (fun a => some (a.deliveryId, a.leaseToken)) attempts.rows
      .uqDeliveryAttemptsDeliveryIdLeaseToken
    unique (fun a => if a.status = .inProgress then some a.deliveryId else none) attempts.rows
      .uqDeliveryAttemptsOneInProgress
    check (·.lifecycleFields) attempts.rows (.constraint .lifecycleFields)
    check (fun d => (d.status == .inProgress) == d.leaseOwner.isSome) db.deliveries.rows
      (.constraint .leaseMatchesStatus)
    return {
      endpoints := db.endpoints
      events := db.events
      deliveries := db.deliveries
      attempts := attempts }

/-- An attempt whose evidence columns are required again. -/
def narrowed (a : DeliveryAttempt) : Option Initial.DeliveryAttempt := do
  let disposition ← a.disposition
  let durationMs ← a.durationMs
  let requestTimestamp ← a.requestTimestamp
  let startedAt ← a.startedAt
  let finishedAt ← a.finishedAt
  return {
    id := a.id
    deliveryId := a.deliveryId
    attemptNumber := a.attemptNumber
    disposition := disposition
    httpStatusCode := a.httpStatusCode
    errorType := a.errorType
    errorMessage := a.errorMessage
    responseBodyExcerpt := a.responseBodyExcerpt
    durationMs := durationMs
    requestTimestamp := requestTimestamp
    retryScheduledFor := a.retryScheduledFor
    startedAt := startedAt
    finishedAt := finishedAt
    createdAt := a.createdAt }

theorem narrowed_id (a : DeliveryAttempt) (a' : Initial.DeliveryAttempt)
    (h : narrowed a = some a') : a'.id = a.id := by
  simp only [narrowed, bind, Option.bind_eq_some_iff] at h
  obtain ⟨_, -, _, -, _, -, _, -, _, -, h⟩ := h
  cases h
  rfl

/-- Restore completed-only evidence used before durable reservations. -/
def downgrade (db : Db) : Except Violation SplitEventHashes.Db := do
  let attempts := db.attempts.filter (·.status = .completed)
  check (·.disposition.isSome) attempts.rows (.notNull .disposition)
  check (·.durationMs.isSome) attempts.rows (.notNull .durationMs)
  check (·.requestTimestamp.isSome) attempts.rows (.notNull .requestTimestamp)
  check (·.startedAt.isSome) attempts.rows (.notNull .startedAt)
  match (attempts.traverse narrowed narrowed_id : Option (Table Initial.DeliveryAttempt.id)) with
  | none => .error (.notNull .finishedAt)
  | some attempts => return {
      endpoints := db.endpoints
      events := db.events
      deliveries := db.deliveries
      attempts := attempts }

end DurableAttemptLedger

/-! ## Revision 0004 -/

namespace ManualDeliveryReplays

/-- A delivery with the columns of its replay. -/
def widened (d : Initial.Delivery) : Delivery where
  id := d.id
  eventId := d.eventId
  endpointId := d.endpointId
  replayGeneration := d.replayGeneration
  replayedFromDeliveryId := none
  replayIdempotencyKey := none
  status := d.status
  attemptCount := d.attemptCount
  nextAttemptAt := d.nextAttemptAt
  leaseOwner := d.leaseOwner
  leaseExpiresAt := d.leaseExpiresAt
  leaseToken := d.leaseToken
  deliveredAt := d.deliveredAt
  lastError := d.lastError
  createdAt := d.createdAt
  updatedAt := d.updatedAt

theorem widened_id (d : Initial.Delivery) : (widened d).id = d.id := rfl

/-- Record which dead-letter delivery and request created each replay. -/
def upgrade (db : DurableAttemptLedger.Db) : Except Violation Db := do
  let deliveries : Table Delivery.id := db.deliveries.map widened widened_id
  check (fun d => nullOr (fun i => (deliveries.get? i).isSome) d.replayedFromDeliveryId)
    deliveries.rows (.constraint .fkDeliveriesReplayedFromDeliveryId)
  unique (fun d => d.replayedFromDeliveryId.bind fun i => d.replayIdempotencyKey.map (i, ·))
    deliveries.rows .uqDeliveriesReplayedFromDeliveryIdReplayIdempotencyKey
  check (fun d => d.replayedFromDeliveryId.isNone == d.replayIdempotencyKey.isNone)
    deliveries.rows (.constraint .replayMetadataSetTogether)
  check (fun d => nullOr (0 < ·.toList.length) d.replayIdempotencyKey) deliveries.rows
    (.constraint .replayIdempotencyKeyNotEmpty)
  unique (fun d => if d.status.active then some (d.eventId, d.endpointId) else none)
    deliveries.rows .uqDeliveriesOneActivePerEventEndpoint
  return {
    endpoints := db.endpoints
    events := db.events
    deliveries := deliveries
    attempts := db.attempts }

def narrowed (d : Delivery) : Initial.Delivery where
  id := d.id
  eventId := d.eventId
  endpointId := d.endpointId
  replayGeneration := d.replayGeneration
  status := d.status
  attemptCount := d.attemptCount
  nextAttemptAt := d.nextAttemptAt
  leaseOwner := d.leaseOwner
  leaseExpiresAt := d.leaseExpiresAt
  leaseToken := d.leaseToken
  deliveredAt := d.deliveredAt
  lastError := d.lastError
  createdAt := d.createdAt
  updatedAt := d.updatedAt

theorem narrowed_id (d : Delivery) : (narrowed d).id = d.id := rfl

/-- Remove replay provenance while preserving delivery generations. -/
def downgrade (db : Db) : Except Violation DurableAttemptLedger.Db :=
  return {
    endpoints := db.endpoints
    events := db.events
    deliveries := db.deliveries.map narrowed narrowed_id
    attempts := db.attempts }

end ManualDeliveryReplays

end EventHarbor.Migrations
