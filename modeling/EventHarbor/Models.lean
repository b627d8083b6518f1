import EventHarbor.Relational.Transaction
import EventHarbor.Relational.Table
import EventHarbor.Deliveries.StateMachine
import EventHarbor.Deliveries.Retry

/-!
# Persistence models

The four tables, their constraints, and the writes and locks of the
transactions on them. Column lengths, U+0000 in text and integer ranges are
checked where a caller's data reaches a column.
-/

namespace EventHarbor

open Relational

abbrev Bytes := List UInt8

/-- A destination that can receive signed outbound webhooks. -/
structure Endpoint where
  id : UUID
  name : String
  targetUrl : String
  signingSecret : Bytes
  secretVersion : ℕ
  enabled : Bool
  createdAt : Time
  updatedAt : Time
deriving DecidableEq

/-- An immutable business fact accepted idempotently from one source. -/
structure Event where
  id : UUID
  source : String
  eventType : String
  idempotencyKey : String
  payload : List (PyStr × Json)
  payloadBytes : Bytes
  requestFingerprintSha256 : String
  payloadSha256 : String
  createdAt : Time

/-- Durable work to deliver one event to one endpoint generation. -/
structure Delivery where
  id : UUID
  eventId : UUID
  endpointId : UUID
  replayGeneration : ℕ
  replayedFromDeliveryId : Option UUID
  replayIdempotencyKey : Option String
  status : DeliveryStatus
  attemptCount : ℕ
  nextAttemptAt : Option Time
  leaseOwner : Option String
  leaseExpiresAt : Option Time
  leaseToken : Option UUID
  deliveredAt : Option Time
  lastError : Option String
  createdAt : Time
  updatedAt : Time
deriving DecidableEq

/-- Durable evidence reserved before one outbound request can begin. -/
structure DeliveryAttempt where
  id : UUID
  deliveryId : UUID
  attemptNumber : ℕ
  status : DeliveryAttemptStatus
  leaseToken : UUID
  disposition : Option DeliveryDisposition
  httpStatusCode : Option ℤ
  errorType : Option String
  errorMessage : Option String
  responseBodyExcerpt : Option String
  durationMs : Option ℤ
  requestTimestamp : Option ℤ
  retryScheduledFor : Option Time
  startedAt : Option Time
  finishedAt : Option Time
  resolvedAt : Option Time
  createdAt : Time
deriving DecidableEq

structure Db where
  endpoints : Table Endpoint.id
  events : Table Event.id
  deliveries : Table Delivery.id
  attempts : Table DeliveryAttempt.id

def Db.empty : Db := ⟨.empty, .empty, .empty, .empty⟩

/-! ## Constraints -/

/-- The first constraint that does not hold. -/
def violation (cs : List (Bool × Constraint)) : Option Constraint :=
  (cs.find? fun c => !c.1).map Prod.snd

/-- `text` columns reject U+0000. -/
def isText (s : String) : Bool := s.toList.all fun c => c.toNat ≠ 0

def isVarchar (n : ℕ) (s : String) : Bool := s.toList.length ≤ n

/-- A nullable column satisfies a check when it is null. -/
def nullOr {α : Type} (p : α → Bool) : Option α → Bool
  | none => true
  | some a => p a

def isInteger (n : ℤ) : Bool := -2 ^ 31 ≤ n && n < 2 ^ 31

def isBigInteger (n : ℤ) : Bool := -2 ^ 63 ≤ n && n < 2 ^ 63

mutual

/-- `jsonb` strings reject U+0000. -/
def Json.isJsonb : Json → Bool
  | .str s => s.all (·.val ≠ 0)
  | .arr xs => Json.itemsJsonb xs
  | .obj ms => Json.membersJsonb ms
  | _ => true

def Json.itemsJsonb : List Json → Bool
  | [] => true
  | x :: xs => x.isJsonb && Json.itemsJsonb xs

def Json.membersJsonb : List (PyStr × Json) → Bool
  | [] => true
  | (k, v) :: ms => k.all (·.val ≠ 0) && v.isJsonb && Json.membersJsonb ms

end

def Endpoint.checks (e : Endpoint) : List (Bool × Constraint) :=
  [(isVarchar 120 e.name, .characterVarying),
   (isText e.name && isText e.targetUrl, .untranslatableCharacter),
   (0 < e.name.toList.length, .nameNotEmpty),
   (0 < e.targetUrl.toList.length, .targetUrlNotEmpty),
   (0 < e.signingSecret.length, .signingSecretNotEmpty),
   (1 ≤ e.secretVersion, .secretVersionPositive)]

/-- The digest columns are 64 hexadecimal digits by construction. -/
def Event.checks (e : Event) : List (Bool × Constraint) :=
  [(isVarchar 120 e.source && isVarchar 255 e.eventType && isVarchar 255 e.idempotencyKey,
     .characterVarying),
   (isText e.source && isText e.eventType && isText e.idempotencyKey &&
     Json.membersJsonb e.payload, .untranslatableCharacter),
   (0 < e.source.toList.length, .sourceNotEmpty),
   (0 < e.eventType.toList.length, .eventTypeNotEmpty),
   (0 < e.idempotencyKey.toList.length, .idempotencyKeyNotEmpty),
   (0 < e.payloadBytes.length, .payloadBytesNotEmpty)]

def Delivery.checks (d : Delivery) : List (Bool × Constraint) :=
  [(nullOr (isVarchar 255) d.replayIdempotencyKey && nullOr (isVarchar 160) d.leaseOwner,
     .characterVarying),
   (nullOr isText d.replayIdempotencyKey && nullOr isText d.leaseOwner && nullOr isText d.lastError,
     .untranslatableCharacter),
   (d.replayedFromDeliveryId.isNone == d.replayIdempotencyKey.isNone, .replayMetadataSetTogether),
   (nullOr (0 < ·.toList.length) d.replayIdempotencyKey, .replayIdempotencyKeyNotEmpty),
   ((d.leaseOwner.isNone == d.leaseExpiresAt.isNone) && (d.leaseOwner.isNone == d.leaseToken.isNone),
     .leaseFieldsSetTogether),
   ((d.status == .inProgress) == d.leaseOwner.isSome, .leaseMatchesStatus),
   (d.status != .delivered || d.deliveredAt.isSome, .deliveredHasTimestamp)]

namespace DeliveryAttempt

/-- The CHECK `lifecycle_fields`. -/
def lifecycleFields (a : DeliveryAttempt) : Bool :=
  match a.status with
  | .inProgress => a.disposition.isNone && a.httpStatusCode.isNone && a.errorType.isNone &&
      a.errorMessage.isNone && a.responseBodyExcerpt.isNone && a.durationMs.isNone &&
      a.requestTimestamp.isNone && a.retryScheduledFor.isNone && a.startedAt.isNone &&
      a.finishedAt.isNone && a.resolvedAt.isNone
  | .completed => a.disposition.isSome && a.durationMs.isSome && a.requestTimestamp.isSome &&
      a.startedAt.isSome && a.finishedAt.isSome && a.resolvedAt.isSome
  | .indeterminate => a.disposition.isNone && a.httpStatusCode.isNone && a.errorType.isSome &&
      a.responseBodyExcerpt.isNone && a.durationMs.isNone && a.requestTimestamp.isNone &&
      a.retryScheduledFor.isNone && a.startedAt.isNone && a.finishedAt.isNone &&
      a.resolvedAt.isSome

/-- The CHECK `timestamps_ordered`, which holds when either side is null. -/
def timestampsOrdered (a : DeliveryAttempt) : Bool :=
  match a.startedAt, a.finishedAt with
  | some s, some f => s ≤ f
  | _, _ => true

def checks (a : DeliveryAttempt) : List (Bool × Constraint) :=
  [(nullOr (isVarchar 120) a.errorType, .characterVarying),
   (nullOr isText a.errorType && nullOr isText a.errorMessage && nullOr isText a.responseBodyExcerpt,
     .untranslatableCharacter),
   (nullOr isInteger a.httpStatusCode && nullOr isInteger a.durationMs &&
     nullOr isBigInteger a.requestTimestamp, .integerOutOfRange),
   (1 ≤ a.attemptNumber, .attemptNumberPositive),
   (nullOr (0 ≤ ·) a.durationMs, .durationMsNonnegative),
   (nullOr (0 ≤ ·) a.requestTimestamp, .requestTimestampNonnegative),
   (nullOr (fun n => 100 ≤ n && n ≤ 599) a.httpStatusCode, .httpStatusCodeValid),
   (a.timestampsOrdered, .timestampsOrdered),
   (a.lifecycleFields, .lifecycleFields)]

end DeliveryAttempt

/-! ## Writes -/

/-- The effect of one `INSERT`, `UPDATE` or `DELETE`. -/
inductive Write
  | insertEndpoint (e : Endpoint)
  | updateEndpoint (e : Endpoint)
  | insertEvent (e : Event)
  | insertDelivery (d : Delivery)
  | updateDelivery (d : Delivery)
  | insertAttempt (a : DeliveryAttempt)
  | updateAttempt (a : DeliveryAttempt)
  /-- Attempts cascade from their deliveries. -/
  | deleteDeliveries (ids : List UUID)
  | deleteEvents (ids : List UUID)

def Write.apply : Write → Db → Db
  | insertEndpoint e, db => { db with endpoints := db.endpoints.insert e }
  | updateEndpoint e, db => { db with endpoints := db.endpoints.set e }
  | insertEvent e, db => { db with events := db.events.insert e }
  | insertDelivery d, db => { db with deliveries := db.deliveries.insert d }
  | updateDelivery d, db => { db with deliveries := db.deliveries.set d }
  | insertAttempt a, db => { db with attempts := db.attempts.insert a }
  | updateAttempt a, db => { db with attempts := db.attempts.set a }
  | deleteDeliveries ids, db => { db with
      deliveries := db.deliveries.filter (·.id ∉ ids)
      attempts := db.attempts.filter (·.deliveryId ∉ ids) }
  | deleteEvents ids, db => { db with events := db.events.filter (·.id ∉ ids) }

/-- Another delivery of `db` agrees with `d` on a unique index. -/
def Db.noOther (db : Db) (d : Delivery) (same : Delivery → Bool) : Bool :=
  db.deliveries.rows.all fun e => e.id = d.id || !same e

def Db.deliveryUnique (db : Db) (d : Delivery) : List (Bool × Constraint) :=
  [(db.noOther d fun e => e.eventId = d.eventId && e.endpointId = d.endpointId &&
      e.replayGeneration = d.replayGeneration, .uqDeliveriesEventIdEndpointIdReplayGeneration),
   (d.replayedFromDeliveryId.isNone || db.noOther d fun e =>
      e.replayedFromDeliveryId = d.replayedFromDeliveryId &&
      e.replayIdempotencyKey = d.replayIdempotencyKey,
     .uqDeliveriesReplayedFromDeliveryIdReplayIdempotencyKey),
   (!d.status.active || db.noOther d fun e =>
      e.eventId = d.eventId && e.endpointId = d.endpointId && e.status.active,
     .uqDeliveriesOneActivePerEventEndpoint)]

def Db.attemptUnique (db : Db) (a : DeliveryAttempt) : List (Bool × Constraint) :=
  let others (same : DeliveryAttempt → Bool) : Bool :=
    db.attempts.rows.all fun b => b.id = a.id || !(b.deliveryId = a.deliveryId && same b)
  [(others fun b => b.attemptNumber = a.attemptNumber, .uqDeliveryAttemptsDeliveryIdAttemptNumber),
   (others fun b => b.leaseToken = a.leaseToken, .uqDeliveryAttemptsDeliveryIdLeaseToken),
   (a.status != .inProgress || others fun b => b.status = .inProgress,
     .uqDeliveryAttemptsOneInProgress)]

/-- The constraints a write is checked against, in order. Foreign keys from the
inserted row are checked by their own statements. -/
def Write.checks : Write → Db → List (Bool × Constraint)
  | insertEndpoint e, db => e.checks ++ [(decide (db.endpoints.Fresh e.id), .pkEndpoints)]
  | updateEndpoint e, _ => e.checks
  | insertEvent e, db => e.checks ++
      [(db.events.rows.all fun f => !(f.source = e.source && f.idempotencyKey = e.idempotencyKey),
         .uqEventsSourceIdempotencyKey),
       (decide (db.events.Fresh e.id), .pkEvents)]
  | insertDelivery d, db => d.checks ++
      (decide (db.deliveries.Fresh d.id), .pkDeliveries) :: db.deliveryUnique d
  | updateDelivery d, db => d.checks ++ db.deliveryUnique d
  | insertAttempt a, db => a.checks ++
      (decide (db.attempts.Fresh a.id), .pkDeliveryAttempts) :: db.attemptUnique a
  | updateAttempt a, db => a.checks ++ db.attemptUnique a
  | deleteDeliveries ids, db =>
      [(db.deliveries.rows.all fun d => d.id ∈ ids || nullOr (· ∉ ids) d.replayedFromDeliveryId,
         .fkDeliveriesReplayedFromDeliveryId)]
  | deleteEvents ids, db =>
      [(db.deliveries.rows.all fun d => d.eventId ∉ ids, .fkDeliveriesEventId)]

/-! ## Locks -/

/-- PostgreSQL's row-level lock modes, as the statements take them. -/
inductive RowLock
  | keyShare | noKeyUpdate | update
deriving DecidableEq, Repr

def RowLock.conflict : RowLock → RowLock → Bool
  | keyShare, keyShare | keyShare, noKeyUpdate | noKeyUpdate, keyShare => false
  | _, _ => true

/-- Entries of the unique indexes. -/
inductive UniqueKey
  | endpointId (id : UUID)
  | eventId (id : UUID)
  | eventIdempotency (source key : String)
  | deliveryId (id : UUID)
  | deliveryGeneration (event endpoint : UUID) (generation : ℕ)
  | deliveryReplay (source : UUID) (key : String)
  | deliveryActive (event endpoint : UUID)
  | attemptId (id : UUID)
  | attemptNumber (delivery : UUID) (number : ℕ)
  | attemptLeaseToken (delivery token : UUID)
  | attemptInProgress (delivery : UUID)
deriving DecidableEq, Repr

inductive Lock
  | endpoint (id : UUID) (mode : RowLock)
  | event (id : UUID) (mode : RowLock)
  | delivery (id : UUID) (mode : RowLock)
  | attempt (id : UUID) (mode : RowLock)
  | unique (k : UniqueKey)
  | advisory (n : ℕ)
deriving DecidableEq, Repr

def Lock.conflict : Lock → Lock → Bool
  | endpoint i m, endpoint j n => i = j && m.conflict n
  | event i m, event j n => i = j && m.conflict n
  | delivery i m, delivery j n => i = j && m.conflict n
  | attempt i m, attempt j n => i = j && m.conflict n
  | unique k, unique k' => k = k'
  | advisory m, advisory n => m = n
  | _, _ => false

theorem lock_conflict_symm (i j : Lock) : i.conflict j = j.conflict i := by
  have mode : ∀ m n : RowLock, m.conflict n = n.conflict m := by
    intro m n
    cases m <;> cases n <;> rfl
  cases i <;> cases j <;> first | rfl | simp only [Lock.conflict, mode, eq_comm]

/-- The index entries an inserted row occupies. -/
def Write.keys : Write → List Lock
  | insertEndpoint e => [.unique (.endpointId e.id)]
  | insertEvent e => [.unique (.eventId e.id), .unique (.eventIdempotency e.source e.idempotencyKey)]
  | insertDelivery d =>
      .unique (.deliveryId d.id) ::
      .unique (.deliveryGeneration d.eventId d.endpointId d.replayGeneration) ::
      ((match d.replayedFromDeliveryId, d.replayIdempotencyKey with
        | some s, some k => [.unique (.deliveryReplay s k)]
        | _, _ => []) ++
       if d.status.active then [.unique (.deliveryActive d.eventId d.endpointId)] else [])
  | insertAttempt a =>
      .unique (.attemptId a.id) ::
      .unique (.attemptNumber a.deliveryId a.attemptNumber) ::
      .unique (.attemptLeaseToken a.deliveryId a.leaseToken) ::
      if a.status = .inProgress then [.unique (.attemptInProgress a.deliveryId)] else []
  | _ => []

theorem Write.mem_keys {w : Write} {x : Lock} (hi : x ∈ w.keys) : ∃ k, x = .unique k := by
  cases w with
  | insertDelivery d =>
    simp only [Write.keys, List.mem_cons, List.mem_append] at hi
    rcases hi with rfl | rfl | hi | hi
    · exact ⟨_, rfl⟩
    · exact ⟨_, rfl⟩
    · split at hi
      · exact ⟨_, List.mem_singleton.mp hi⟩
      · cases hi
    · split at hi
      · exact ⟨_, List.mem_singleton.mp hi⟩
      · cases hi
  | insertAttempt a =>
    simp only [Write.keys, List.mem_cons] at hi
    rcases hi with rfl | rfl | rfl | hi
    · exact ⟨_, rfl⟩
    · exact ⟨_, rfl⟩
    · exact ⟨_, rfl⟩
    · split at hi
      · exact ⟨_, List.mem_singleton.mp hi⟩
      · cases hi
  | insertEvent e =>
    simp only [Write.keys, List.mem_cons, List.not_mem_nil, or_false] at hi
    rcases hi with rfl | rfl
    · exact ⟨_, rfl⟩
    · exact ⟨_, rfl⟩
  | insertEndpoint e => exact ⟨_, List.mem_singleton.mp hi⟩
  | _ => cases hi

instance : Engine Db Write Lock Error where
  apply := Write.apply
  check w db := (violation (w.checks db)).map Error.database
  keys := Write.keys
  conflict := Lock.conflict

/-- A transaction on the EventHarbor database. Its note is the set of events a
cleanup has selected and not yet begun to delete. -/
abbrev Tx := Txn Db Write Lock (List UUID) Error

end EventHarbor
