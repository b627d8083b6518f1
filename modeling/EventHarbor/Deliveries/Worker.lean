import EventHarbor.Repositories
import EventHarbor.Deliveries.Transport

/-!
# Delivery worker

Claiming, resolving expired leases and finalizing, each one transaction. What
the process supplies (clock readings, drawn UUIDs, the jitter fraction) is an
argument of the transaction.
-/

namespace EventHarbor

open Relational Txn

/-- Database-only work completed without reserving another HTTP request. -/
structure DeliveryResolution where
  deliveryId : UUID
  reason : String
deriving DecidableEq

inductive Claim
  | webhook (w : OutboundWebhook)
  | resolution (r : DeliveryResolution)
deriving DecidableEq

def Claim.deliveryId : Claim → UUID
  | webhook w => w.deliveryId
  | resolution r => r.deliveryId

structure DeliveryWorker where
  settings : Settings
  workerId : String

namespace DeliveryWorker

/-- The stored owner: `worker_id[:160]`. -/
def owner (w : DeliveryWorker) : String := truncate 160 w.workerId

def retryPolicy (w : DeliveryWorker) : RetryPolicy := w.settings.retryPolicy

/-! ## Claiming -/

/-- What a claim reads from its surroundings. `now` is the first statement's
clock reading; `clock` is `clock_timestamp()` as the selection tests each row,
`reclock` as it tests a row again that changed under it. -/
structure ClaimDraw where
  now : Time
  clock : UUID → Time
  reclock : UUID → Time
  leaseToken : UUID
  attemptId : UUID
  /-- `now()` of the transaction, the `onupdate` of `updated_at` -/
  transactionNow : Time

/-- A nullable instant that has come. -/
def due (t : Option Time) (now : Time) : Bool :=
  match t with
  | none => false
  | some t => t ≤ now

/-- The selection predicate of `claim_one`. -/
def claimable (now : Time) (d : Delivery) : Bool :=
  ((d.status = .pending || d.status = .retryWait) && due d.nextAttemptAt now &&
    d.leaseToken.isNone) ||
  (d.status = .inProgress && due d.leaseExpiresAt now)

/-- `coalesce(lease_expires_at, next_attempt_at)`. -/
def dueAt (d : Delivery) : Option Time := d.leaseExpiresAt.or d.nextAttemptAt

/-- `ORDER BY coalesce(lease_expires_at, next_attempt_at), id`, nulls last. -/
def dueBefore (a b : Delivery) : Prop :=
  match dueAt a, dueAt b with
  | some s, some t => s < t ∨ (s = t ∧ a.id ≤ b.id)
  | some _, none => True
  | none, some _ => False
  | none, none => a.id ≤ b.id

instance : DecidableRel dueBefore := fun a b => by
  unfold dueBefore
  split <;> infer_instance

/-- Claimable deliveries whose endpoint exists, in claim order. -/
def claimCandidates (clock : UUID → Time) (db : Db) : List Delivery :=
  (db.deliveries.rows.filter fun d =>
    claimable (clock d.id) d && (db.endpoints.get? d.endpointId).isSome).insertionSort dueBefore

/-- `FOR UPDATE SKIP LOCKED LIMIT 1` over the joined rows: the delivery is
locked first, then its endpoint; a row that changed since the selection is
tested again. -/
def lockFirst (reclock : UUID → Time) : List Delivery → Tx (Option Delivery)
  | [] => return none
  | d :: ds => do
    if ← tryAcquire (.delivery d.id .update) then
      if ← tryAcquire (.endpoint d.endpointId .update) then
        match ← query (·.deliveries.get? d.id) with
        | none => lockFirst reclock ds
        | some row =>
          if row = d || claimable (reclock d.id) row then return some row
          else lockFirst reclock ds
      else lockFirst reclock ds
    else lockFirst reclock ds

/-- Explain why due work must terminate before another attempt is reserved. -/
def unclaimableDueReason (w : DeliveryWorker) (d : Delivery) (endpointEnabled : Bool) :
    Option String :=
  let exhausted := !w.retryPolicy.hasAttemptRemaining d.attemptCount
  if !endpointEnabled && exhausted then
    some "endpoint is disabled and the maximum attempt count is already exhausted"
  else if !endpointEnabled then
    some "endpoint is disabled before the delivery can be claimed"
  else if exhausted then
    some "maximum attempt count is already exhausted before claim"
  else none

/-- A delivery that automatic sending has given up. -/
def deadLettered (d : Delivery) (lastError : String) (now : Time) : Delivery :=
  { d with
    status := .deadLettered
    nextAttemptAt := none
    lastError := some lastError
    leaseOwner := none
    leaseToken := none
    leaseExpiresAt := none
    updatedAt := now }

/-- `UPDATE deliveries`. -/
def updateDelivery (d : Delivery) : Tx Unit := do
  acquire (.delivery d.id .noKeyUpdate)
  exec (.updateDelivery d)

/-- `UPDATE delivery_attempts`. -/
def updateAttempt (a : DeliveryAttempt) : Tx Unit := do
  acquire (.attempt a.id .noKeyUpdate)
  exec (.updateAttempt a)

/-- Terminate due work without implying that another HTTP attempt occurred. -/
def deadLetterWithoutAttempt (d : Delivery) (reason : String) (now : Time) :
    Tx DeliveryResolution := do
  lift (ensureTransition d.status .deadLettered)
  updateDelivery (deadLettered d (truncate 2048 reason) now)
  return { deliveryId := d.id, reason := reason }

/-- Why an expired attempt is resolved. -/
def expiryReason (w : DeliveryWorker) (d : Delivery) (endpointEnabled : Bool) : String :=
  if !endpointEnabled then "endpoint disabled while the worker lease was outstanding"
  else if !w.retryPolicy.hasAttemptRemaining d.attemptCount then
    "worker lease expired and the maximum attempt count was exhausted"
  else "worker lease expired before its outcome was committed; redelivery reserved"

/-- The evidence of an attempt whose outcome was never committed. -/
def indeterminate (a : DeliveryAttempt) (reason : String) (now : Time) : DeliveryAttempt :=
  { a with
    status := .indeterminate
    errorType := some "lease_expired"
    errorMessage := some (truncate 2048 s!"{reason}; the endpoint may have received the request")
    resolvedAt := some now }

/-- The attempt that an in-progress delivery's lease stands for. -/
def leasedAttempts (d : Delivery) (db : Db) : List DeliveryAttempt :=
  db.attempts.rows.filter fun a =>
    a.deliveryId = d.id && a.attemptNumber = d.attemptCount &&
      some a.leaseToken = d.leaseToken && a.status = .inProgress

/-- `last_error` of a delivery whose lease expired. -/
def expiryError (w : DeliveryWorker) (d : Delivery) (endpointEnabled : Bool) : String :=
  truncate 2048 s!"lease_expired: {w.expiryReason d endpointEnabled}"

/-- An expired delivery after the flush that precedes the replacement attempt. -/
def expired (w : DeliveryWorker) (d : Delivery) (endpointEnabled : Bool) (draw : ClaimDraw) :
    Delivery :=
  { d with
    lastError := some (w.expiryError d endpointEnabled)
    updatedAt := draw.transactionNow }

/-- The part of `_resolve_expired_attempt` on the attempt it locked. -/
def resolveLocked (w : DeliveryWorker) (d : Delivery) (endpointEnabled : Bool) (draw : ClaimDraw)
    (attempt : DeliveryAttempt) : Tx (Delivery ⊕ DeliveryResolution) := do
  let reason := w.expiryReason d endpointEnabled
  let attempt := indeterminate attempt reason draw.now
  if endpointEnabled && w.retryPolicy.hasAttemptRemaining d.attemptCount then
    let d := w.expired d endpointEnabled draw
    updateDelivery d
    updateAttempt attempt
    return .inl d
  else
    lift (ensureTransition d.status .deadLettered)
    updateDelivery (deadLettered d (w.expiryError d endpointEnabled) draw.now)
    updateAttempt attempt
    return .inr { deliveryId := d.id, reason := reason }

/-- Resolve an expired claim and stop when it must not be redelivered. -/
def resolveExpiredAttempt (w : DeliveryWorker) (d : Delivery) (endpointEnabled : Bool)
    (draw : ClaimDraw) : Tx (Delivery ⊕ DeliveryResolution) := do
  match ← selectForUpdate DeliveryAttempt.id (.attempt · .update) (leasedAttempts d) with
  | none => fail (.runtime
      s!"delivery {d.id.str} has an expired lease without in-progress evidence")
  | some attempt => w.resolveLocked d endpointEnabled draw attempt

/-- A delivery under a new lease. -/
def leased (w : DeliveryWorker) (d : Delivery) (draw : ClaimDraw) : Delivery :=
  { d with
    status := .inProgress
    attemptCount := d.attemptCount + 1
    nextAttemptAt := none
    leaseOwner := some w.owner
    leaseToken := some draw.leaseToken
    leaseExpiresAt := some (draw.now + w.settings.workerLeaseSeconds)
    updatedAt := draw.now }

/-- The evidence reserved for a claimed attempt. -/
def reserved (d : Delivery) (draw : ClaimDraw) : DeliveryAttempt where
  id := draw.attemptId
  deliveryId := d.id
  attemptNumber := d.attemptCount
  status := .inProgress
  leaseToken := draw.leaseToken
  disposition := none
  httpStatusCode := none
  errorType := none
  errorMessage := none
  responseBodyExcerpt := none
  durationMs := none
  requestTimestamp := none
  retryScheduledFor := none
  startedAt := none
  finishedAt := none
  resolvedAt := none
  createdAt := draw.now

def isRunIdStart (n : ℕ) : Bool :=
  (65 ≤ n && n ≤ 90) || (97 ≤ n && n ≤ 122) || (48 ≤ n && n ≤ 57)

def isRunIdChar (n : ℕ) : Bool := isRunIdStart n || n = 46 || n = 95 || n = 45

/-- `normalized_demo_run_id`: `[A-Za-z0-9][A-Za-z0-9._-]{0,127}`. -/
def normalizedDemoRunId : Option Json → Option String
  | some (.str (c :: cs)) =>
    if isRunIdStart c.val && cs.all (fun c => isRunIdChar c.val) && cs.length ≤ 127 then
      some (String.ofList ((c :: cs).map fun c => Char.ofNat c.val))
    else none
  | _ => none

def outboundWebhook (d : Delivery) (endpoint : Endpoint) (event : Event) (draw : ClaimDraw) :
    OutboundWebhook where
  attemptId := draw.attemptId
  deliveryId := d.id
  eventId := event.id
  eventType := event.eventType
  endpointUrl := endpoint.targetUrl
  signingSecret := endpoint.signingSecret
  payloadBytes := event.payloadBytes
  attemptNumber := d.attemptCount
  leaseToken := draw.leaseToken
  demoRunId := normalizedDemoRunId (Json.lookup event.payload "run_id")

/-- Lease the delivery and insert the evidence of its next attempt. -/
def reserve (w : DeliveryWorker) (d : Delivery) (endpoint : Endpoint) (draw : ClaimDraw) :
    Tx Claim := do
  let d := w.leased d draw
  -- `session.get` flushes the leased delivery before it reads.
  updateDelivery d
  match ← EventRepository.get d.eventId with
  | none => fail (.runtime "delivery references missing event")
  | some event =>
    exec (.insertAttempt (reserved d draw))
    foreignKey (.delivery d.id .keyShare) (fun db => (db.deliveries.get? d.id).isSome)
      .fkDeliveryAttemptsDeliveryId
    return .webhook (outboundWebhook d endpoint event draw)

/-- What a claim does once an expired attempt is resolved. -/
def afterExpiry (w : DeliveryWorker) (endpoint : Endpoint) (draw : ClaimDraw) :
    Delivery ⊕ DeliveryResolution → Tx Claim
  | .inr resolution => return .resolution resolution
  | .inl d => w.reserve d endpoint draw

/-- What a claim does with the delivery it locked. -/
def claimLocked (w : DeliveryWorker) (draw : ClaimDraw) (d : Delivery) : Tx Claim := do
  match ← EndpointRepository.get d.endpointId with
  | none => fail (.runtime "delivery references missing endpoint")
  | some endpoint =>
    if d.status = .inProgress then
      w.afterExpiry endpoint draw (← w.resolveExpiredAttempt d endpoint.enabled draw)
    else
      match w.unclaimableDueReason d endpoint.enabled with
      | some reason => return .resolution (← deadLetterWithoutAttempt d reason draw.now)
      | none =>
        lift (ensureTransition d.status .inProgress)
        w.reserve d endpoint draw

/-- Resolve or lease one delivery without holding a lock during HTTP. -/
def claimOne (w : DeliveryWorker) (draw : ClaimDraw) : Tx (Option Claim) := do
  let candidates ← query (claimCandidates draw.clock)
  match ← lockFirst draw.reclock candidates with
  | none => return none
  | some d => return some (← w.claimLocked draw d)

/-! ## Finalizing -/

structure FinalizeDraw where
  databaseNow : Time
  randomFraction : ℚ

/-- The status a result leads to, with the delay of a scheduled retry. -/
def target (w : DeliveryWorker) (webhook : OutboundWebhook) (result : AttemptResult)
    (randomFraction : ℚ) : Except Error (DeliveryStatus × Option ℚ) :=
  match result.disposition with
  | .succeeded => .ok (.delivered, none)
  | .retry =>
    if w.retryPolicy.hasAttemptRemaining webhook.attemptNumber then
      match w.retryPolicy.delaySeconds webhook.attemptNumber randomFraction with
      | .error e => .error e
      | .ok delay => .ok (.retryWait, some (match result.retryAfterSeconds with
          | none => delay
          | some retryAfter => max delay retryAfter))
    else .ok (.deadLettered, none)
  | .terminalFailure => .ok (.deadLettered, none)

def lastError (result : AttemptResult) : Option PyStr :=
  if result.disposition = .succeeded then none
  else
    match result.errorType with
    | some errorType =>
      let detail := match result.errorMessage with
        | some [] | none => PyStr.ofString "outbound request failed"
        | some message => message
      some ((PyStr.ofString s!"{errorType}: " ++ detail).take 2048)
    | none =>
      match result.httpStatusCode with
      | some n => some (PyStr.ofString s!"HTTP {n}")
      | none => some (PyStr.ofString "outbound request failed")

/-- The driver sends a text as UTF-8. -/
def bindText (text : Option PyStr) : Except Error Unit :=
  match text with
  | some s => if s.any CodePoint.isSurrogate then .error (.database .invalidQueryArgument) else .ok ()
  | none => .ok ()

/-- The completed evidence of an attempt. -/
def completed (a : DeliveryAttempt) (result : AttemptResult) (retryScheduledFor : Option Time)
    (databaseNow : Time) : DeliveryAttempt :=
  { a with
    status := .completed
    disposition := some result.disposition
    httpStatusCode := result.httpStatusCode
    errorType := result.errorType
    errorMessage := result.errorMessage.map PyStr.toText
    responseBodyExcerpt := result.responseBodyExcerpt
    durationMs := some result.durationMs
    requestTimestamp := some result.requestTimestamp
    retryScheduledFor := retryScheduledFor
    startedAt := some result.startedAt
    finishedAt := some result.finishedAt
    resolvedAt := some databaseNow }

/-- The delivery after its leased attempt completed. -/
def settled (d : Delivery) (result : AttemptResult) (status : DeliveryStatus)
    (retryScheduledFor : Option Time) (databaseNow : Time) : Delivery :=
  { d with
    status := status
    nextAttemptAt := retryScheduledFor
    deliveredAt := if status = .delivered then some databaseNow else none
    lastError := (lastError result).map PyStr.toText
    leaseOwner := none
    leaseToken := none
    leaseExpiresAt := none
    updatedAt := databaseNow }

/-- The delivery while this worker's lease stands. -/
def ownedDeliveries (w : DeliveryWorker) (webhook : OutboundWebhook) (db : Db) : List Delivery :=
  db.deliveries.rows.filter fun d =>
    d.id = webhook.deliveryId && d.status = .inProgress && d.leaseOwner = some w.owner &&
      d.leaseToken = some webhook.leaseToken

/-- The attempt a webhook was claimed for, while it is in progress. -/
def claimedAttempts (webhook : OutboundWebhook) (db : Db) : List DeliveryAttempt :=
  db.attempts.rows.filter fun a =>
    a.id = webhook.attemptId && a.deliveryId = webhook.deliveryId &&
      a.attemptNumber = webhook.attemptNumber && a.leaseToken = webhook.leaseToken &&
      a.status = .inProgress

/-- The part of `finalize` on the delivery it locked. -/
def finalizeLocked (webhook : OutboundWebhook) (result : AttemptResult)
    (targetStatus : DeliveryStatus) (delay : Option ℚ) (databaseNow : Time) (d : Delivery) :
    Tx Bool :=
  if d.attemptCount ≠ webhook.attemptNumber then return false
  else do
    match ← selectForUpdate DeliveryAttempt.id (.attempt · .update) (claimedAttempts webhook) with
    | none => fail (.runtime
        s!"delivery {d.id.str} owns a lease without matching attempt evidence")
    | some attempt =>
      lift (ensureTransition d.status targetStatus)
      let retryScheduledFor := delay.map (databaseNow + ·)
      lift (bindText (lastError result))
      updateDelivery (settled d result targetStatus retryScheduledFor databaseNow)
      lift (bindText result.errorMessage)
      updateAttempt (completed attempt result retryScheduledFor databaseNow)
      return true

/-- Complete reserved attempt evidence only while this worker owns the lease. -/
def finalize (w : DeliveryWorker) (webhook : OutboundWebhook) (result : AttemptResult)
    (draw : FinalizeDraw) : Tx Bool := do
  let (targetStatus, delay) ← lift (w.target webhook result draw.randomFraction)
  match ← selectForUpdate Delivery.id (.delivery · .update) (w.ownedDeliveries webhook) with
  | none => return false
  | some d => finalizeLocked webhook result targetStatus delay draw.databaseNow d

end DeliveryWorker

end EventHarbor
