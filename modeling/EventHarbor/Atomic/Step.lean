import EventHarbor.Requests

/-!
# The atomic machine

`Step` says what one committed transaction may do, with no statement in sight:
which rows it reads, what it checked about them, which rows it writes, which
locks it holds at its commit and what it answers. Facts that retention cleanup
can take away are claimed only when no cleanup runs.
-/

namespace EventHarbor

open Relational

/-- The attempts of a delivery, oldest first. -/
def Db.attemptsAt (db : Db) (deliveryId : UUID) : List DeliveryAttempt :=
  db.attempts.rows.filter (·.deliveryId = deliveryId)

/-- The deliveries of an event, oldest first. -/
def Db.deliveriesAt (db : Db) (eventId : UUID) : List Delivery :=
  db.deliveries.rows.filter (·.eventId = eventId)

theorem Db.mem_attemptsAt {db : Db} {i : UUID} {a : DeliveryAttempt} :
    a ∈ db.attemptsAt i ↔ a ∈ db.attempts ∧ a.deliveryId = i := by
  simp [attemptsAt, Table.mem_def]

theorem Db.mem_deliveriesAt {db : Db} {i : UUID} {d : Delivery} :
    d ∈ db.deliveriesAt i ↔ d ∈ db.deliveries ∧ d.eventId = i := by
  simp [deliveriesAt, Table.mem_def]

/-- Rewrite a delivery, then close one of its attempts and open another. -/
def Db.move (db : Db) (d : Delivery) (closed opened : Option DeliveryAttempt) : Db :=
  let attempts := closed.elim db.attempts db.attempts.set
  { db with
    deliveries := db.deliveries.set d
    attempts := opened.elim attempts attempts.insert }

/-- Remove deliveries with their attempts, and events. -/
def Db.purged (db : Db) (deliveryIds eventIds : List UUID) : Db :=
  { db with
    deliveries := db.deliveries.filter (·.id ∉ deliveryIds)
    attempts := db.attempts.filter (·.deliveryId ∉ deliveryIds)
    events := db.events.filter (·.id ∉ eventIds) }

open DeliveryWorker in
/-- What a claim does with the delivery it locked: the answer, the new delivery
row, the attempt it closes and the attempt it opens. -/
inductive Claimed (cleanup : Prop) (w : DeliveryWorker) (draw : ClaimDraw) (db : Db)
    (ep : Endpoint) (d : Delivery) :
    Claim → Delivery → Option DeliveryAttempt → Option DeliveryAttempt → Prop
  | lease {ev : Event} (hev : ev.id = d.eventId) (hmem : ¬cleanup → ev ∈ db.events)
      (hs : d.status = .pending ∨ d.status = .retryWait) (he : ep.enabled = true)
      (hr : d.attemptCount < w.settings.workerMaxAttempts) :
      Claimed cleanup w draw db ep d (.webhook (outboundWebhook (w.leased d draw) ep ev draw))
        (w.leased d draw) none (some (reserved (w.leased d draw) draw))
  | relet {ev : Event} {a : DeliveryAttempt} (hev : ev.id = d.eventId)
      (hmem : ¬cleanup → ev ∈ db.events)
      (hs : d.status = .inProgress) (ha : a ∈ leasedAttempts d db)
      (he : ep.enabled = true) (hr : d.attemptCount < w.settings.workerMaxAttempts) :
      Claimed cleanup w draw db ep d
        (.webhook (outboundWebhook (w.leased (w.expired d true draw) draw) ep ev draw))
        (w.leased (w.expired d true draw) draw)
        (some (indeterminate a (w.expiryReason d true) draw.now))
        (some (reserved (w.leased (w.expired d true draw) draw) draw))
  | expire {a : DeliveryAttempt} (hs : d.status = .inProgress) (ha : a ∈ leasedAttempts d db)
      (hx : ep.enabled = false ∨ w.settings.workerMaxAttempts ≤ d.attemptCount) :
      Claimed cleanup w draw db ep d (.resolution ⟨d.id, w.expiryReason d ep.enabled⟩)
        (deadLettered d (w.expiryError d ep.enabled) draw.now)
        (some (indeterminate a (w.expiryReason d ep.enabled) draw.now)) none
  | drop {reason : String} (hs : d.status = .pending ∨ d.status = .retryWait)
      (hx : w.unclaimableDueReason d ep.enabled = some reason) :
      Claimed cleanup w draw db ep d (.resolution ⟨d.id, reason⟩)
        (deadLettered d (truncate 2048 reason) draw.now) none none

/-- A new attempt has unused identifiers and satisfies its table's checks. -/
structure Opens (L : List Lock) (db : Db) (deliveryId : UUID) (a : DeliveryAttempt) : Prop where
  id : db.attempts.Fresh a.id
  token : ∀ b ∈ db.attemptsAt deliveryId, b.leaseToken ≠ a.leaseToken
  lock : Lock.unique (.attemptId a.id) ∈ L
  valid : violation a.checks = none

/-- Replays never change which delivery a row is. -/
structure SameDelivery (d d' : Delivery) : Prop where
  id : d'.id = d.id
  eventId : d'.eventId = d.eventId
  endpointId : d'.endpointId = d.endpointId
  replayGeneration : d'.replayGeneration = d.replayGeneration
  replayedFrom : d'.replayedFromDeliveryId = d.replayedFromDeliveryId
  replayKey : d'.replayIdempotencyKey = d.replayIdempotencyKey
  createdAt : d'.createdAt = d.createdAt

open EventService ReplayService DeliveryWorker in
/-- One committed transaction: its request, its answer, the locks it holds. -/
inductive Step (lib : Lib) (cleanup : Prop) (L : List Lock) (db : Db) :
    Request → Response → Db → Prop
  | register {url request draw} {e : Endpoint} (hfresh : db.endpoints.Fresh e.id)
      (hL : Lock.unique (.endpointId e.id) ∈ L) (hat : e.createdAt = draw.createdAt)
      (hvalid : violation e.checks = none) :
      Step lib cleanup L db (.createEndpoint url request draw) (.endpoint e)
        { db with endpoints := db.endpoints.insert e }
  | enable {i b now} {row : Endpoint} (hrow : row ∈ db.endpoints) (hid : row.id = i)
      (hL : Lock.endpoint i .noKeyUpdate ∈ L) :
      Step lib cleanup L db (.setEnabled i b now) (.enabled true)
        { db with endpoints := db.endpoints.set { row with enabled := b, updatedAt := now } }
  | absent {i b now} : Step lib cleanup L db (.setEnabled i b now) (.enabled false) db
  | accept {request key draw digest bytes} {ep : Endpoint}
      (hid : ep.id = request.endpointId) (hep : ∃ e ∈ db.endpoints, e.id = ep.id)
      (hdigest : fingerprint lib request = .ok digest)
      (hbytes : canonicalJsonBytes lib.floatRepr (bodyDocument lib request draw) = .ok bytes)
      (hvalid : violation (candidate lib request key draw digest bytes).checks = none)
      (hevent : db.events.Fresh draw.eventId)
      (hkey : ∀ e ∈ db.events, e.source = localSource → e.idempotencyKey ≠ key)
      (hdelivery : db.deliveries.Fresh draw.deliveryId)
      (hLe : Lock.unique (.eventId draw.eventId) ∈ L)
      (hLk : Lock.unique (.eventIdempotency localSource key) ∈ L)
      (hLd : Lock.unique (.deliveryId draw.deliveryId) ∈ L)
      (hLs : Lock.event draw.eventId .keyShare ∈ L) :
      Step lib cleanup L db (.publish request key draw)
        (.published ⟨candidate lib request key draw digest bytes, initialDelivery ep draw, false⟩)
        { db with
          events := db.events.insert (candidate lib request key draw digest bytes)
          deliveries := db.deliveries.insert (initialDelivery ep draw) }
  | duplicate {request key draw} {ev : Event} {d : Delivery}
      (hdigest : fingerprint lib request = .ok ev.requestFingerprintSha256)
      (h : ¬cleanup → ev ∈ db.events ∧ ev.source = localSource ∧ ev.idempotencyKey = key ∧
        ∃ row ∈ db.deliveries, SameDelivery d row ∧ row.eventId = ev.id ∧
          row.endpointId = request.endpointId ∧ row.replayGeneration = 0) :
      Step lib cleanup L db (.publish request key draw) (.published ⟨ev, d, true⟩) db
  | supersede {i key draw} {source : Delivery} (hid : source.id = i)
      (hfresh : db.deliveries.Fresh draw.id)
      (hvalid : violation (successor source key draw).checks = none)
      (hLd : Lock.unique (.deliveryId draw.id) ∈ L)
      (hLs : Lock.event source.eventId .keyShare ∈ L)
      (h : ¬cleanup → source ∈ db.deliveries ∧ source.status = .deadLettered ∧
        ∀ d ∈ db.deliveries, d.eventId = source.eventId →
          d.replayGeneration ≤ source.replayGeneration) :
      Step lib cleanup L db (.replay i key draw)
        (.replayed ⟨source, successor source key draw, false⟩)
        { db with deliveries := db.deliveries.insert (successor source key draw) }
  | repeated {i key draw} {source d : Delivery} (hid : source.id = i)
      (h : ¬cleanup → ∃ row ∈ db.deliveries, SameDelivery d row ∧
        row.replayedFromDeliveryId = some i ∧ row.replayIdempotencyKey = some key) :
      Step lib cleanup L db (.replay i key draw) (.replayed ⟨source, d, true⟩) db
  | idle {w draw} : Step lib cleanup L db (.claimOne w draw) (.claimed none) db
  | claim {w draw c} {ep : Endpoint} {d d' : Delivery} {closed opened}
      (hd : d ∈ db.deliveries) (hL : Lock.delivery d.id .update ∈ L)
      (hdue : claimable (draw.clock d.id) d = true ∨ claimable (draw.reclock d.id) d = true)
      (hep : ¬cleanup → ep ∈ db.endpoints) (hepid : ep.id = d.endpointId)
      (hc : Claimed cleanup w draw db ep d c d' closed opened)
      (hvalid : violation d'.checks = none)
      (hclose : ∀ a, closed = some a → violation a.checks = none)
      (hopen : ∀ a, opened = some a → Opens L db d.id a) :
      Step lib cleanup L db (.claimOne w draw) (.claimed (some c)) (db.move d' closed opened)
  | stale {w webhook result draw}
      (h : ¬cleanup → ∀ d ∈ ownedDeliveries w webhook db, d.attemptCount ≠ webhook.attemptNumber) :
      Step lib cleanup L db (.finalize w webhook result draw) (.finalized false) db
  | settle {w webhook result draw status delay} {d : Delivery} {a : DeliveryAttempt}
      (htarget : target w webhook result draw.randomFraction = .ok (status, delay))
      (hd : d ∈ ownedDeliveries w webhook db) (hcount : d.attemptCount = webhook.attemptNumber)
      (ha : a ∈ claimedAttempts webhook db) (hL : Lock.delivery d.id .update ∈ L)
      (hvalid : violation (settled d result status (delay.map (draw.databaseNow + ·))
        draw.databaseNow).checks = none)
      (hclose : violation (completed a result (delay.map (draw.databaseNow + ·))
        draw.databaseNow).checks = none) :
      Step lib cleanup L db (.finalize w webhook result draw) (.finalized true)
        (db.move (settled d result status (delay.map (draw.databaseNow + ·)) draw.databaseNow)
          (some (completed a result (delay.map (draw.databaseNow + ·)) draw.databaseNow)) none)
  | purge {cutoff batchSize maxEvents res} {ids eventIds : List UUID} (hc : cleanup)
      (hL : Lock.advisory maintenanceLockId ∈ L)
      (hids : ∀ i ∈ ids, Lock.delivery i .update ∈ L)
      (hend : ∀ d ∈ db.deliveries, d.id ∈ ids → d.status.active = false) :
      Step lib cleanup L db (.purge cutoff batchSize maxEvents) (.purged res)
        (db.purged ids eventIds)
  | locked {cutoff batchSize maxEvents res} :
      Step lib cleanup L db (.purge cutoff batchSize maxEvents) (.purged res) db

end EventHarbor
