import EventHarbor.Repositories

/-!
# Retention cleanup

`purge_expired_demo_events`: one transaction that deletes terminal event
histories batch by batch. A `DELETE` selects its rows, locks them one after
the other and then removes those that are still there.
-/

namespace EventHarbor

open Relational Txn

def maintenanceLockId : ℕ := 4815162342

/-- Summary of one bounded cleanup execution. -/
structure CleanupResult where
  lockAcquired : Bool
  deletedEvents : ℕ
  batches : ℕ
deriving DecidableEq, Repr

namespace Maintenance

def hasActiveDelivery (db : Db) (eventId : UUID) : Bool :=
  db.deliveries.rows.any fun d => d.eventId = eventId && d.status.active

/-- `ORDER BY created_at, id`. -/
def olderFirst (a b : Event) : Prop := a.createdAt < b.createdAt ∨ (a.createdAt = b.createdAt ∧ a.id ≤ b.id)

instance : DecidableRel olderFirst := fun a b => by
  unfold olderFirst
  infer_instance

/-- The oldest expired events without active work. -/
def candidateEventIds (cutoff : Time) (limit : ℕ) (db : Db) : List UUID :=
  (((db.events.rows.filter fun e => e.createdAt < cutoff && !hasActiveDelivery db e.id).insertionSort
    olderFirst).take limit).map Event.id

/-- Take the row locks of a `DELETE`, one after the other. -/
def lockAll (rowLock : UUID → Lock) : List UUID → Tx Unit
  | [] => return ()
  | i :: is => do
    acquire (rowLock i)
    lockAll rowLock is

def deliveriesOf (eventIds : List UUID) (db : Db) : List UUID :=
  (db.deliveries.rows.filter (·.eventId ∈ eventIds)).map Delivery.id

/-- `DELETE FROM deliveries WHERE event_id IN (...)`. From here on the batch is
no longer only selected. -/
def deleteDeliveries (eventIds : List UUID) : Tx Unit := do
  let ids ← queryNoting (fun _ => []) (deliveriesOf eventIds)
  lockAll (.delivery · .update) ids
  let remaining ← query fun db => ids.filter fun i => i ∈ deliveriesOf eventIds db
  exec (.deleteDeliveries remaining)

/-- `DELETE FROM events WHERE id IN (...) RETURNING id`. -/
def deleteEvents (eventIds : List UUID) : Tx ℕ := do
  let ids ← query fun db => eventIds.filter fun i => (db.events.get? i).isSome
  lockAll (.event · .update) ids
  let remaining ← query fun db => ids.filter fun i => (db.events.get? i).isSome
  exec (.deleteEvents remaining)
  return remaining.length

/-- Delete one oldest batch only when every delivery is terminal. -/
def deleteTerminalEventBatch (cutoff : Time) (limit : ℕ) : Tx ℕ := do
  let eventIds ← queryNoting id (candidateEventIds cutoff limit)
  if eventIds = [] then return 0
  else
    deleteDeliveries eventIds
    deleteEvents eventIds

/-- `while deleted_events < max_events`; a batch that deletes nothing ends the
loop, so `fuel := max_events` batches are enough. -/
def purgeLoop (cutoff : Time) (batchSize maxEvents : ℕ) :
    (fuel : ℕ) → (deletedEvents batches : ℕ) → Tx CleanupResult
  | 0, deletedEvents, batches => return { lockAcquired := true, deletedEvents, batches }
  | fuel + 1, deletedEvents, batches => do
    if deletedEvents < maxEvents then
      let deleted ← deleteTerminalEventBatch cutoff (min batchSize (maxEvents - deletedEvents))
      if deleted = 0 then return { lockAcquired := true, deletedEvents, batches }
      else purgeLoop cutoff batchSize maxEvents fuel (deletedEvents + deleted) (batches + 1)
    else return { lockAcquired := true, deletedEvents, batches }

/-- Delete bounded terminal history while leaving active work untouched. -/
def purgeExpiredDemoEvents (cutoff : Time) (batchSize maxEvents : ℕ) : Tx CleanupResult := do
  if batchSize < 1 then fail (.value "batch_size must be at least one")
  else if maxEvents < 1 then fail (.value "max_events must be at least one")
  else
    if ← tryAcquire (.advisory maintenanceLockId) then
      purgeLoop cutoff batchSize maxEvents maxEvents 0 0
    else return { lockAcquired := false, deletedEvents := 0, batches := 0 }

end Maintenance

end EventHarbor
