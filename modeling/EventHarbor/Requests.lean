import EventHarbor.Services
import EventHarbor.Deliveries.Worker
import EventHarbor.Maintenance
import EventHarbor.Relational.System

/-!
# The transactions of EventHarbor

Everything that opens a transaction on the database: the API, the workers, an
operator and the retention job.
-/

namespace EventHarbor

open Relational

/-- A transaction with the values its process supplies. -/
inductive Request
  | createEndpoint (receiverLabUrl : String) (request : EndpointCreateRequest)
      (draw : EndpointDraw)
  | setEnabled (endpointId : UUID) (enabled : Bool) (now : Time)
  | publish (request : EventPublishRequest) (idempotencyKey : String) (draw : PublishDraw)
  | replay (deliveryId : UUID) (idempotencyKey : String) (draw : ReplayDraw)
  | claimOne (worker : DeliveryWorker) (draw : DeliveryWorker.ClaimDraw)
  | finalize (worker : DeliveryWorker) (webhook : OutboundWebhook) (result : AttemptResult)
      (draw : DeliveryWorker.FinalizeDraw)
  | purge (cutoff : Time) (batchSize maxEvents : ℕ)

inductive Response
  | endpoint (e : Endpoint)
  | enabled (found : Bool)
  | published (p : PublishedEvent)
  | replayed (r : ReplayedDelivery)
  | claimed (c : Option Claim)
  | finalized (accepted : Bool)
  | purged (r : CleanupResult)

/-- The program of a request. -/
def Request.code (lib : Lib) : Request → Tx Response
  | createEndpoint url request draw =>
    return .endpoint (← EndpointService.create url request draw)
  | setEnabled i b now => return .enabled (← EndpointService.setEnabled i b now)
  | publish request key draw => return .published (← EventService.publish lib request key draw)
  | replay i key draw => return .replayed (← ReplayService.replay lib i key draw)
  | claimOne w draw => return .claimed (← w.claimOne draw)
  | finalize w webhook result draw => return .finalized (← w.finalize webhook result draw)
  | purge cutoff batchSize maxEvents =>
    return .purged (← Maintenance.purgeExpiredDemoEvents cutoff batchSize maxEvents)

/-- The webhooks that claims have returned. -/
def issued (h : List (Request × Response)) : List OutboundWebhook :=
  h.filterMap fun
    | (_, .claimed (some (.webhook w))) => some w
    | _ => none

@[simp] theorem issued_nil : issued [] = [] := rfl

@[simp] theorem issued_append (h h' : List (Request × Response)) :
    issued (h ++ h') = issued h ++ issued h' := by
  simp [issued]

theorem mem_issued_singleton {r : Request} {a : Response} {w : OutboundWebhook} :
    w ∈ issued [(r, a)] ↔ a = .claimed (some (.webhook w)) := by
  cases a with
  | claimed c =>
    cases c with
    | none => simp [issued]
    | some c => cases c <;> simp [issued, eq_comm]
  | _ => simp [issued]

/-- The database with its open transactions, and what a step of it shows. -/
abbrev System := Sys ℕ Request Db Write Lock (List UUID) Error Response

abbrev Shown := Label ℕ Request Write Error Response

/-- Operation without retention cleanup. A worker finalizes the webhooks that
claims have returned. -/
def Ordinary (ls : List Shown) (_ : System) : Shown → System → Prop
  | .start _ (.finalize _ webhook _ _), _ => webhook ∈ issued (history ls)
  | .start _ (.purge _ _ _), _ => False
  | _, _ => True

instance (ls : List Shown) (s : System) : (m : Shown) → (s' : System) →
    Decidable (Ordinary ls s m s')
  | .start _ (.finalize _ webhook _ _), _ =>
    inferInstanceAs (Decidable (webhook ∈ issued (history ls)))
  | .start _ (.purge _ _ _), _ => .isFalse id
  | .start _ (.createEndpoint _ _ _), _ | .start _ (.setEnabled _ _ _), _
  | .start _ (.publish _ _ _), _ | .start _ (.replay _ _ _), _ | .start _ (.claimOne _ _), _
  | .tau _, _ | .wrote _ _, _ | .commit _ _ _, _ | .fail _ _ _, _ | .abort _, _ => .isTrue trivial

/-- From `s`, reached by `ls`, the steps to `ls'` lead to `s'`. -/
abbrev Continues (lib : Lib) (ls : List Shown) (s : System) (ls' : List Shown) (s' : System) : Prop :=
  Sys.Run (Request.code lib) Ordinary ls s ls' s'

/-- The runs that start with an empty store. -/
abbrev Reaches (lib : Lib) (ls : List Shown) (s : System) : Prop :=
  Continues lib [] (.idle Db.empty) ls s

end EventHarbor
