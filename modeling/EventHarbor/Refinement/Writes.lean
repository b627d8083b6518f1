import EventHarbor.Relational.Effects
import EventHarbor.Requests

/-!
# Events are written once, by the request they record

Only a publication writes an event row, and the row it writes has the canonical bytes
of the request. This holds of every interleaving, with retention cleanup, rollbacks
and crashes at any moment.
-/

namespace EventHarbor

open Relational Txn EventService ReplayService DeliveryWorker Maintenance

/-- The row that a request is recorded by. -/
structure Authentic (lib : Lib) (e : Event) : Prop where
  recorded : ∃ request key draw digest, fingerprint lib request = .ok digest ∧
    canonicalJsonBytes lib.floatRepr (bodyDocument lib request draw) = .ok e.payloadBytes ∧
    e = candidate lib request key draw digest e.payloadBytes

/-- Event rows are written as the record of a request. -/
def Write.Authentic (lib : Lib) (w : Write) : Prop :=
  ∀ e, w = .insertEvent e → EventHarbor.Authentic lib e

/-! ## Repositories -/

section Repositories

variable {α τ : Type} {W : Write → Prop}

theorem only_exec {w : Write} (h : W w) : (exec w : Tx Unit).Only W := by
  refine ⟨h, fun o => ?_⟩
  cases o <;> trivial

theorem only_foreignKey (i : Lock) (present : Db → Bool) (c : Constraint) :
    (foreignKey i present c).Only W := by
  refine Only.bind trivial fun _ => Only.bind (fun _ => trivial) fun b => ?_
  cases b <;> trivial

theorem only_scalarOneOrNone (rows : Db → List α) : (scalarOneOrNone rows).Only W := by
  refine Only.bind (fun _ => trivial) fun found => ?_
  rcases found with _ | ⟨r, _ | ⟨r', rest⟩⟩ <;> trivial

theorem only_selectForUpdate (key : α → UUID) (rowLock : UUID → Lock) (rows : Db → List α) :
    (selectForUpdate key rowLock rows).Only W := by
  refine Only.bind (fun _ => trivial) fun found => ?_
  rcases found with _ | ⟨r, _ | ⟨r', rest⟩⟩
  · trivial
  · exact Only.bind trivial fun _ _ => trivial
  · trivial

theorem only_lift (x : Except Error α) : (lift x : Tx α).Only W := by
  cases x <;> trivial

theorem only_create {d : Delivery} (h : W (.insertDelivery d)) :
    (DeliveryRepository.create d).Only W := by
  refine Only.bind (only_exec h) fun _ => Only.bind (only_foreignKey _ _ _) fun _ =>
    Only.bind (only_foreignKey _ _ _) fun _ => ?_
  split
  · trivial
  · exact only_foreignKey _ _ _

theorem only_lockAll (rowLock : UUID → Lock) (is : List UUID) : (lockAll rowLock is).Only W := by
  induction is with
  | nil => trivial
  | cons i is ih => exact Only.bind trivial fun _ => ih

end Repositories

/-! ## Programs -/

section Programs

variable {lib : Lib} {W : Write → Prop}

theorem only_accept {request : EventPublishRequest} {draw : PublishDraw} {endpoint : Endpoint}
    {event : Event} (hevent : W (.insertEvent event)) (hdelivery : ∀ d, W (.insertDelivery d)) :
    (accept request draw endpoint event).Only W := by
  refine Only.bind ⟨hevent, fun o => ?_⟩ fun inserted => ?_
  · dsimp only
    split <;> trivial
  cases inserted with
  | false =>
    refine Only.bind (only_scalarOneOrNone _) fun o => ?_
    cases o with
    | none => trivial
    | some e =>
      dsimp only
      split
      · trivial
      · refine Only.bind (only_scalarOneOrNone _) fun o => ?_
        cases o <;> trivial
  | true =>
    show (acceptInserted request draw endpoint event).Only W
    unfold acceptInserted
    split
    · trivial
    · refine Only.bind (only_create (hdelivery _)) fun _ => Only.bind (fun _ => trivial) fun o => ?_
      cases o <;> trivial

theorem only_publish (request : EventPublishRequest) (key : String) (draw : PublishDraw) :
    (publish lib request key draw).Only (Write.Authentic lib) := by
  refine Only.bind (fun _ => trivial) fun o => ?_
  cases o with
  | none => trivial
  | some endpoint =>
    dsimp only
    cases hdigest : fingerprint lib request with
    | error e => cases e <;> trivial
    | ok digest =>
      cases hbytes : canonicalJsonBytes lib.floatRepr (bodyDocument lib request draw) with
      | error e => cases e <;> trivial
      | ok bytes =>
        refine only_accept (fun e he => ?_) fun d e he => by cases he
        obtain rfl := Write.insertEvent.inj he
        exact ⟨request, key, draw, digest, hdigest, hbytes, rfl⟩

theorem only_supersede (hdelivery : ∀ d, W (.insertDelivery d)) (loaded : IdentityMap)
    (source : Delivery) (key : String) (draw : ReplayDraw) :
    (supersede lib loaded source key draw).Only W := by
  refine Only.bind (Only.bind (fun _ => trivial) fun _ => trivial) fun o => ?_
  cases o with
  | none => trivial
  | some latest =>
    dsimp only
    split
    · trivial
    split
    · trivial
    refine Only.bind (fun _ => trivial) fun attempts => ?_
    split
    · trivial
    refine Only.bind (Only.bind (only_scalarOneOrNone _) fun _ => trivial) fun o => ?_
    cases o with
    | some active => trivial
    | none =>
      refine Only.bind (fun _ => trivial) fun o => ?_
      cases o with
      | none => trivial
      | some endpoint =>
        dsimp only
        split
        · trivial
        · exact Only.bind (only_create (hdelivery _)) fun _ => trivial

theorem only_replay (hdelivery : ∀ d, W (.insertDelivery d)) (i : UUID) (key : String)
    (draw : ReplayDraw) : (replay lib i key draw).Only W := by
  refine Only.bind (fun _ => trivial) fun o => ?_
  cases o with
  | none => trivial
  | some candidate =>
    refine Only.bind (only_selectForUpdate _ _ _) fun o => ?_
    cases o with
    | none => trivial
    | some e =>
      refine Only.bind (Only.bind (only_selectForUpdate _ _ _) fun _ => trivial) fun o => ?_
      cases o with
      | none => trivial
      | some source =>
        refine Only.bind (Only.bind (only_scalarOneOrNone _) fun _ => trivial) fun o => ?_
        cases o with
        | some existing => trivial
        | none => exact only_supersede hdelivery _ _ _ _

theorem only_lockFirst (reclock : UUID → Time) (ds : List Delivery) :
    (lockFirst reclock ds).Only W := by
  induction ds with
  | nil => trivial
  | cons d ds ih =>
    refine Only.bind (fun _ => trivial) fun b => ?_
    cases b with
    | false => exact ih
    | true =>
      refine Only.bind (fun _ => trivial) fun b => ?_
      cases b with
      | false => exact ih
      | true =>
        refine Only.bind (fun _ => trivial) fun o => ?_
        cases o with
        | none => exact ih
        | some row =>
          dsimp only
          split
          · trivial
          · exact ih

theorem only_updateDelivery (hdelivery : ∀ d, W (.updateDelivery d)) (d : Delivery) :
    (updateDelivery d).Only W :=
  Only.bind trivial fun _ => only_exec (hdelivery d)

theorem only_updateAttempt (hattempt : ∀ a, W (.updateAttempt a)) (a : DeliveryAttempt) :
    (updateAttempt a).Only W :=
  Only.bind trivial fun _ => only_exec (hattempt a)

theorem only_reserve (hdelivery : ∀ d, W (.updateDelivery d)) (hattempt : ∀ a, W (.insertAttempt a))
    (w : DeliveryWorker) (d : Delivery) (endpoint : Endpoint) (draw : ClaimDraw) :
    (w.reserve d endpoint draw).Only W := by
  refine Only.bind (only_updateDelivery hdelivery _) fun _ =>
    Only.bind (fun _ => trivial) fun o => ?_
  cases o with
  | none => trivial
  | some event =>
    exact Only.bind (only_exec (hattempt _)) fun _ =>
      Only.bind (only_foreignKey _ _ _) fun _ => trivial

theorem only_resolveExpiredAttempt (hdelivery : ∀ d, W (.updateDelivery d))
    (hattempt : ∀ a, W (.updateAttempt a)) (w : DeliveryWorker) (d : Delivery) (b : Bool)
    (draw : ClaimDraw) : (w.resolveExpiredAttempt d b draw).Only W := by
  refine Only.bind (only_selectForUpdate _ _ _) fun o => ?_
  cases o with
  | none => trivial
  | some attempt =>
    show (w.resolveLocked d b draw attempt).Only W
    unfold resolveLocked
    dsimp only
    split
    · exact Only.bind (only_updateDelivery hdelivery _) fun _ =>
        Only.bind (only_updateAttempt hattempt _) fun _ => trivial
    · exact Only.bind (only_lift _) fun _ => Only.bind (only_updateDelivery hdelivery _) fun _ =>
        Only.bind (only_updateAttempt hattempt _) fun _ => trivial

theorem only_claimOne (hdelivery : ∀ d, W (.updateDelivery d)) (hinsert : ∀ a, W (.insertAttempt a))
    (hattempt : ∀ a, W (.updateAttempt a)) (w : DeliveryWorker) (draw : ClaimDraw) :
    (w.claimOne draw).Only W := by
  refine Only.bind (fun _ => trivial) fun candidates =>
    Only.bind (only_lockFirst _ _) fun o => ?_
  cases o with
  | none => trivial
  | some d =>
    refine Only.bind (Only.bind (fun _ => trivial) fun o => ?_) fun _ => trivial
    cases o with
    | none => trivial
    | some endpoint =>
      dsimp only
      split
      · refine Only.bind (only_resolveExpiredAttempt hdelivery hattempt _ _ _ _) fun r => ?_
        cases r with
        | inr resolution => trivial
        | inl d => exact only_reserve hdelivery hinsert _ _ _ _
      · split
        · exact Only.bind (Only.bind (only_lift _) fun _ =>
            Only.bind (only_updateDelivery hdelivery _) fun _ => trivial) fun _ => trivial
        · exact Only.bind (only_lift _) fun _ => only_reserve hdelivery hinsert _ _ _ _

theorem only_finalize (hdelivery : ∀ d, W (.updateDelivery d))
    (hattempt : ∀ a, W (.updateAttempt a)) (w : DeliveryWorker) (webhook : OutboundWebhook)
    (result : AttemptResult) (draw : FinalizeDraw) :
    (w.finalize webhook result draw).Only W := by
  refine Only.bind (only_lift _) fun target => ?_
  obtain ⟨status, delay⟩ := target
  refine Only.bind (only_selectForUpdate _ _ _) fun o => ?_
  cases o with
  | none => trivial
  | some d =>
    show (finalizeLocked webhook result status delay draw.databaseNow d).Only W
    unfold finalizeLocked
    split
    · trivial
    refine Only.bind (only_selectForUpdate _ _ _) fun o => ?_
    cases o with
    | none => trivial
    | some attempt =>
      exact Only.bind (only_lift _) fun _ => Only.bind (only_lift _) fun _ =>
        Only.bind (only_updateDelivery hdelivery _) fun _ => Only.bind (only_lift _) fun _ =>
          Only.bind (only_updateAttempt hattempt _) fun _ => trivial

theorem only_purgeLoop (hdeliveries : ∀ is, W (.deleteDeliveries is))
    (hevents : ∀ is, W (.deleteEvents is)) (cutoff : Time) (batchSize maxEvents fuel : ℕ) :
    ∀ deleted batches, (purgeLoop cutoff batchSize maxEvents fuel deleted batches).Only W := by
  induction fuel with
  | zero => exact fun _ _ => trivial
  | succ fuel ih =>
    intro deleted batches
    unfold purgeLoop
    split
    · refine Only.bind (Only.bind (fun _ => trivial) fun ids => ?_) fun n => ?_
      · split
        · trivial
        · refine Only.bind (Only.bind (fun _ => trivial) fun _ => Only.bind (only_lockAll _ _)
            fun _ => Only.bind (fun _ => trivial) fun _ => only_exec (hdeliveries _)) fun _ => ?_
          exact Only.bind (fun _ => trivial) fun _ => Only.bind (only_lockAll _ _) fun _ =>
            Only.bind (fun _ => trivial) fun _ => Only.bind (only_exec (hevents _)) fun _ => trivial
      · split
        · trivial
        · exact ih _ _
    · trivial

end Programs

variable {lib : Lib}

/-- Every event that a request writes is its record. -/
theorem only_code (lib : Lib) : ∀ r : Request, (r.code lib).Only (Write.Authentic lib)
  | .createEndpoint url request draw => by
    refine Only.bind ?_ fun _ => trivial
    unfold EndpointService.create
    dsimp only
    split
    · trivial
    · exact Only.bind (only_exec fun e he => by cases he) fun _ => trivial
  | .setEnabled i b now => by
    refine Only.bind (Only.bind (fun _ => trivial) fun o => ?_) fun _ => trivial
    cases o with
    | none => trivial
    | some _ =>
      refine Only.bind trivial fun _ => Only.bind (fun _ => trivial) fun o => ?_
      cases o with
      | none => trivial
      | some row => exact Only.bind (only_exec fun e he => by cases he) fun _ => trivial
  | .publish request key draw => Only.bind (only_publish request key draw) fun _ => trivial
  | .replay i key draw =>
    Only.bind (only_replay (fun d e he => by cases he) i key draw) fun _ => trivial
  | .claimOne w draw =>
    Only.bind (only_claimOne (fun d e he => by cases he) (fun a e he => by cases he)
      (fun a e he => by cases he) w draw) fun _ => trivial
  | .finalize w webhook result draw =>
    Only.bind (only_finalize (fun d e he => by cases he) (fun a e he => by cases he)
      w webhook result draw) fun _ => trivial
  | .purge cutoff batchSize maxEvents => by
    refine Only.bind ?_ fun _ => trivial
    unfold purgeExpiredDemoEvents
    split
    · trivial
    split
    · trivial
    refine Only.bind (fun _ => trivial) fun b => ?_
    cases b with
    | false => trivial
    | true => exact only_purgeLoop (fun _ e he => by cases he) (fun _ e he => by cases he) _ _ _ _ _ _

/-- Every event of every run is the record of a request. -/
theorem events_authentic {P : List Shown → System → Shown → System → Prop} {ls : List Shown}
    {s : System} (hr : Sys.Run (Request.code lib) P [] (.idle Db.empty) ls s) :
    ∀ e ∈ s.db.events, Authentic lib e := by
  refine hr.invariant (I := fun db => ∀ e ∈ db.events, Authentic lib e) (only_code lib)
    (fun e he => absurd he (Table.not_mem_empty e)) fun w db hw hdb e he => ?_
  cases w with
  | insertEvent e' =>
    rcases Table.mem_of_mem_insert he with he | rfl
    · exact hdb e he
    · exact hw e rfl
  | deleteEvents ids => exact hdb e (Table.mem_filter.mp he).1
  | _ => exact hdb e he

end EventHarbor
