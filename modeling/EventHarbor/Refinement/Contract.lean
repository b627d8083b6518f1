import EventHarbor.Atomic.Constraints
import EventHarbor.Relational.Interference

/-!
# The contract of the transactions

Every transaction commits a `Step`, raises only what `Raises` allows and
deletes deliveries only when they are no longer active. What a transaction
may rely on between two of its statements follows from the locks it holds.
-/

namespace EventHarbor

open Relational Txn DeliveryWorker EventService ReplayService

/-! ## Errors -/

/-- An error that is not a broken assumption of the code. -/
structure Error.Foreseen (e : Error) : Prop where
  runtime : ∀ m, e ≠ .runtime m
  multiple : e ≠ .multipleResultsFound
  transition : ∀ m, e ≠ .invalidDeliveryTransition m

/-- `request` asks again for what made `ev`. -/
structure Repeats (lib : Lib) (request : EventPublishRequest) (key : String) (draw : PublishDraw)
    (ev : Event) (db : Db) : Prop where
  digest : fingerprint lib request = .ok ev.requestFingerprintSha256
  body : ∃ bytes, canonicalJsonBytes lib.floatRepr (bodyDocument lib request draw) = .ok bytes ∧
    violation (candidate lib request key draw ev.requestFingerprintSha256 bytes).checks = none
  initial : ∃ d ∈ db.deliveries, d.eventId = ev.id ∧ d.endpointId = request.endpointId ∧
    d.replayGeneration = 0

/-- A drawn jitter fraction. -/
def FinalizeDraw.Fair (draw : FinalizeDraw) : Prop :=
  0 ≤ draw.randomFraction ∧ draw.randomFraction ≤ 1

/-- The errors a request started on `b` may raise on `db`. -/
def Raises (lib : Lib) : Request → (b : Db) → Error → (db : Db) → Prop
  | .publish request key draw, b, e, db => e ≠ .multipleResultsFound ∧
      ∀ ev ∈ b.events, ev.source = localSource → ev.idempotencyKey = key →
        (∃ ep ∈ b.endpoints, ep.id = request.endpointId) → ¬Repeats lib request key draw ev db
  | .replay i key _, b, e, _ => e.Foreseen ∧ (∀ j, e ≠ activeDeliveryExists j) ∧
      ∀ d ∈ b.deliveries, d.replayedFromDeliveryId = some i →
        d.replayIdempotencyKey ≠ some key ∧ ∃ j, e = replaySourceSuperseded i j
  | .claimOne _ _, _, e, _ => ∃ c, e = .database c
  | .finalize _ _ result draw, _, e, _ => e.Foreseen ∧
      ¬(result.storable = true ∧ FinalizeDraw.Fair draw)
  | _, _, e, _ => e ≠ .multipleResultsFound

/-- Deliveries are deleted only when they are no longer active. -/
def Permitted : Write → Db → Prop
  | .deleteDeliveries ids, db => ∀ d ∈ db.deliveries, d.id ∈ ids → d.status.active = false
  | _, _ => True

/-- No delivery is added to the events `g`. -/
def Undisturbed (g : List UUID) (db db' : Db) : Prop :=
  ∀ d ∈ db'.deliveries, d.eventId ∈ g → ∃ d₀ ∈ db.deliveries, d₀.id = d.id

def contract (lib : Lib) (cleanup : Prop) :
    Contract Request Db Write Lock (List UUID) Error Response where
  admits h
    | .finalize _ webhook _ _ => cleanup ∨ webhook ∈ issued h
    | .purge _ _ _ => cleanup
    | _ => True
  inv db := ¬cleanup → Inv lib db
  commits r a L db db' := Step lib cleanup L db r a db'
  fails r b e db := ¬cleanup → Raises lib r b e db
  writes := Permitted
  tolerates g db db' := cleanup → Undisturbed g db db'

/-! ## Constraints -/

theorem check_eq_none {w : Write} {db : Db} :
    Engine.check w db = (none : Option Error) ↔ violation (w.checks db) = none := by
  simp [Engine.check]

theorem check_eq_some {w : Write} {db : Db} {e : Error} (h : Engine.check w db = some e) :
    ∃ c, e = .database c := by
  obtain ⟨c, -, rfl⟩ := Option.map_eq_some_iff.mp h
  exact ⟨c, rfl⟩

theorem foreseen_database (c : Constraint) : (Error.database c).Foreseen :=
  ⟨by simp, by simp, by simp⟩

/-! ## Interference -/

theorem not_mem_of_compatible {L L' : List Lock} (h : Contract.Compatible Db Write L L') {i j : Lock}
    (hi : i ∈ L) (hij : i.conflict j = true) : j ∉ L' := by
  intro hj
  have : i.conflict j = false := h i hi j hj
  rw [hij] at this
  cases this

section Relies

variable {lib : Lib} {cleanup : Prop} {g : List UUID} {L : List Lock} {db db' : Db}

/-- Induction over the commits of others. -/
theorem relies_induction {P : Db → Prop} (h : (contract lib cleanup).Relies g L db db')
    (hstep : ∀ {d d' L' r a}, Contract.Compatible Db Write L L' →
      (cleanup → Undisturbed g d d') → Step lib cleanup L' d r a d' → P d → P d') :
    P db → P db' := by
  intro hP
  induction h with
  | refl => exact hP
  | tail _ hr ih =>
    obtain ⟨-, ht, r, a, L', hc, hs⟩ := hr
    exact hstep hc ht hs ih

theorem relies_inv (h : (contract lib cleanup).Relies g L db db')
    (hinv : ¬cleanup → Inv lib db) : ¬cleanup → Inv lib db' := by
  refine relies_induction (P := fun d => ¬cleanup → Inv lib d) h ?_ hinv
  intro d d' L' r a _ _ hs hd hno
  exact hs.inv hno (hd hno)

/-- Without a cleanup, or past its lock, rows persist. -/
theorem relies_persist (h : (contract lib cleanup).Relies g L db db')
    (hno : cleanup → Lock.advisory maintenanceLockId ∈ L) : Persist db db' := by
  refine relies_induction (P := fun d => Persist db d) h ?_ (.refl db)
  intro d d' L' r a hc _ hs hd
  exact hd.trans (hs.effect.persist fun hcl => not_mem_of_compatible hc (hno hcl) (by simp [Lock.conflict]))

theorem relies_endpoints (h : (contract lib cleanup).Relies g L db db') {i : UUID}
    (he : ∃ e ∈ db.endpoints, e.id = i) : ∃ e ∈ db'.endpoints, e.id = i := by
  refine relies_induction (P := fun d => ∃ e ∈ d.endpoints, e.id = i) h ?_ he
  rintro d d' L' r a hc _ hs ⟨e, hmem, rfl⟩
  exact hs.effect.endpoint_exists hmem

/-- A lock on a delivery keeps its row and its attempts. -/
theorem relies_delivery (h : (contract lib cleanup).Relies g L db db') {i : UUID}
    (hL : Lock.delivery i .update ∈ L) :
    (∀ d ∈ db.deliveries, d.id = i → d ∈ db'.deliveries) ∧
      db'.attemptsAt i = db.attemptsAt i := by
  refine relies_induction (P := fun x => (∀ d ∈ db.deliveries, d.id = i → d ∈ x.deliveries) ∧
      x.attemptsAt i = db.attemptsAt i) h ?_ ⟨fun d hd _ => hd, rfl⟩
  rintro x x' L' r a hc _ hs ⟨hd, ha⟩
  have hfree : Lock.delivery i .update ∉ L' :=
    not_mem_of_compatible hc hL (by simp [Lock.conflict, RowLock.conflict])
  obtain ⟨hd', ha'⟩ := hs.effect.delivery_kept hfree
  exact ⟨fun d hm hid => hd' d (hd d hm hid) hid, ha'.trans ha⟩

/-- A lock on an endpoint keeps its row. -/
theorem relies_endpoint (h : (contract lib cleanup).Relies g L db db') {e : Endpoint}
    {m : RowLock} (hm : m.conflict .noKeyUpdate = true) (hL : Lock.endpoint e.id m ∈ L)
    (he : e ∈ db.endpoints) : e ∈ db'.endpoints := by
  refine relies_induction (P := fun x => e ∈ x.endpoints) h ?_ he
  intro x x' L' r a hc _ hs he
  exact hs.effect.endpoint_kept
    (not_mem_of_compatible hc hL (by simp [Lock.conflict, hm])) he rfl

/-- A lock on an event keeps others from adding deliveries to it. -/
theorem relies_event (h : (contract lib cleanup).Relies g L db db') {i : UUID}
    (hL : Lock.event i .update ∈ L) : ∀ d ∈ db'.deliveries, d.eventId = i →
      ∃ d₀ ∈ db.deliveries, SameDelivery d₀ d := by
  refine relies_induction (P := fun x => ∀ d ∈ x.deliveries, d.eventId = i →
      ∃ d₀ ∈ db.deliveries, SameDelivery d₀ d) h ?_ fun d hd _ => ⟨d, hd, .refl d⟩
  intro x x' L' r a hc _ hs hx d hd hid
  rcases hs.effect.new_delivery hd with ⟨d₀, hd₀, hsame⟩ | ⟨-, hlock⟩
  · obtain ⟨d₁, hd₁, hsame₁⟩ := hx d₀ hd₀ (hsame.eventId ▸ hid)
    exact ⟨d₁, hd₁, hsame₁.trans hsame⟩
  · rw [hid] at hlock
    exact absurd hlock
      (not_mem_of_compatible hc hL (by simp [Lock.conflict, RowLock.conflict]))

theorem not_mem_of_unique {L' : List Lock} (hc : Contract.Compatible Db Write L L') {k : UniqueKey}
    (hL : Lock.unique k ∈ L) : Lock.unique k ∉ L' :=
  not_mem_of_compatible hc hL (by simp [Lock.conflict])

/-- Reserved index entries stay unused by others. -/
theorem relies_fresh_endpoint (h : (contract lib cleanup).Relies g L db db') {i : UUID}
    (hL : Lock.unique (.endpointId i) ∈ L) (hi : db.endpoints.Fresh i) : db'.endpoints.Fresh i := by
  refine relies_induction (P := fun x => x.endpoints.Fresh i) h ?_ hi
  intro x x' L' r a hc _ hs hx e he hid
  rcases hs.effect.new_endpoint he with ⟨e₀, he₀, hid₀⟩ | hlock
  · exact hx e₀ he₀ (hid₀.trans hid)
  · exact not_mem_of_unique hc hL (hid ▸ hlock)

theorem relies_fresh_event (h : (contract lib cleanup).Relies g L db db') {i : UUID}
    (hL : Lock.unique (.eventId i) ∈ L) (hi : db.events.Fresh i) : db'.events.Fresh i := by
  refine relies_induction (P := fun x => x.events.Fresh i) h ?_ hi
  intro x x' L' r a hc _ hs hx e he hid
  rcases hs.effect.new_event he with he | ⟨hlock, -⟩
  · exact hx e he hid
  · exact not_mem_of_unique hc hL (hid ▸ hlock)

theorem relies_fresh_key (h : (contract lib cleanup).Relies g L db db') {source key : String}
    (hL : Lock.unique (.eventIdempotency source key) ∈ L)
    (hk : ∀ e ∈ db.events, e.source = source → e.idempotencyKey ≠ key) :
    ∀ e ∈ db'.events, e.source = source → e.idempotencyKey ≠ key := by
  refine relies_induction (P := fun x => ∀ e ∈ x.events, e.source = source →
    e.idempotencyKey ≠ key) h ?_ hk
  rintro x x' L' r a hc _ hs hx e he rfl rfl
  rcases hs.effect.new_event he with he | ⟨-, hlock⟩
  · exact hx e he rfl rfl
  · exact not_mem_of_unique hc hL hlock

theorem relies_fresh_delivery (h : (contract lib cleanup).Relies g L db db') {i : UUID}
    (hL : Lock.unique (.deliveryId i) ∈ L) (hi : db.deliveries.Fresh i) :
    db'.deliveries.Fresh i := by
  refine relies_induction (P := fun x => x.deliveries.Fresh i) h ?_ hi
  intro x x' L' r a hc _ hs hx d hd hid
  rcases hs.effect.new_delivery hd with ⟨d₀, hd₀, hsame⟩ | ⟨hlock, -⟩
  · exact hx d₀ hd₀ (hsame.id ▸ hid)
  · exact not_mem_of_unique hc hL (hid ▸ hlock)

theorem relies_fresh_attempt (h : (contract lib cleanup).Relies g L db db') {i : UUID}
    (hL : Lock.unique (.attemptId i) ∈ L) (hi : db.attempts.Fresh i) : db'.attempts.Fresh i := by
  refine relies_induction (P := fun x => x.attempts.Fresh i) h ?_ hi
  intro x x' L' r a hc _ hs hx b hb hid
  rcases hs.effect.new_attempt hb with ⟨b₀, hb₀, hsame⟩ | hlock
  · exact hx b₀ hb₀ (hsame.id ▸ hid)
  · exact not_mem_of_unique hc hL (hid ▸ hlock)

end Relies

end EventHarbor
