import EventHarbor.Atomic.Ledger
import EventHarbor.Atomic.Chain

/-!
# The invariant of the store

References resolve, idempotency keys are unique, every delivery is in order
with its attempts and every event with its generations. One lemma for each
kind of change; `Step.inv` puts them together.
-/

namespace EventHarbor

open Relational DeliveryWorker EventService ReplayService

/-- The committed request an event records. -/
structure Accepted (lib : Lib) (db : Db) (e : Event) (request : EventPublishRequest) : Prop where
  source : e.source = localSource
  type : e.eventType = request.type
  data : e.payload = request.data
  fingerprint : fingerprint lib request = .ok e.requestFingerprintSha256
  endpoint : ∀ d ∈ db.deliveriesAt e.id, d.endpointId = request.endpointId

/-- What holds of every committed database while no cleanup runs. -/
structure Inv (lib : Lib) (db : Db) : Prop where
  event : ∀ d ∈ db.deliveries, ∃ e ∈ db.events, e.id = d.eventId
  endpoint : ∀ d ∈ db.deliveries, ∃ e ∈ db.endpoints, e.id = d.endpointId
  delivery : ∀ a ∈ db.attempts, ∃ d ∈ db.deliveries, d.id = a.deliveryId
  ledger : ∀ d ∈ db.deliveries, Ledger d (db.attemptsAt d.id)
  keys : ∀ e ∈ db.events, ∀ f ∈ db.events, e.source = f.source →
    e.idempotencyKey = f.idempotencyKey → e = f
  chain : ∀ e ∈ db.events, Chain (db.deliveriesAt e.id)
  accepted : ∀ e ∈ db.events, ∃ request, Accepted lib db e request
  eventChecks : ∀ e ∈ db.events, violation e.checks = none
  deliveryChecks : ∀ d ∈ db.deliveries, violation d.checks = none
  attemptChecks : ∀ a ∈ db.attempts, violation a.checks = none

variable {lib : Lib} {db : Db}

theorem Inv.empty (lib : Lib) : Inv lib Db.empty where
  event := fun d hd => absurd hd (Table.not_mem_empty d)
  endpoint := fun d hd => absurd hd (Table.not_mem_empty d)
  delivery := fun a ha => absurd ha (Table.not_mem_empty a)
  ledger := fun d hd => absurd hd (Table.not_mem_empty d)
  keys := fun e he => absurd he (Table.not_mem_empty e)
  chain := fun e he => absurd he (Table.not_mem_empty e)
  accepted := fun e he => absurd he (Table.not_mem_empty e)
  eventChecks := fun e he => absurd he (Table.not_mem_empty e)
  deliveryChecks := fun d hd => absurd hd (Table.not_mem_empty d)
  attemptChecks := fun a ha => absurd ha (Table.not_mem_empty a)

theorem deliveriesAt_ids (db : Db) (e : UUID) : ((db.deliveriesAt e).map Delivery.id).Nodup :=
  Table.nodup_filter_map _ db.deliveries.nodup

/-- Deliveries of one event share its chain. -/
theorem Inv.chain_of (h : Inv lib db) {d : Delivery} (hd : d ∈ db.deliveries) :
    Chain (db.deliveriesAt d.eventId) := by
  obtain ⟨e, he, hid⟩ := h.event d hd
  exact hid ▸ h.chain e he

/-- A delivery id that is not in use has no attempts. -/
theorem Inv.attemptsAt_fresh (h : Inv lib db) {i : UUID} (hi : db.deliveries.Fresh i) :
    db.attemptsAt i = [] := by
  apply List.eq_nil_iff_forall_not_mem.mpr
  intro a ha
  obtain ⟨ha, hai⟩ := Db.mem_attemptsAt.mp ha
  obtain ⟨d, hd, hid⟩ := h.delivery a ha
  exact hi d hd (hid.trans hai)

/-- An event id that is not in use has no deliveries. -/
theorem Inv.deliveriesAt_fresh (h : Inv lib db) {i : UUID} (hi : db.events.Fresh i) :
    db.deliveriesAt i = [] := by
  apply List.eq_nil_iff_forall_not_mem.mpr
  intro d hd
  obtain ⟨hd, hdi⟩ := Db.mem_deliveriesAt.mp hd
  obtain ⟨e, he, hid⟩ := h.event d hd
  exact hi e he (hid.trans hdi)

theorem Inv.endpoints (h : Inv lib db) {t : Table Endpoint.id}
    (ht : ∀ e ∈ db.endpoints, ∃ e' ∈ t, e'.id = e.id) : Inv lib { db with endpoints := t } where
  event := h.event
  endpoint := by
    intro d hd
    obtain ⟨e, he, hid⟩ := h.endpoint d hd
    obtain ⟨e', he', hid'⟩ := ht e he
    exact ⟨e', he', hid'.trans hid⟩
  delivery := h.delivery
  ledger := h.ledger
  keys := h.keys
  chain := h.chain
  accepted := by
    intro e he
    obtain ⟨r, hr⟩ := h.accepted e he
    exact ⟨r, hr.source, hr.type, hr.data, hr.fingerprint, hr.endpoint⟩
  eventChecks := h.eventChecks
  deliveryChecks := h.deliveryChecks
  attemptChecks := h.attemptChecks

theorem deliveriesAt_insert {db' : Db} {d : Delivery} (hdb : db'.deliveries = db.deliveries.insert d)
    (hd : db.deliveries.Fresh d.id) (e : UUID) :
    db'.deliveriesAt e = db.deliveriesAt e ++ if d.eventId = e then [d] else [] := by
  rw [Db.deliveriesAt, hdb, Table.filter_rows_insert hd]
  by_cases h : d.eventId = e <;> simp [Db.deliveriesAt, h]

theorem Inv.accept (h : Inv lib db) {request : EventPublishRequest} {key digest : String}
    {draw : PublishDraw} {bytes : Bytes} {ep : Endpoint} (hid : ep.id = request.endpointId)
    (hep : ∃ e ∈ db.endpoints, e.id = ep.id) (hdigest : fingerprint lib request = .ok digest)
    (hvalid : violation (candidate lib request key draw digest bytes).checks = none)
    (hevent : db.events.Fresh draw.eventId)
    (hkey : ∀ e ∈ db.events, e.source = localSource → e.idempotencyKey ≠ key)
    (hdelivery : db.deliveries.Fresh draw.deliveryId) :
    Inv lib { db with
      events := db.events.insert (candidate lib request key draw digest bytes)
      deliveries := db.deliveries.insert (initialDelivery ep draw) } := by
  have hE := fun e : Event => Table.mem_insert (s := e)
    (show db.events.Fresh (candidate lib request key draw digest bytes).id from hevent)
  have hD := fun d : Delivery => Table.mem_insert (s := d)
    (show db.deliveries.Fresh (initialDelivery ep draw).id from hdelivery)
  -- The new delivery belongs to no older event.
  have hold : ∀ e ∈ db.events, draw.eventId ≠ e.id := fun e he heq => hevent e he heq.symm
  have hat : ∀ e, Db.deliveriesAt { db with
      events := db.events.insert (candidate lib request key draw digest bytes)
      deliveries := db.deliveries.insert (initialDelivery ep draw) } e =
      db.deliveriesAt e ++ if draw.eventId = e then [initialDelivery ep draw] else [] :=
    fun e => deliveriesAt_insert (d := initialDelivery ep draw) rfl hdelivery e
  refine ⟨?_, ?_, ?_, ?_, ?_, ?_, ?_, ?_, ?_, h.attemptChecks⟩
  · intro d hd
    rcases (hD d).mp hd with hd | rfl
    · obtain ⟨e, he, hide⟩ := h.event d hd
      exact ⟨e, (hE e).mpr (.inl he), hide⟩
    · exact ⟨_, (hE _).mpr (.inr rfl), rfl⟩
  · intro d hd
    rcases (hD d).mp hd with hd | rfl
    · exact h.endpoint d hd
    · exact hep
  · intro a ha
    obtain ⟨d, hd, hda⟩ := h.delivery a ha
    exact ⟨d, (hD d).mpr (.inl hd), hda⟩
  · intro d hd
    rcases (hD d).mp hd with hd | rfl
    · exact h.ledger d hd
    · have hnil : db.attemptsAt draw.deliveryId = [] := h.attemptsAt_fresh hdelivery
      exact hnil ▸ Ledger.initial rfl rfl ⟨rfl, rfl, rfl⟩ rfl
  · intro e he f hf hs hk
    rcases (hE e).mp he with he | rfl <;> rcases (hE f).mp hf with hf | rfl
    · exact h.keys e he f hf hs hk
    · exact absurd hk (hkey e he hs)
    · exact absurd hk.symm (hkey f hf hs.symm)
    · rfl
  · intro e he
    rcases (hE e).mp he with he | rfl
    · rw [hat, if_neg (hold e he), List.append_nil]
      exact h.chain e he
    · rw [hat, show (candidate lib request key draw digest bytes).id = draw.eventId from rfl,
        h.deliveriesAt_fresh hevent, if_pos rfl]
      exact .initial rfl rfl rfl
  · intro e he
    rcases (hE e).mp he with he | rfl
    · obtain ⟨r, hr⟩ := h.accepted e he
      refine ⟨r, hr.source, hr.type, hr.data, hr.fingerprint, fun d hd => hr.endpoint d ?_⟩
      rwa [hat, if_neg (hold e he), List.append_nil] at hd
    · refine ⟨request, rfl, rfl, rfl, hdigest, fun d hd => ?_⟩
      rw [hat, show (candidate lib request key draw digest bytes).id = draw.eventId from rfl,
        h.deliveriesAt_fresh hevent, if_pos rfl, List.nil_append, List.mem_singleton] at hd
      exact hd ▸ hid
  · intro e he
    rcases (hE e).mp he with he | rfl
    · exact h.eventChecks e he
    · exact hvalid
  · intro d hd
    rcases (hD d).mp hd with hd | rfl
    · exact h.deliveryChecks d hd
    · rfl

theorem Inv.supersede (h : Inv lib db) {key : String} {draw : ReplayDraw} {source : Delivery}
    (hfresh : db.deliveries.Fresh draw.id)
    (hvalid : violation (successor source key draw).checks = none)
    (hsource : source ∈ db.deliveries)
    (hs : source.status = .deadLettered)
    (hmax : ∀ d ∈ db.deliveries, d.eventId = source.eventId →
      d.replayGeneration ≤ source.replayGeneration) :
    Inv lib { db with deliveries := db.deliveries.insert (successor source key draw) } := by
  have hD := fun d : Delivery => Table.mem_insert (s := d)
    (show db.deliveries.Fresh (successor source key draw).id from hfresh)
  refine ⟨?_, ?_, ?_, ?_, h.keys, ?_, ?_, h.eventChecks, ?_, h.attemptChecks⟩
  · intro d hd
    rcases (hD d).mp hd with hd | rfl
    · exact h.event d hd
    · exact h.event source hsource
  · intro d hd
    rcases (hD d).mp hd with hd | rfl
    · exact h.endpoint d hd
    · exact h.endpoint source hsource
  · intro a ha
    obtain ⟨d, hd, hda⟩ := h.delivery a ha
    exact ⟨d, (hD d).mpr (.inl hd), hda⟩
  · intro d hd
    rcases (hD d).mp hd with hd | rfl
    · exact h.ledger d hd
    · have hnil : db.attemptsAt draw.id = [] := h.attemptsAt_fresh hfresh
      exact hnil ▸ Ledger.initial rfl rfl ⟨rfl, rfl, rfl⟩ rfl
  · intro e he
    rw [deliveriesAt_insert rfl hfresh]
    by_cases heq : source.eventId = e.id
    · rw [if_pos (show (successor source key draw).eventId = e.id from heq)]
      refine (h.chain e he).extend (Db.mem_deliveriesAt.mpr ⟨hsource, heq⟩) hs ?_ rfl rfl rfl rfl
      intro x hx
      obtain ⟨hx, hxe⟩ := Db.mem_deliveriesAt.mp hx
      exact hmax x hx (hxe.trans heq.symm)
    · rw [if_neg (show (successor source key draw).eventId ≠ e.id from heq), List.append_nil]
      exact h.chain e he
  · intro e he
    obtain ⟨r, hr⟩ := h.accepted e he
    refine ⟨r, hr.source, hr.type, hr.data, hr.fingerprint, fun d hd => ?_⟩
    obtain ⟨hd, hde⟩ := Db.mem_deliveriesAt.mp hd
    rcases (hD d).mp hd with hd | rfl
    · exact hr.endpoint d (Db.mem_deliveriesAt.mpr ⟨hd, hde⟩)
    · exact hr.endpoint source (Db.mem_deliveriesAt.mpr ⟨hsource, hde⟩)
  · intro d hd
    rcases (hD d).mp hd with hd | rfl
    · exact h.deliveryChecks d hd
    · exact hvalid

theorem Inv.move (h : Inv lib db) {L : List Lock} {d d' : Delivery}
    {closed opened : Option DeliveryAttempt} (hm : Moves db d d' closed opened)
    (hvalid : violation d'.checks = none)
    (hclose : ∀ a, closed = some a → violation a.checks = none)
    (hopen : ∀ a, opened = some a → Opens L db d.id a)
    (hl : Ledger d' (closeAttempt closed (db.attemptsAt d.id) ++ opened.toList)) :
    Inv lib (db.move d' closed opened) := by
  have hD := fun x : Delivery => mem_move_deliveries (x := x) hm
  have hfresh : ∀ b, opened = some b → db.attempts.Fresh b.id := fun b hb => (hopen b hb).id
  refine ⟨?_, ?_, ?_, ?_, h.keys, ?_, ?_, h.eventChecks, ?_, ?_⟩
  · intro x hx
    rcases (hD x).mp hx with ⟨hx, -⟩ | rfl
    · exact h.event x hx
    · exact hm.same.eventId ▸ h.event d hm.mem
  · intro x hx
    rcases (hD x).mp hx with ⟨hx, -⟩ | rfl
    · exact h.endpoint x hx
    · exact hm.same.endpointId ▸ h.endpoint d hm.mem
  · -- The delivery of an attempt is still there, moved or not.
    have hkeep : ∀ x ∈ db.deliveries, ∃ y ∈ (db.move d' closed opened).deliveries, y.id = x.id := by
      intro x hx
      by_cases hxd : x = d
      · exact ⟨d', (hD d').mpr (.inr rfl), hxd ▸ hm.same.id⟩
      · exact ⟨x, (hD x).mpr (.inl ⟨hx, hxd⟩), rfl⟩
    intro a ha
    rcases mem_move_attempts hm ha with ha | ha | ha
    · obtain ⟨x, hx, hid⟩ := h.delivery a ha
      obtain ⟨y, hy, hyx⟩ := hkeep x hx
      exact ⟨y, hy, hyx.trans hid⟩
    · obtain ⟨a₀, -, hid, hsame, -⟩ := hm.closes a ha
      exact ⟨d', (hD d').mpr (.inr rfl), by rw [hm.same.id, ← hid, hsame.deliveryId]⟩
    · exact ⟨d', (hD d').mpr (.inr rfl), by rw [hm.opens a ha, hm.same.id]⟩
  · intro x hx
    rcases (hD x).mp hx with ⟨hx, hne⟩ | rfl
    · have hid : x.id ≠ d.id := fun hk => hne (Table.eq_of_key hx hm.mem hk)
      rw [attemptsAt_move_of_ne hm hfresh hid]
      exact h.ledger x hx
    · rw [hm.same.id, attemptsAt_move hm hfresh]
      exact hl
  · intro e he
    rw [deliveriesAt_move hm]
    by_cases hde : d ∈ db.deliveriesAt e.id
    · exact (h.chain e he).overwrite (deliveriesAt_ids db e.id) hde hm.active hm.same
    · have hsame : (db.deliveriesAt e.id).map (Table.overwrite Delivery.id d') =
          db.deliveriesAt e.id := by
        refine (List.map_congr_left fun x hx => Table.overwrite_of_ne fun hk => hde ?_).trans
          (List.map_id _)
        have := Table.eq_of_key (Db.mem_deliveriesAt.mp hx).1 hm.mem (hk.trans hm.same.id)
        exact this ▸ hx
      rw [hsame]
      exact h.chain e he
  · intro e he
    obtain ⟨r, hr⟩ := h.accepted e he
    refine ⟨r, hr.source, hr.type, hr.data, hr.fingerprint, fun x hx => ?_⟩
    obtain ⟨hx, hxe⟩ := Db.mem_deliveriesAt.mp hx
    rcases (hD x).mp hx with ⟨hx, -⟩ | rfl
    · exact hr.endpoint x (Db.mem_deliveriesAt.mpr ⟨hx, hxe⟩)
    · rw [hm.same.endpointId]
      exact hr.endpoint d (Db.mem_deliveriesAt.mpr ⟨hm.mem, hm.same.eventId ▸ hxe⟩)
  · intro x hx
    rcases (hD x).mp hx with ⟨hx, -⟩ | rfl
    · exact h.deliveryChecks x hx
    · exact hvalid
  · intro a ha
    rcases mem_move_attempts hm ha with ha | ha | ha
    · exact h.attemptChecks a ha
    · exact hclose a ha
    · exact (hopen a ha).valid

/-- Every step keeps the invariant. -/
theorem Step.inv {cleanup : Prop} {L : List Lock} {r : Request} {a : Response} {db' : Db}
    (hno : ¬cleanup) (hstep : Step lib cleanup L db r a db') (h : Inv lib db) : Inv lib db' := by
  have hpersist := (hstep.effect.persist fun hc => absurd hc hno).endpoints
  cases hstep with
  | register hfresh hL => exact h.endpoints hpersist
  | enable hrow hid hL => exact h.endpoints hpersist
  | absent => exact h
  | accept hid hep hdigest hbytes hvalid hevent hkey hdelivery hLe hLk hLd hLs =>
    exact h.accept hid hep hdigest hvalid hevent hkey hdelivery
  | duplicate => exact h
  | supersede hid hfresh hvalid hLd hLs hsource =>
    obtain ⟨hm, hs, hmax⟩ := hsource hno
    exact h.supersede hfresh hvalid hm hs hmax
  | repeated => exact h
  | idle => exact h
  | claim hd hL hdue hep hepid hc hvalid hclose hopen =>
    exact h.move (hc.moves hd) hvalid hclose hopen (hc.ledger hopen (h.ledger _ hd))
  | stale => exact h
  | settle htarget hd hcount ha hL hvalid hclose =>
    refine h.move (L := L) (settle_moves hd ha _ _ _ _) hvalid ?_ (fun a h => by cases h) ?_
    · rintro _ ⟨⟩
      exact hclose
    rw [Option.toList_none, List.append_nil]
    exact settle_ledger htarget hd ha _ (h.ledger _ (mem_ownedDeliveries.mp hd).1)
  | purge hc hL hids hend => exact absurd hc hno
  | locked => exact h

end EventHarbor
