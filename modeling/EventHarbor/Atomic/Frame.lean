import EventHarbor.Atomic.Step

/-!
# What a step leaves alone

Every step is one of seven effects on the tables. From the effects follow what
persists through any commit, and what a transaction's locks keep others from
changing.
-/

namespace EventHarbor

open Relational DeliveryWorker

theorem SameDelivery.refl (d : Delivery) : SameDelivery d d := ⟨rfl, rfl, rfl, rfl, rfl, rfl, rfl⟩

theorem SameDelivery.trans {d e f : Delivery} (h : SameDelivery d e) (h' : SameDelivery e f) :
    SameDelivery d f where
  id := h'.id.trans h.id
  eventId := h'.eventId.trans h.eventId
  endpointId := h'.endpointId.trans h.endpointId
  replayGeneration := h'.replayGeneration.trans h.replayGeneration
  replayedFrom := h'.replayedFrom.trans h.replayedFrom
  replayKey := h'.replayKey.trans h.replayKey
  createdAt := h'.createdAt.trans h.createdAt

/-- The claim an attempt was made under never changes. -/
structure SameAttempt (a a' : DeliveryAttempt) : Prop where
  id : a'.id = a.id
  deliveryId : a'.deliveryId = a.deliveryId
  attemptNumber : a'.attemptNumber = a.attemptNumber
  leaseToken : a'.leaseToken = a.leaseToken

theorem SameAttempt.refl (a : DeliveryAttempt) : SameAttempt a a := ⟨rfl, rfl, rfl, rfl⟩

theorem SameAttempt.trans {a b c : DeliveryAttempt} (h : SameAttempt a b) (h' : SameAttempt b c) :
    SameAttempt a c where
  id := h'.id.trans h.id
  deliveryId := h'.deliveryId.trans h.deliveryId
  attemptNumber := h'.attemptNumber.trans h.attemptNumber
  leaseToken := h'.leaseToken.trans h.leaseToken

/-! ## Moves -/

/-- What every move of a delivery has in common. -/
structure Moves (db : Db) (d d' : Delivery) (closed opened : Option DeliveryAttempt) : Prop where
  mem : d ∈ db.deliveries
  same : SameDelivery d d'
  active : d.status.active = true
  count : d.attemptCount ≤ d'.attemptCount
  closes : ∀ a', closed = some a' → ∃ a ∈ db.attempts, a.deliveryId = d.id ∧ SameAttempt a a' ∧
    a.status = .inProgress
  opens : ∀ b, opened = some b → b.deliveryId = d.id

theorem active_of_waiting {d : Delivery} (h : d.status = .pending ∨ d.status = .retryWait) :
    d.status.active = true := by
  rcases h with h | h <;> rw [h] <;> rfl

theorem active_of_inProgress {d : Delivery} (h : d.status = .inProgress) :
    d.status.active = true := by
  rw [h]
  rfl

theorem mem_leasedAttempts {d : Delivery} {db : Db} {a : DeliveryAttempt} :
    a ∈ leasedAttempts d db ↔ a ∈ db.attempts ∧ a.deliveryId = d.id ∧
      a.attemptNumber = d.attemptCount ∧ some a.leaseToken = d.leaseToken ∧
      a.status = .inProgress := by
  simp [leasedAttempts, Table.mem_def, and_assoc]

theorem mem_ownedDeliveries {w : DeliveryWorker} {webhook : OutboundWebhook} {db : Db}
    {d : Delivery} : d ∈ ownedDeliveries w webhook db ↔ d ∈ db.deliveries ∧
      d.id = webhook.deliveryId ∧ d.status = .inProgress ∧ d.leaseOwner = some w.owner ∧
      d.leaseToken = some webhook.leaseToken := by
  simp [ownedDeliveries, Table.mem_def, and_assoc]

theorem mem_claimedAttempts {webhook : OutboundWebhook} {db : Db} {a : DeliveryAttempt} :
    a ∈ claimedAttempts webhook db ↔ a ∈ db.attempts ∧ a.id = webhook.attemptId ∧
      a.deliveryId = webhook.deliveryId ∧ a.attemptNumber = webhook.attemptNumber ∧
      a.leaseToken = webhook.leaseToken ∧ a.status = .inProgress := by
  simp [claimedAttempts, Table.mem_def, and_assoc]

theorem Claimed.moves {cleanup : Prop} {w : DeliveryWorker} {draw : ClaimDraw} {db : Db}
    {ep : Endpoint} {d d' : Delivery} {c : Claim} {closed opened : Option DeliveryAttempt}
    (hd : d ∈ db.deliveries) (h : Claimed cleanup w draw db ep d c d' closed opened) :
    Moves db d d' closed opened := by
  cases h with
  | lease hev hmem hs he hr =>
    refine ⟨hd, ⟨rfl, rfl, rfl, rfl, rfl, rfl, rfl⟩, active_of_waiting hs, Nat.le_succ _, ?_, ?_⟩
    · intro a' h; cases h
    · intro b h; cases h; rfl
  | relet hev hmem hs ha he hr =>
    refine ⟨hd, ⟨rfl, rfl, rfl, rfl, rfl, rfl, rfl⟩, active_of_inProgress hs, Nat.le_succ _, ?_, ?_⟩
    · intro a' h
      cases h
      obtain ⟨hm, hid, -, -, hp⟩ := mem_leasedAttempts.mp ha
      exact ⟨_, hm, hid, ⟨rfl, rfl, rfl, rfl⟩, hp⟩
    · intro b h; cases h; rfl
  | expire hs ha hx =>
    refine ⟨hd, ⟨rfl, rfl, rfl, rfl, rfl, rfl, rfl⟩, active_of_inProgress hs, le_refl _, ?_, ?_⟩
    · intro a' h
      cases h
      obtain ⟨hm, hid, -, -, hp⟩ := mem_leasedAttempts.mp ha
      exact ⟨_, hm, hid, ⟨rfl, rfl, rfl, rfl⟩, hp⟩
    · intro b h; cases h
  | drop hs hx =>
    refine ⟨hd, ⟨rfl, rfl, rfl, rfl, rfl, rfl, rfl⟩, active_of_waiting hs, le_refl _, ?_, ?_⟩
    · intro a' h; cases h
    · intro b h; cases h

theorem settle_moves {w : DeliveryWorker} {webhook : OutboundWebhook} {db : Db} {d : Delivery}
    {a : DeliveryAttempt} (hd : d ∈ ownedDeliveries w webhook db)
    (ha : a ∈ claimedAttempts webhook db) (result : AttemptResult) (status : DeliveryStatus)
    (at' : Option Time) (now : Time) :
    Moves db d (settled d result status at' now) (some (completed a result at' now)) none := by
  obtain ⟨hd, hid, hs, -, -⟩ := mem_ownedDeliveries.mp hd
  obtain ⟨ha, -, hda, -, -, hp⟩ := mem_claimedAttempts.mp ha
  refine ⟨hd, ⟨rfl, rfl, rfl, rfl, rfl, rfl, rfl⟩, active_of_inProgress hs, le_refl _, ?_, ?_⟩
  · intro a' h
    cases h
    exact ⟨a, ha, hda.trans hid.symm, ⟨rfl, rfl, rfl, rfl⟩, hp⟩
  · intro b h; cases h

section Move

variable {db : Db} {d d' : Delivery} {closed opened : Option DeliveryAttempt}

theorem mem_move_deliveries (h : Moves db d d' closed opened) {x : Delivery} :
    x ∈ (db.move d' closed opened).deliveries ↔ (x ∈ db.deliveries ∧ x ≠ d) ∨ x = d' :=
  Table.mem_set_of_mem h.mem h.same.id.symm

theorem deliveriesAt_move (h : Moves db d d' closed opened) (e : UUID) :
    (db.move d' closed opened).deliveriesAt e =
      (db.deliveriesAt e).map (Table.overwrite Delivery.id d') :=
  Table.filter_rows_set h.mem h.same.id.symm (by simp [h.same.eventId])

/-- Attempts with one of them closed. -/
def closeAttempt (closed : Option DeliveryAttempt) (as : List DeliveryAttempt) :
    List DeliveryAttempt :=
  closed.elim as fun a => as.map (Table.overwrite DeliveryAttempt.id a)

theorem fresh_set {t : Table DeliveryAttempt.id} {a : DeliveryAttempt} {i : UUID}
    (h : t.Fresh i) : (t.set a).Fresh i := by
  intro b hb
  rcases Table.mem_set.mp hb with ⟨hb, -⟩ | ⟨rfl, q, hq, hk⟩
  · exact h b hb
  · exact hk ▸ h q hq

theorem filter_close (h : Moves db d d' closed opened) (i : UUID) :
    (closed.elim db.attempts db.attempts.set).rows.filter (·.deliveryId = i) =
      closeAttempt closed (db.attemptsAt i) := by
  cases closed with
  | none => rfl
  | some a' =>
    obtain ⟨a, ha, -, hsame, -⟩ := h.closes a' rfl
    exact Table.filter_rows_set ha hsame.id.symm (by simp [hsame.deliveryId])

theorem attemptsAt_move_eq (h : Moves db d d' closed opened)
    (hfresh : ∀ b, opened = some b → db.attempts.Fresh b.id) (i : UUID) :
    (db.move d' closed opened).attemptsAt i =
      closeAttempt closed (db.attemptsAt i) ++ opened.toList.filter (·.deliveryId = i) := by
  rw [← filter_close h i]
  cases opened with
  | none => simp [Db.attemptsAt, Db.move]
  | some b =>
    have hb : (closed.elim db.attempts db.attempts.set).Fresh b.id := by
      cases closed with
      | none => exact hfresh b rfl
      | some a => exact fresh_set (hfresh b rfl)
    exact Table.filter_rows_insert hb _

theorem attemptsAt_move (h : Moves db d d' closed opened)
    (hfresh : ∀ b, opened = some b → db.attempts.Fresh b.id) :
    (db.move d' closed opened).attemptsAt d.id =
      closeAttempt closed (db.attemptsAt d.id) ++ opened.toList := by
  rw [attemptsAt_move_eq h hfresh]
  congr 1
  cases opened with
  | none => rfl
  | some b => simp [h.opens b rfl]

theorem attemptsAt_move_of_ne (h : Moves db d d' closed opened)
    (hfresh : ∀ b, opened = some b → db.attempts.Fresh b.id) {i : UUID} (hi : i ≠ d.id) :
    (db.move d' closed opened).attemptsAt i = db.attemptsAt i := by
  have ho : opened.toList.filter (fun b => decide (b.deliveryId = i)) = [] := by
    cases opened with
    | none => rfl
    | some b => simp [h.opens b rfl, Ne.symm hi]
  rw [attemptsAt_move_eq h hfresh, ho, List.append_nil]
  cases closed with
  | none => rfl
  | some a' =>
    obtain ⟨a, ha, hd, hsame, -⟩ := h.closes a' rfl
    -- The closed attempt belongs to `d`, so nothing selected here has its key.
    have hne : ∀ b ∈ db.attemptsAt i, Table.overwrite DeliveryAttempt.id a' b = b := by
      intro b hb
      obtain ⟨hb, hbi⟩ := Db.mem_attemptsAt.mp hb
      refine Table.overwrite_of_ne fun hk => hi ?_
      rw [← hbi, ← hd, Table.eq_of_key hb ha (hk.trans hsame.id)]
    exact (List.map_congr_left hne).trans (List.map_id _)

theorem mem_move_attempts (h : Moves db d d' closed opened) {x : DeliveryAttempt}
    (hx : x ∈ (db.move d' closed opened).attempts) :
    x ∈ db.attempts ∨ closed = some x ∨ opened = some x := by
  have hold : x ∈ closed.elim db.attempts db.attempts.set → x ∈ db.attempts ∨ closed = some x := by
    intro hx
    cases closed with
    | none => exact .inl hx
    | some a' =>
      obtain ⟨a, ha, -, hsame, -⟩ := h.closes a' rfl
      rcases (Table.mem_set_of_mem ha hsame.id.symm).mp hx with ⟨hx, -⟩ | rfl
      · exact .inl hx
      · exact .inr rfl
  cases opened with
  | none => exact (hold hx).imp_right .inl
  | some b =>
    rcases Table.mem_of_mem_insert hx with hx | rfl
    · exact (hold hx).imp_right .inl
    · exact .inr (.inr rfl)

theorem exists_move_attempt (h : Moves db d d' closed opened) {a : DeliveryAttempt}
    (ha : a ∈ db.attempts) : ∃ x ∈ (db.move d' closed opened).attempts, SameAttempt a x ∧
      (a.status ≠ .inProgress → x = a) := by
  have hclose : ∃ x ∈ closed.elim db.attempts db.attempts.set, SameAttempt a x ∧
      (a.status ≠ .inProgress → x = a) := by
    cases closed with
    | none => exact ⟨a, ha, .refl a, fun _ => rfl⟩
    | some b' =>
      obtain ⟨b, hb, -, hsame, hp⟩ := h.closes b' rfl
      by_cases hab : a = b
      · subst hab
        exact ⟨b', (Table.mem_set_of_mem hb hsame.id.symm).mpr (.inr rfl), hsame,
          fun hn => absurd hp hn⟩
      · exact ⟨a, (Table.mem_set_of_mem hb hsame.id.symm).mpr (.inl ⟨ha, hab⟩), .refl a,
          fun _ => rfl⟩
  obtain ⟨x, hx, hax⟩ := hclose
  cases opened with
  | none => exact ⟨x, hx, hax⟩
  | some b => exact ⟨x, Table.mem_insert_of_mem hx, hax⟩

end Move

/-! ## Effects -/

/-- The effects a step can have on the tables. -/
inductive Effect (cleanup : Prop) (L : List Lock) (db : Db) : Db → Prop
  | none : Effect cleanup L db db
  | register {e : Endpoint} (hfresh : db.endpoints.Fresh e.id)
      (hL : Lock.unique (.endpointId e.id) ∈ L) :
      Effect cleanup L db { db with endpoints := db.endpoints.insert e }
  | enable {row row' : Endpoint} (hrow : row ∈ db.endpoints) (hid : row'.id = row.id)
      (hL : Lock.endpoint row.id .noKeyUpdate ∈ L) :
      Effect cleanup L db { db with endpoints := db.endpoints.set row' }
  | accept {ev : Event} {d : Delivery} (hevent : db.events.Fresh ev.id)
      (hdelivery : db.deliveries.Fresh d.id)
      (hLe : Lock.unique (.eventId ev.id) ∈ L)
      (hLk : Lock.unique (.eventIdempotency ev.source ev.idempotencyKey) ∈ L)
      (hLd : Lock.unique (.deliveryId d.id) ∈ L) (hLs : Lock.event d.eventId .keyShare ∈ L) :
      Effect cleanup L db
        { db with events := db.events.insert ev, deliveries := db.deliveries.insert d }
  | supersede {d : Delivery} (hfresh : db.deliveries.Fresh d.id)
      (hLd : Lock.unique (.deliveryId d.id) ∈ L) (hLs : Lock.event d.eventId .keyShare ∈ L) :
      Effect cleanup L db { db with deliveries := db.deliveries.insert d }
  | move {d d' : Delivery} {closed opened : Option DeliveryAttempt}
      (hm : Moves db d d' closed opened) (hL : Lock.delivery d.id .update ∈ L)
      (hopen : ∀ a, opened = some a → Opens L db d.id a) :
      Effect cleanup L db (db.move d' closed opened)
  | purge {ids eventIds : List UUID} (hc : cleanup) (hL : Lock.advisory maintenanceLockId ∈ L)
      (hids : ∀ i ∈ ids, Lock.delivery i .update ∈ L) :
      Effect cleanup L db (db.purged ids eventIds)

theorem Step.effect {lib : Lib} {cleanup : Prop} {L : List Lock} {db db' : Db} {r : Request}
    {a : Response} (h : Step lib cleanup L db r a db') : Effect cleanup L db db' := by
  cases h with
  | register hfresh hL => exact .register hfresh hL
  | enable hrow hid hL => exact .enable hrow rfl (hid ▸ hL)
  | absent => exact .none
  | accept hid hep hdigest hbytes hvalid hevent hkey hdelivery hLe hLk hLd hLs =>
    exact .accept hevent hdelivery hLe hLk hLd hLs
  | duplicate => exact .none
  | supersede hid hfresh hvalid hLd hLs h => exact .supersede hfresh hLd hLs
  | repeated => exact .none
  | idle => exact .none
  | claim hd hL hdue hep hepid hc hvalid hclose hopen => exact .move (hc.moves hd) hL hopen
  | stale => exact .none
  | settle htarget hd hcount ha hL hvalid hclose =>
    exact .move (settle_moves hd ha _ _ _ _) hL fun a h => by cases h
  | purge hc hL hids hend => exact .purge hc hL hids
  | locked => exact .none

/-! ## What persists -/

/-- Rows are never lost and finished rows never change. -/
structure Persist (db db' : Db) : Prop where
  endpoints : ∀ e ∈ db.endpoints, ∃ e' ∈ db'.endpoints, e'.id = e.id
  events : ∀ e ∈ db.events, e ∈ db'.events
  deliveries : ∀ d ∈ db.deliveries, ∃ d' ∈ db'.deliveries, SameDelivery d d' ∧
    (d.status.active = false → d' = d) ∧ d.attemptCount ≤ d'.attemptCount
  attempts : ∀ a ∈ db.attempts, ∃ a' ∈ db'.attempts, SameAttempt a a' ∧
    (a.status ≠ .inProgress → a' = a)

theorem Persist.refl (db : Db) : Persist db db where
  endpoints := fun e he => ⟨e, he, rfl⟩
  events := fun _ he => he
  deliveries := fun d hd => ⟨d, hd, .refl d, fun _ => rfl, le_refl _⟩
  attempts := fun a ha => ⟨a, ha, .refl a, fun _ => rfl⟩

theorem Persist.trans {db db' db'' : Db} (h : Persist db db') (h' : Persist db' db'') :
    Persist db db'' where
  endpoints := by
    intro e he
    obtain ⟨e', he', hid⟩ := h.endpoints e he
    obtain ⟨e'', he'', hid'⟩ := h'.endpoints e' he'
    exact ⟨e'', he'', hid'.trans hid⟩
  events := fun e he => h'.events e (h.events e he)
  deliveries := by
    intro d hd
    obtain ⟨d', hd', hs, ht, hc⟩ := h.deliveries d hd
    obtain ⟨d'', hd'', hs', ht', hc'⟩ := h'.deliveries d' hd'
    refine ⟨d'', hd'', hs.trans hs', fun hf => ?_, hc.trans hc'⟩
    have := ht hf
    subst this
    exact ht' hf
  attempts := by
    intro a ha
    obtain ⟨a', ha', hs, ht⟩ := h.attempts a ha
    obtain ⟨a'', ha'', hs', ht'⟩ := h'.attempts a' ha'
    refine ⟨a'', ha'', hs.trans hs', fun hf => ?_⟩
    have := ht hf
    subst this
    exact ht' hf

section Effect

variable {cleanup : Prop} {L : List Lock} {db db' : Db}

/-- Endpoints are never deleted. -/
theorem Effect.endpoint_exists (h : Effect cleanup L db db') {e : Endpoint}
    (he : e ∈ db.endpoints) : ∃ e' ∈ db'.endpoints, e'.id = e.id := by
  cases h with
  | register hfresh hL => exact ⟨e, Table.mem_insert_of_mem he, rfl⟩
  | @enable row row' hrow hid hL =>
    by_cases h : e = row
    · exact ⟨row', (Table.mem_set_of_mem hrow hid.symm).mpr (.inr rfl), hid.trans (h ▸ rfl)⟩
    · exact ⟨e, (Table.mem_set_of_mem hrow hid.symm).mpr (.inl ⟨he, h⟩), rfl⟩
  | _ => exact ⟨e, he, rfl⟩

theorem Effect.persist (h : Effect cleanup L db db')
    (hno : cleanup → Lock.advisory maintenanceLockId ∉ L) : Persist db db' := by
  have keep := Persist.refl db
  have hep : ∀ e ∈ db.endpoints, ∃ e' ∈ db'.endpoints, e'.id = e.id := fun e he =>
    h.endpoint_exists he
  cases h with
  | none => exact keep
  | register hfresh hL => exact { keep with endpoints := hep }
  | enable hrow hid hL => exact { keep with endpoints := hep }
  | accept hevent hdelivery hLe hLk hLd hLs =>
    exact { keep with
      events := fun e he => Table.mem_insert_of_mem he
      deliveries := fun d hd =>
        ⟨d, Table.mem_insert_of_mem hd, .refl d, fun _ => rfl, le_refl _⟩ }
  | supersede hfresh hLd hLs =>
    exact { keep with
      deliveries := fun d hd =>
        ⟨d, Table.mem_insert_of_mem hd, .refl d, fun _ => rfl, le_refl _⟩ }
  | @move d d' closed opened hm hL hopen =>
    refine { keep with deliveries := fun x hx => ?_, attempts := fun a ha => ?_ }
    · by_cases hxd : x = d
      · subst hxd
        exact ⟨d', (mem_move_deliveries hm).mpr (.inr rfl), hm.same,
          fun hf => absurd (hm.active.symm.trans hf) (by decide), hm.count⟩
      · exact ⟨x, (mem_move_deliveries hm).mpr (.inl ⟨hx, hxd⟩), .refl x, fun _ => rfl, le_refl _⟩
    · exact exists_move_attempt hm ha
  | purge hc hL hids => exact absurd hL (hno hc)

/-! ## What locks protect -/

theorem Effect.new_endpoint (h : Effect cleanup L db db') {e : Endpoint} (he : e ∈ db'.endpoints) :
    (∃ e₀ ∈ db.endpoints, e₀.id = e.id) ∨ Lock.unique (.endpointId e.id) ∈ L := by
  cases h with
  | register hfresh hL =>
    rcases Table.mem_of_mem_insert he with he | rfl
    · exact .inl ⟨e, he, rfl⟩
    · exact .inr hL
  | @enable row row' hrow hid hL =>
    rcases (Table.mem_set_of_mem hrow hid.symm).mp he with ⟨he, -⟩ | rfl
    · exact .inl ⟨e, he, rfl⟩
    · exact .inl ⟨row, hrow, hid.symm⟩
  | _ => exact .inl ⟨e, he, rfl⟩

theorem Effect.new_event (h : Effect cleanup L db db') {e : Event} (he : e ∈ db'.events) :
    e ∈ db.events ∨ (Lock.unique (.eventId e.id) ∈ L ∧
      Lock.unique (.eventIdempotency e.source e.idempotencyKey) ∈ L) := by
  cases h with
  | accept hevent hdelivery hLe hLk hLd hLs =>
    rcases Table.mem_of_mem_insert he with he | rfl
    · exact .inl he
    · exact .inr ⟨hLe, hLk⟩
  | purge hc hL hids => exact .inl (Table.mem_filter.mp he).1
  | _ => exact .inl he

theorem Effect.new_delivery (h : Effect cleanup L db db') {d : Delivery} (hd : d ∈ db'.deliveries) :
    (∃ d₀ ∈ db.deliveries, SameDelivery d₀ d) ∨
      (Lock.unique (.deliveryId d.id) ∈ L ∧ Lock.event d.eventId .keyShare ∈ L) := by
  cases h with
  | accept hevent hdelivery hLe hLk hLd hLs =>
    rcases Table.mem_of_mem_insert hd with hd | rfl
    · exact .inl ⟨d, hd, .refl d⟩
    · exact .inr ⟨hLd, hLs⟩
  | supersede hfresh hLd hLs =>
    rcases Table.mem_of_mem_insert hd with hd | rfl
    · exact .inl ⟨d, hd, .refl d⟩
    · exact .inr ⟨hLd, hLs⟩
  | move hm hL hopen =>
    rcases (mem_move_deliveries hm).mp hd with ⟨hd, -⟩ | rfl
    · exact .inl ⟨d, hd, .refl d⟩
    · exact .inl ⟨_, hm.mem, hm.same⟩
  | purge hc hL hids => exact .inl ⟨d, (Table.mem_filter.mp hd).1, .refl d⟩
  | _ => exact .inl ⟨d, hd, .refl d⟩

theorem Effect.new_attempt (h : Effect cleanup L db db') {a : DeliveryAttempt}
    (ha : a ∈ db'.attempts) :
    (∃ a₀ ∈ db.attempts, SameAttempt a₀ a) ∨ Lock.unique (.attemptId a.id) ∈ L := by
  cases h with
  | move hm hL hopen =>
    rcases mem_move_attempts hm ha with ha | ha | ha
    · exact .inl ⟨a, ha, .refl a⟩
    · obtain ⟨a₀, ha₀, -, hsame, -⟩ := hm.closes a ha
      exact .inl ⟨a₀, ha₀, hsame⟩
    · exact .inr (hopen a ha).lock
  | purge hc hL hids => exact .inl ⟨a, (Table.mem_filter.mp ha).1, .refl a⟩
  | _ => exact .inl ⟨a, ha, .refl a⟩

/-- A row lock on a delivery keeps its row and its attempts. -/
theorem Effect.delivery_kept (h : Effect cleanup L db db') {i : UUID}
    (hi : Lock.delivery i .update ∉ L) :
    (∀ d ∈ db.deliveries, d.id = i → d ∈ db'.deliveries) ∧
      db'.attemptsAt i = db.attemptsAt i := by
  cases h with
  | accept hevent hdelivery hLe hLk hLd hLs =>
    exact ⟨fun d hd _ => Table.mem_insert_of_mem hd, rfl⟩
  | supersede hfresh hLd hLs => exact ⟨fun d hd _ => Table.mem_insert_of_mem hd, rfl⟩
  | @move d₀ d' closed opened hm hL hopen =>
    have hne : i ≠ d₀.id := by
      rintro rfl
      exact hi hL
    refine ⟨fun d hd hid => ?_, attemptsAt_move_of_ne hm (fun b hb => (hopen b hb).id) hne⟩
    refine (mem_move_deliveries hm).mpr (.inl ⟨hd, ?_⟩)
    rintro rfl
    exact hne hid.symm
  | @purge ids eventIds hc hL hids =>
    have hmem : i ∉ ids := fun h => hi (hids i h)
    refine ⟨fun d hd hid => Table.mem_filter.mpr ⟨hd, by simpa [hid] using hmem⟩, ?_⟩
    simp only [Db.attemptsAt, Db.purged, Table.filter, List.filter_filter]
    apply List.filter_congr
    intro a _
    by_cases ha : a.deliveryId = i
    · simp [ha, hmem]
    · simp [ha]
  | _ => exact ⟨fun d hd _ => hd, rfl⟩

/-- A row lock on an endpoint keeps its row. -/
theorem Effect.endpoint_kept (h : Effect cleanup L db db') {i : UUID}
    (hi : Lock.endpoint i .noKeyUpdate ∉ L) {e : Endpoint} (he : e ∈ db.endpoints)
    (hid : e.id = i) : e ∈ db'.endpoints := by
  cases h with
  | register hfresh hL => exact Table.mem_insert_of_mem he
  | @enable row row' hrow hid' hL =>
    refine (Table.mem_set_of_mem hrow hid'.symm).mpr (.inl ⟨he, ?_⟩)
    rintro rfl
    exact hi (hid ▸ hL)
  | _ => exact he

end Effect

end EventHarbor
