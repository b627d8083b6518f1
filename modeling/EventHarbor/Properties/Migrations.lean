import EventHarbor.Migrations
import EventHarbor.Atomic.Constraints

/-!
# The migrations preserve data

From any database of the first revision in which live leases are in order, the
three upgrades succeed and leave a ledger, and the three downgrades lead back
to the rows they started from.
-/

namespace EventHarbor.Migrations

open EventHarbor Relational

/-! ## What the upgrades make of a row -/

/-- An event with its two hashes. -/
def splitEvent (sha256Hex : Bytes → String) (e : Initial.Event) : Event where
  id := e.id
  source := e.source
  eventType := e.eventType
  idempotencyKey := e.idempotencyKey
  payload := e.payload
  payloadBytes := e.payloadBytes
  requestFingerprintSha256 := e.payloadSha256
  payloadSha256 := sha256Hex e.payloadBytes
  createdAt := e.createdAt

/-- The evidence of an attempt of the first revision. -/
def completedAttempt (a : Initial.DeliveryAttempt) : DeliveryAttempt where
  id := a.id
  deliveryId := a.deliveryId
  attemptNumber := a.attemptNumber
  status := .completed
  leaseToken := a.id
  disposition := some a.disposition
  httpStatusCode := a.httpStatusCode
  errorType := a.errorType
  errorMessage := a.errorMessage
  responseBodyExcerpt := a.responseBodyExcerpt
  durationMs := some a.durationMs
  requestTimestamp := some a.requestTimestamp
  retryScheduledFor := a.retryScheduledFor
  startedAt := some a.startedAt
  finishedAt := some a.finishedAt
  resolvedAt := some a.createdAt
  createdAt := a.createdAt

/-- The evidence reserved for a live lease. -/
def leasedAttempt (d : Initial.Delivery) (leaseToken : UUID) : DeliveryAttempt where
  id := leaseToken
  deliveryId := d.id
  attemptNumber := d.attemptCount
  status := .inProgress
  leaseToken := leaseToken
  disposition := none
  httpStatusCode := none
  errorType := none
  errorMessage := none
  responseBodyExcerpt := none
  durationMs := none
  requestTimestamp := none
  retryScheduledFor := none
  startedAt := none
  finishedAt := none
  resolvedAt := none
  createdAt := d.updatedAt

/-- The deliveries of the first revision whose leases the ledger can take over. -/
structure Ready (deliveries : Table Initial.Delivery.id)
    (attempts : Table Initial.DeliveryAttempt.id) : Prop where
  leased : ∀ d ∈ deliveries, d.status = .inProgress ↔ d.leaseToken.isSome
  counted : ∀ d ∈ deliveries, d.status = .inProgress → 1 ≤ d.attemptCount
  unrecorded : ∀ d ∈ deliveries, d.status = .inProgress → ∀ a ∈ attempts,
    ¬(a.deliveryId = d.id ∧ a.attemptNumber = d.attemptCount)
  active : ∀ d ∈ deliveries, ∀ e ∈ deliveries, d.status.active = true → e.status.active = true →
    d.eventId = e.eventId → d.endpointId = e.endpointId → d = e
  tokens : ∀ d ∈ deliveries, ∀ e ∈ deliveries, d.status = .inProgress → e.status = .inProgress →
    d.leaseToken = e.leaseToken → d = e
  apart : ∀ d ∈ deliveries, d.status = .inProgress → ∀ a ∈ attempts, d.leaseToken ≠ some a.id

/-! ## Statements -/

section Statements

variable {α β μ : Type} {rows : List α} {v : Violation}

theorem check_ok {p : α → Bool} (h : ∀ a ∈ rows, p a = true) : check p rows v = .ok () :=
  if_pos (List.all_eq_true.mpr h)

theorem unique_ok [DecidableEq μ] {k : α → Option μ} {c : Constraint} (h : Unique k rows) :
    unique k rows c = .ok () := if_pos h

end Statements

/-! ## Revision 0002 -/

section Hashes

variable {sha256Hex : Bytes → String} {db : Initial.Db}

theorem length_payloadSha256 (hvalid : db.Valid) {e : Initial.Event} (he : e ∈ db.events) :
    e.payloadSha256.toList.length = 64 :=
  of_decide_eq_true (hvalid.events e he _ (by simp [Initial.Event.checks]))

theorem splitEvent_id (sha256Hex : Bytes → String) (e : Initial.Event) :
    (splitEvent sha256Hex e).id = e.id := rfl

/-- The database after revision 0002. -/
def hashed (sha256Hex : Bytes → String) (db : Initial.Db) : SplitEventHashes.Db where
  endpoints := db.endpoints
  events := db.events.map (splitEvent sha256Hex) (splitEvent_id sha256Hex)
  deliveries := db.deliveries
  attempts := db.attempts

open SplitEventHashes in
theorem upgrade_hashed (hsha : ∀ bytes, (sha256Hex bytes).toList.length = 64) (hvalid : db.Valid) :
    SplitEventHashes.upgrade sha256Hex db = .ok (hashed sha256Hex db) := by
  unfold SplitEventHashes.upgrade
  dsimp only
  generalize hdrafts : (db.events.map renamed renamed_id : Table EventDraft.id) = drafts
  have hmem : ∀ e ∈ drafts, ∃ e₀ ∈ db.events, renamed e₀ = e := fun e he =>
    Table.mem_map.mp (hdrafts ▸ he)
  have hfingerprint : check (fun e => decide (e.requestFingerprintSha256.toList.length = 64))
      drafts.rows .requestFingerprintSha256Length = .ok () := by
    refine check_ok fun e he => ?_
    obtain ⟨e₀, he₀, rfl⟩ := hmem e he
    exact decide_eq_true (length_payloadSha256 hvalid he₀)
  generalize hdigests : (drafts.map (digested sha256Hex) (digested_id sha256Hex) :
    Table EventDraft.id) = digests
  have hmem' : ∀ e ∈ digests, ∃ e₀ ∈ db.events, digested sha256Hex (renamed e₀) = e := by
    intro e he
    obtain ⟨e₁, he₁, rfl⟩ := Table.mem_map.mp (hdigests ▸ he)
    obtain ⟨e₀, he₀, rfl⟩ := hmem e₁ he₁
    exact ⟨e₀, he₀, rfl⟩
  have hwidth : check (fun e => nullOr (isVarchar 64) e.payloadSha256) digests.rows
      (.constraint .characterVarying) = .ok () := by
    refine check_ok fun e he => ?_
    obtain ⟨e₀, -, rfl⟩ := hmem' e he
    exact decide_eq_true (hsha _).le
  have hrequired : digests.traverse EventDraft.required required_id =
      some (hashed sha256Hex db).events := by
    refine Table.traverse_eq_some ?_
    rw [← hdigests, ← hdrafts]
    show ((db.events.rows.map renamed).map (digested sha256Hex)).mapM EventDraft.required = _
    rw [List.map_map]
    exact mapM_map_eq fun e₀ _ => rfl
  have hlength : check (fun e => decide (e.payloadSha256.toList.length = 64))
      (hashed sha256Hex db).events.rows .payloadSha256Length = .ok () := by
    refine check_ok fun e he => ?_
    obtain ⟨e₀, -, rfl⟩ := List.mem_map.mp he
    exact decide_eq_true (hsha _)
  rw [hfingerprint, hwidth, hrequired]
  dsimp only [bind, Except.bind]
  rw [hlength]
  rfl

theorem downgrade_hashed (hvalid : db.Valid) :
    SplitEventHashes.downgrade (hashed sha256Hex db) = .ok db := by
  have hevents : (hashed sha256Hex db).events.map SplitEventHashes.restored
      SplitEventHashes.restored_id = db.events :=
    Table.map_map_self db.events (splitEvent_id sha256Hex) SplitEventHashes.restored_id fun _ => rfl
  have hlength : check (fun e => decide (e.payloadSha256.toList.length = 64)) db.events.rows
      .payloadSha256Length = .ok () :=
    check_ok fun e he => decide_eq_true (length_payloadSha256 hvalid he)
  unfold SplitEventHashes.downgrade
  dsimp only
  rw [hevents, hlength]
  rfl

end Hashes

/-! ## Revision 0003 -/

section Ledger

open DurableAttemptLedger

variable {deliveries : Table Initial.Delivery.id} {attempts : Table Initial.DeliveryAttempt.id}

/-- The attempt that a delivery of the first revision has under way. -/
def underWay (d : Initial.Delivery) : Option DeliveryAttempt :=
  if d.status = .inProgress then d.leaseToken.map (leasedAttempt d) else none

theorem underWay_eq_some {d : Initial.Delivery} {a : DeliveryAttempt} :
    underWay d = some a ↔
      d.status = .inProgress ∧ ∃ t, d.leaseToken = some t ∧ leasedAttempt d t = a := by
  unfold underWay
  split <;> simp_all

/-- The old evidence, and the attempts under way. -/
def ledgerRows (deliveries : List Initial.Delivery) (attempts : List Initial.DeliveryAttempt) :
    List DeliveryAttempt :=
  attempts.map completedAttempt ++ deliveries.filterMap underWay

theorem mem_ledgerRows {a : DeliveryAttempt} :
    a ∈ ledgerRows deliveries.rows attempts.rows ↔
      (∃ a₀ ∈ attempts, completedAttempt a₀ = a) ∨ ∃ d ∈ deliveries, underWay d = some a := by
  rw [ledgerRows, List.mem_append, List.mem_map, List.mem_filterMap]
  rfl

theorem ledgerRows_nodup (hready : Ready deliveries attempts) :
    ((ledgerRows deliveries.rows attempts.rows).map DeliveryAttempt.id).Nodup := by
  rw [ledgerRows, List.map_append, List.nodup_append]
  refine ⟨?_, ?_, ?_⟩
  · rw [List.map_map]
    exact attempts.nodup
  · rw [List.map_filterMap]
    refine unique_of_key deliveries.nodup fun d hd e he x hx hy => ?_
    obtain ⟨a, ha, rfl⟩ := Option.map_eq_some_iff.mp hx
    obtain ⟨b, hb, hab⟩ := Option.map_eq_some_iff.mp hy
    obtain ⟨hds, t, hdt, rfl⟩ := underWay_eq_some.mp ha
    obtain ⟨hes, u, heu, rfl⟩ := underWay_eq_some.mp hb
    have htu : u = t := hab
    rw [hready.tokens d hd e he hds hes (by rw [hdt, heu, htu])]
  · intro x hx y hy hxy
    rw [List.map_map, List.mem_map] at hx
    rw [List.map_filterMap, List.mem_filterMap] at hy
    obtain ⟨a, ha, rfl⟩ := hx
    obtain ⟨d, hd, hy⟩ := hy
    obtain ⟨b, hb, rfl⟩ := Option.map_eq_some_iff.mp hy
    obtain ⟨hds, t, hdt, rfl⟩ := underWay_eq_some.mp hb
    have hat : a.id = t := hxy
    exact hready.apart d hd hds a ha (by rw [hdt, hat])

/-- The attempts after revision 0003. -/
def ledger (hready : Ready deliveries attempts) : Table DeliveryAttempt.id :=
  ⟨ledgerRows deliveries.rows attempts.rows, ledgerRows_nodup hready⟩

theorem mem_ledger (hready : Ready deliveries attempts) {a : DeliveryAttempt} :
    a ∈ ledger hready ↔
      (∃ a₀ ∈ attempts, completedAttempt a₀ = a) ∨ ∃ d ∈ deliveries, underWay d = some a :=
  mem_ledgerRows

/-- An attempt before its new columns are required. -/
def draft (a : DeliveryAttempt) : AttemptDraft where
  id := a.id
  deliveryId := a.deliveryId
  attemptNumber := a.attemptNumber
  status := some a.status
  leaseToken := some a.leaseToken
  disposition := a.disposition
  httpStatusCode := a.httpStatusCode
  errorType := a.errorType
  errorMessage := a.errorMessage
  responseBodyExcerpt := a.responseBodyExcerpt
  durationMs := a.durationMs
  requestTimestamp := a.requestTimestamp
  retryScheduledFor := a.retryScheduledFor
  startedAt := a.startedAt
  finishedAt := a.finishedAt
  resolvedAt := a.resolvedAt
  createdAt := a.createdAt

theorem required_draft (a : DeliveryAttempt) : (draft a).required = some a := rfl

theorem draft_id (a : DeliveryAttempt) : (draft a).id = a.id := rfl

/-- The old evidence with the new columns filled in. -/
def evidence (attempts : Table Initial.DeliveryAttempt.id) : Table AttemptDraft.id :=
  attempts.map (fun a => draft (completedAttempt a)) fun a => draft_id (completedAttempt a)

/-- The ledger before its new columns are required. -/
def drafts (hready : Ready deliveries attempts) : Table AttemptDraft.id :=
  (ledger hready).map draft draft_id

/-- No lease is passed over for want of an attempt number. -/
theorem activeLeases_eq (hready : Ready deliveries attempts) :
    activeLeases deliveries.rows (attempts.rows.map fun a => draft (completedAttempt a)) =
      (deliveries.rows.filterMap underWay).map draft := by
  rw [activeLeases, List.map_filterMap]
  refine List.filterMap_congr fun d hd => ?_
  unfold underWay
  by_cases hs : d.status = .inProgress
  · have hnone : ∀ a ∈ attempts.rows.map fun a => draft (completedAttempt a),
        ¬(a.deliveryId = d.id ∧ a.attemptNumber = d.attemptCount) := by
      intro a ha
      obtain ⟨a₀, ha₀, rfl⟩ := List.mem_map.mp ha
      exact hready.unrecorded d hd hs a₀ ha₀
    rw [if_pos ⟨hs, hnone⟩, if_pos hs, Option.map_map]
    rfl
  · rw [if_neg fun h => hs h.1, if_neg hs]
    rfl

/-- Two attempts of the ledger under one number are one attempt. -/
theorem ledger_number (hready : Ready deliveries attempts)
    (hnumber : ∀ a ∈ attempts, ∀ b ∈ attempts, a.deliveryId = b.deliveryId →
      a.attemptNumber = b.attemptNumber → a = b)
    {a b : DeliveryAttempt} (ha : a ∈ ledger hready) (hb : b ∈ ledger hready)
    (hd : a.deliveryId = b.deliveryId) (hn : a.attemptNumber = b.attemptNumber) : a.id = b.id := by
  rcases (mem_ledger hready).mp ha with ⟨a₀, ha₀, rfl⟩ | ⟨d, hd₀, ha₀⟩ <;>
    rcases (mem_ledger hready).mp hb with ⟨b₀, hb₀, rfl⟩ | ⟨e, he₀, hb₀⟩
  · rw [hnumber a₀ ha₀ b₀ hb₀ hd hn]
  · obtain ⟨hs, t, -, rfl⟩ := underWay_eq_some.mp hb₀
    exact absurd ⟨hd, hn⟩ (hready.unrecorded e he₀ hs a₀ ha₀)
  · obtain ⟨hs, t, -, rfl⟩ := underWay_eq_some.mp ha₀
    exact absurd ⟨hd.symm, hn.symm⟩ (hready.unrecorded d hd₀ hs b₀ hb₀)
  · obtain ⟨-, t, -, rfl⟩ := underWay_eq_some.mp ha₀
    obtain ⟨-, u, -, rfl⟩ := underWay_eq_some.mp hb₀
    obtain rfl : d = e := Table.eq_of_key hd₀ he₀ hd
    rw [Option.some.inj (ha₀.symm.trans hb₀)]

/-- The token of every attempt is its key. -/
theorem ledger_leaseToken {hready : Ready deliveries attempts} {a : DeliveryAttempt}
    (ha : a ∈ ledger hready) : a.leaseToken = a.id := by
  rcases (mem_ledger hready).mp ha with ⟨a₀, -, rfl⟩ | ⟨d, -, ha₀⟩
  · rfl
  · obtain ⟨-, t, -, rfl⟩ := underWay_eq_some.mp ha₀
    rfl

/-- An attempt in progress is the one its delivery has under way. -/
theorem ledger_inProgress {hready : Ready deliveries attempts} {a : DeliveryAttempt}
    (ha : a ∈ ledger hready) (hs : a.status = .inProgress) :
    ∃ d ∈ deliveries, d.id = a.deliveryId ∧ underWay d = some a := by
  rcases (mem_ledger hready).mp ha with ⟨a₀, -, rfl⟩ | ⟨d, hd, ha₀⟩
  · cases hs
  · obtain ⟨-, t, -, rfl⟩ := underWay_eq_some.mp ha₀
    exact ⟨d, hd, rfl, ha₀⟩

theorem ledger_one {hready : Ready deliveries attempts} {a b : DeliveryAttempt}
    (ha : a ∈ ledger hready) (hb : b ∈ ledger hready) (has : a.status = .inProgress)
    (hbs : b.status = .inProgress) (hd : a.deliveryId = b.deliveryId) : a = b := by
  obtain ⟨d, hd₀, hda, ha₀⟩ := ledger_inProgress ha has
  obtain ⟨e, he₀, heb, hb₀⟩ := ledger_inProgress hb hbs
  obtain rfl : d = e := Table.eq_of_key hd₀ he₀ (by rw [hda, heb, hd])
  exact Option.some.inj (ha₀.symm.trans hb₀)

theorem ledger_lifecycleFields {hready : Ready deliveries attempts} {a : DeliveryAttempt}
    (ha : a ∈ ledger hready) : a.lifecycleFields = true := by
  rcases (mem_ledger hready).mp ha with ⟨a₀, -, rfl⟩ | ⟨d, -, ha₀⟩
  · rfl
  · obtain ⟨-, t, -, rfl⟩ := underWay_eq_some.mp ha₀
    rfl

/-- A new reservation passes the checks of the attempts. -/
theorem checks_draft (hready : Ready deliveries attempts) {d : Initial.Delivery} (hd : d ∈ deliveries)
    {a : DeliveryAttempt} (ha : underWay d = some a) : violation (draft a).checks = none := by
  obtain ⟨hs, t, -, rfl⟩ := underWay_eq_some.mp ha
  refine violation_eq_none.mpr ?_
  simp only [AttemptDraft.checks, List.forall_mem_cons]
  exact ⟨decide_eq_true (hready.counted d hd hs), rfl, rfl, rfl, rfl, nofun⟩

theorem insertReservations_eq (hready : Ready deliveries attempts)
    (hnumber : ∀ a ∈ attempts, ∀ b ∈ attempts, a.deliveryId = b.deliveryId →
      a.attemptNumber = b.attemptNumber → a = b) :
    insertReservations deliveries
        (evidence attempts) =
      .ok (drafts hready) := by
  have hleases : activeLeases deliveries.rows
      (evidence attempts).rows = (deliveries.rows.filterMap underWay).map draft :=
    activeLeases_eq hready
  have hchecks : ((deliveries.rows.filterMap underWay).map draft).findSome?
      (fun a => violation a.checks) = none := by
    refine List.findSome?_eq_none_iff.mpr fun a ha => ?_
    obtain ⟨a', ha', rfl⟩ := List.mem_map.mp ha
    obtain ⟨d, hd, hda⟩ := List.mem_filterMap.mp ha'
    exact checks_draft hready hd hda
  have happend : (evidence attempts).append ((deliveries.rows.filterMap underWay).map draft) =
      some (drafts hready) := by
    refine Table.append_eq_some ?_
    show (ledgerRows deliveries.rows attempts.rows).map draft = _
    rw [ledgerRows, List.map_append, List.map_map]
    rfl
  have hunique : unique (fun a => some (a.deliveryId, a.attemptNumber))
      (drafts hready).rows .uqDeliveryAttemptsDeliveryIdAttemptNumber = .ok () := by
    refine unique_ok (unique_of_key (drafts hready).nodup fun a ha b hb x hx hy => ?_)
    obtain ⟨a, ha', rfl⟩ := List.mem_map.mp ha
    obtain ⟨b, hb', rfl⟩ := List.mem_map.mp hb
    have hab := hx.trans hy.symm
    simp only [Option.some.injEq, Prod.mk.injEq] at hab
    exact ledger_number hready hnumber ha' hb' hab.1 hab.2
  have hforeign : check (fun a => (deliveries.get? a.deliveryId).isSome)
      ((deliveries.rows.filterMap underWay).map draft)
      (.constraint .fkDeliveryAttemptsDeliveryId) = .ok () := by
    refine check_ok fun a ha => ?_
    obtain ⟨a', ha', rfl⟩ := List.mem_map.mp ha
    obtain ⟨d, hd, hda⟩ := List.mem_filterMap.mp ha'
    obtain ⟨-, t, -, rfl⟩ := underWay_eq_some.mp hda
    exact Option.isSome_iff_exists.mpr ⟨d, Table.get?_key hd⟩
  unfold insertReservations
  dsimp only
  rw [hleases, hchecks]
  dsimp only
  rw [happend]
  dsimp only [bind, Except.bind]
  rw [hunique]
  dsimp only
  rw [hforeign]
  rfl

/-- The database after revision 0003. -/
def reserved (db : SplitEventHashes.Db) (hready : Ready db.deliveries db.attempts) :
    DurableAttemptLedger.Db where
  endpoints := db.endpoints
  events := db.events
  deliveries := db.deliveries
  attempts := ledger hready

theorem upgrade_reserved {db : SplitEventHashes.Db} (hready : Ready db.deliveries db.attempts)
    (hnumber : ∀ a ∈ db.attempts, ∀ b ∈ db.attempts, a.deliveryId = b.deliveryId →
      a.attemptNumber = b.attemptNumber → a = b)
    (hlease : ∀ d ∈ db.deliveries, d.leaseOwner.isNone = d.leaseToken.isNone) :
    DurableAttemptLedger.upgrade db = .ok (reserved db hready) := by
  have hdrafts : (db.attempts.map DurableAttemptLedger.widened
      DurableAttemptLedger.widened_id).map historical historical_id = evidence db.attempts := by
    simp only [Table.map, evidence, List.map_map]
    rfl
  have hstatus : check (·.status.isSome)
      (drafts hready).rows
      (.notNull .status) = .ok () := by
    refine check_ok fun a ha => ?_
    obtain ⟨a', -, rfl⟩ := List.mem_map.mp ha
    rfl
  have hrequired : (drafts hready).traverse
      AttemptDraft.required required_id = some (ledger hready) :=
    Table.traverse_eq_some (mapM_map_self fun a _ => required_draft a)
  have htoken : unique (fun a => some (a.deliveryId, a.leaseToken)) (ledger hready).rows
      .uqDeliveryAttemptsDeliveryIdLeaseToken = .ok () := by
    refine unique_ok (unique_of_key (ledger hready).nodup fun a ha b hb x hx hy => ?_)
    have hab := hx.trans hy.symm
    simp only [Option.some.injEq, Prod.mk.injEq] at hab
    rw [← ledger_leaseToken ha, ← ledger_leaseToken hb]
    exact hab.2
  have hone : unique (fun a => if a.status = .inProgress then some a.deliveryId else none)
      (ledger hready).rows .uqDeliveryAttemptsOneInProgress = .ok () := by
    refine unique_ok (unique_of_key (ledger hready).nodup fun a ha b hb x hx hy => ?_)
    obtain ⟨has, hax⟩ := Option.ite_none_right_eq_some.mp hx
    obtain ⟨hbs, hbx⟩ := Option.ite_none_right_eq_some.mp hy
    rw [ledger_one ha hb has hbs (Option.some.inj (hax.trans hbx.symm))]
  have hfields : check (·.lifecycleFields) (ledger hready).rows
      (.constraint .lifecycleFields) = .ok () :=
    check_ok fun a ha => ledger_lifecycleFields ha
  have hmatches : check (fun d => (d.status == .inProgress) == d.leaseOwner.isSome)
      db.deliveries.rows (.constraint .leaseMatchesStatus) = .ok () := by
    refine check_ok fun d hd => ?_
    have howner := hlease d hd
    have hleased := hready.leased d hd
    cases ho : d.leaseOwner <;> cases ht : d.leaseToken <;> simp_all
  unfold DurableAttemptLedger.upgrade
  dsimp only
  rw [hdrafts, insertReservations_eq hready hnumber]
  dsimp only [bind, Except.bind]
  rw [hstatus]
  dsimp only
  rw [hrequired]
  dsimp only
  rw [htoken, hone, hfields, hmatches]
  rfl

theorem narrowed_completedAttempt (a : Initial.DeliveryAttempt) :
    DurableAttemptLedger.narrowed (completedAttempt a) = some a := rfl

/-- The reservations go and the evidence stays. -/
theorem downgrade_reserved {db : SplitEventHashes.Db} (hready : Ready db.deliveries db.attempts) :
    DurableAttemptLedger.downgrade (reserved db hready) = .ok db := by
  have hrows : ((ledger hready).filter (·.status = .completed)).rows =
      db.attempts.rows.map completedAttempt := by
    show ((db.attempts.rows.map completedAttempt ++ db.deliveries.rows.filterMap underWay).filter _)
      = _
    rw [List.filter_append, List.filter_eq_self.mpr, List.filter_eq_nil_iff.mpr, List.append_nil]
    · intro a ha
      obtain ⟨d, -, hda⟩ := List.mem_filterMap.mp ha
      obtain ⟨-, t, -, rfl⟩ := underWay_eq_some.mp hda
      exact of_decide_eq_false rfl
    · intro a ha
      obtain ⟨a₀, -, rfl⟩ := List.mem_map.mp ha
      rfl
  have hnotNull : ∀ (p : DeliveryAttempt → Bool) (v : Violation),
      (∀ a, p (completedAttempt a) = true) →
      check p ((ledger hready).filter (·.status = .completed)).rows v = .ok () := by
    intro p v hp
    refine check_ok fun a ha => ?_
    obtain ⟨a₀, -, rfl⟩ := List.mem_map.mp (hrows ▸ ha)
    exact hp a₀
  have hnarrowed : ((ledger hready).filter (·.status = .completed)).traverse
      DurableAttemptLedger.narrowed narrowed_id = some db.attempts := by
    refine Table.traverse_eq_some ?_
    rw [hrows]
    exact mapM_map_self fun a _ => narrowed_completedAttempt a
  unfold DurableAttemptLedger.downgrade reserved
  dsimp only [bind, Except.bind]
  rw [hnotNull _ _ fun _ => rfl, hnotNull _ _ fun _ => rfl, hnotNull _ _ fun _ => rfl,
    hnotNull _ _ fun _ => rfl]
  dsimp only
  rw [hnarrowed]
  rfl

end Ledger

/-! ## Revision 0004 -/

section Replays

open ManualDeliveryReplays

/-- The database after revision 0004. -/
def replayable (db : DurableAttemptLedger.Db) : Db where
  endpoints := db.endpoints
  events := db.events
  deliveries := db.deliveries.map ManualDeliveryReplays.widened
    ManualDeliveryReplays.widened_id
  attempts := db.attempts

theorem upgrade_replayable {db : DurableAttemptLedger.Db}
    (hactive : ∀ d ∈ db.deliveries, ∀ e ∈ db.deliveries, d.status.active = true →
      e.status.active = true → d.eventId = e.eventId → d.endpointId = e.endpointId → d = e) :
    ManualDeliveryReplays.upgrade db = .ok (replayable db) := by
  unfold ManualDeliveryReplays.upgrade
  dsimp only
  generalize hdeliveries : (db.deliveries.map ManualDeliveryReplays.widened
    ManualDeliveryReplays.widened_id :
    Table Delivery.id) = deliveries
  have hmem : ∀ d ∈ deliveries.rows, ∃ d₀ ∈ db.deliveries,
      ManualDeliveryReplays.widened d₀ = d := fun d hd => Table.mem_map.mp (hdeliveries ▸ hd)
  have hnull : ∀ (p : Delivery → Bool) (v : Violation),
      (∀ d, p (ManualDeliveryReplays.widened d) = true) → check p deliveries.rows v = .ok () := by
    intro p v hp
    refine check_ok fun d hd => ?_
    obtain ⟨d₀, -, rfl⟩ := hmem d hd
    exact hp d₀
  have hkeys : unique (fun d => d.replayedFromDeliveryId.bind fun i =>
      d.replayIdempotencyKey.map (i, ·)) deliveries.rows
      .uqDeliveriesReplayedFromDeliveryIdReplayIdempotencyKey = .ok () := by
    refine unique_ok (unique_of_key deliveries.nodup fun d hd e he x hx hy => ?_)
    obtain ⟨d₀, -, rfl⟩ := hmem d hd
    cases hx
  have hone : unique (fun d => if d.status.active then some (d.eventId, d.endpointId) else none)
      deliveries.rows .uqDeliveriesOneActivePerEventEndpoint = .ok () := by
    refine unique_ok (unique_of_key deliveries.nodup fun d hd e he x hx hy => ?_)
    obtain ⟨d₀, hd₀, rfl⟩ := hmem d hd
    obtain ⟨e₀, he₀, rfl⟩ := hmem e he
    obtain ⟨hds, hdx⟩ := Option.ite_none_right_eq_some.mp hx
    obtain ⟨hes, hex⟩ := Option.ite_none_right_eq_some.mp hy
    have hde := hdx.trans hex.symm
    simp only [Option.some.injEq, Prod.mk.injEq] at hde
    rw [hactive d₀ hd₀ e₀ he₀ hds hes hde.1 hde.2]
  rw [hnull _ _ fun _ => rfl, hkeys, hnull _ _ fun _ => rfl, hnull _ _ fun _ => rfl, hone]
  rw [← hdeliveries]
  rfl

theorem downgrade_replayable (db : DurableAttemptLedger.Db) :
    ManualDeliveryReplays.downgrade (replayable db) = .ok db := by
  unfold ManualDeliveryReplays.downgrade replayable
  dsimp only
  rw [Table.map_map_self db.deliveries _ _ fun _ => rfl]
  rfl

end Replays

/-! ## All three -/

/-- The attempts in progress of a delivery. -/
def inProgressAttempts (db : Db) (d : Delivery) : List DeliveryAttempt :=
  db.attempts.rows.filter fun a => a.deliveryId = d.id ∧ a.status = .inProgress

theorem inProgressAttempts_eq {db : SplitEventHashes.Db} (hready : Ready db.deliveries db.attempts)
    {d : Initial.Delivery} (hd : d ∈ db.deliveries) {t : UUID} (hs : d.status = .inProgress)
    (ht : d.leaseToken = some t) :
    inProgressAttempts (replayable (reserved db hready)) (ManualDeliveryReplays.widened d) =
      [leasedAttempt d t] := by
  have hmem : leasedAttempt d t ∈ ledger hready :=
    (mem_ledger hready).mpr (.inr ⟨d, hd, underWay_eq_some.mpr ⟨hs, t, ht, rfl⟩⟩)
  have hsame : ∀ a ∈ (ledger hready).rows,
      decide (a.deliveryId = d.id ∧ a.status = .inProgress) = decide (a.id = t) := by
    intro a ha
    refine decide_eq_decide.mpr ⟨fun h => ?_, fun h => ?_⟩
    · rw [ledger_one ha hmem h.2 rfl h.1]
      rfl
    · rw [Table.eq_of_key ha hmem h]
      exact ⟨rfl, rfl⟩
  show (ledger hready).rows.filter _ = _
  rw [← Table.filter_key hmem]
  exact List.filter_congr hsame

theorem migrations_preserve_data (sha256Hex : Bytes → String)
    (hsha : ∀ bytes, (sha256Hex bytes).toList.length = 64) (db : Initial.Db) (hvalid : db.Valid)
    (hready : Ready db.deliveries db.attempts) :
    ∃ db₂ db₃ db₄, SplitEventHashes.upgrade sha256Hex db = .ok db₂ ∧
      DurableAttemptLedger.upgrade db₂ = .ok db₃ ∧ ManualDeliveryReplays.upgrade db₃ = .ok db₄ ∧
      db₄.deliveries.rows = db.deliveries.rows.map ManualDeliveryReplays.widened ∧
      (∀ d ∈ db₄.deliveries, d.status = .inProgress → ∃ a, inProgressAttempts db₄ d = [a] ∧
        a.attemptNumber = d.attemptCount ∧ d.leaseToken = some a.leaseToken) ∧
      (∀ a ∈ db.attempts, completedAttempt a ∈ db₄.attempts) ∧
      db₄.events.rows = db.events.rows.map (splitEvent sha256Hex) ∧
      ∃ db₃' db₂', ManualDeliveryReplays.downgrade db₄ = .ok db₃' ∧
        DurableAttemptLedger.downgrade db₃' = .ok db₂' ∧
        SplitEventHashes.downgrade db₂' = .ok db := by
  have hlease : ∀ d ∈ db.deliveries, d.leaseOwner.isNone = d.leaseToken.isNone := by
    intro d hd
    have hchecks := hvalid.deliveries d hd
    simp only [Initial.Delivery.checks, List.forall_mem_cons, Bool.and_eq_true, beq_iff_eq] at hchecks
    exact hchecks.2.2.2.1.2
  refine ⟨hashed sha256Hex db, reserved (hashed sha256Hex db) hready,
    replayable (reserved (hashed sha256Hex db) hready), upgrade_hashed hsha hvalid,
    upgrade_reserved hready hvalid.number hlease, upgrade_replayable hready.active, rfl, ?_, ?_, rfl,
    reserved (hashed sha256Hex db) hready, hashed sha256Hex db, downgrade_replayable _,
    downgrade_reserved hready, downgrade_hashed hvalid⟩
  · intro d hd hs
    obtain ⟨d₀, hd₀, rfl⟩ := List.mem_map.mp hd
    obtain ⟨t, ht⟩ := Option.isSome_iff_exists.mp ((hready.leased d₀ hd₀).mp hs)
    exact ⟨leasedAttempt d₀ t, inProgressAttempts_eq hready hd₀ hs ht, rfl, ht⟩
  · intro a ha
    exact (mem_ledger hready).mpr (.inl ⟨a, ha, rfl⟩)

/-! ## The rows of a first deployment -/

namespace Sample

/-- A function that agrees with SHA-256 on the payload below. -/
def sha256Hex (_ : Bytes) : String :=
  "3ae022cc7390c12bd3484f1db827730f7910e43a88e510de0149521aaaa137b9"

theorem length_sha256Hex (bytes : Bytes) : (sha256Hex bytes).toList.length = 64 := by
  unfold sha256Hex
  decide

def createdAt : Time := 1787486400

def receiver : Endpoint where
  id := 0x101
  name := "Legacy receiver"
  targetUrl := "http://receiver-lab.test/webhooks"
  signingSecret := [109, 105, 103, 114, 97, 116, 105, 111, 110, 45, 116, 101, 115, 116, 45, 115,
    101, 99, 114, 101, 116]
  secretVersion := 1
  enabled := true
  createdAt := createdAt
  updatedAt := createdAt

def payloadBytes : Bytes :=
  [123, 32, 34, 97, 109, 111, 117, 110, 116, 34, 58, 32, 52, 50, 44, 32, 34, 101, 118,
   101, 110, 116, 34, 58, 32, 34, 108, 101, 103, 97, 99, 121, 34, 32, 125, 10]

def event : Initial.Event where
  id := 0x102
  source := "migration-test"
  eventType := "invoice.created"
  idempotencyKey := "legacy-event-1"
  payload := [(PyStr.ofString "event", .str (PyStr.ofString "legacy")),
    (PyStr.ofString "amount", .int 42)]
  payloadBytes := payloadBytes
  payloadSha256 := "f93873521aab261df464105e18ed5f191290eda669c79e87171390c844b64c7e"
  createdAt := createdAt

def completed : Initial.Delivery where
  id := 0x103
  eventId := 0x102
  endpointId := 0x101
  replayGeneration := 0
  status := .delivered
  attemptCount := 1
  nextAttemptAt := none
  leaseOwner := none
  leaseExpiresAt := none
  leaseToken := none
  deliveredAt := some (createdAt + 61)
  lastError := none
  createdAt := createdAt
  updatedAt := createdAt + 61

def leased : Initial.Delivery where
  id := 0x104
  eventId := 0x102
  endpointId := 0x101
  replayGeneration := 1
  status := .inProgress
  attemptCount := 1
  nextAttemptAt := none
  leaseOwner := some "legacy-worker"
  leaseExpiresAt := some (createdAt + 420)
  leaseToken := some 0x106
  deliveredAt := none
  lastError := none
  createdAt := createdAt
  updatedAt := createdAt + 120

def attempt : Initial.DeliveryAttempt where
  id := 0x105
  deliveryId := 0x103
  attemptNumber := 1
  disposition := .succeeded
  httpStatusCode := some 204
  errorType := none
  errorMessage := none
  responseBodyExcerpt := some "accepted"
  durationMs := 125
  requestTimestamp := 1787486460
  retryScheduledFor := none
  startedAt := createdAt + 60
  finishedAt := createdAt + 60 + 1 / 8
  createdAt := createdAt + 60 + 1 / 8

def db : Initial.Db where
  endpoints := ⟨[receiver], by decide⟩
  events := ⟨[event], by decide⟩
  deliveries := ⟨[completed, leased], by decide⟩
  attempts := ⟨[attempt], by decide⟩

theorem mem_endpoints {e : Endpoint} (h : e ∈ db.endpoints) : e = receiver :=
  List.mem_singleton.mp h

theorem mem_events {e : Initial.Event} (h : e ∈ db.events) : e = event :=
  List.mem_singleton.mp h

theorem mem_attempts {a : Initial.DeliveryAttempt} (h : a ∈ db.attempts) : a = attempt :=
  List.mem_singleton.mp h

theorem db_valid : db.Valid where
  endpoints e he := by
    rw [mem_endpoints he]
    decide
  events e he := by
    rw [mem_events he]
    decide
  sourceKey e he f hf _ _ := by
    rw [mem_events he, mem_events hf]
  deliveries := show ∀ d ∈ [completed, leased], ∀ c ∈ d.checks, c = true by decide
  generation := show ∀ d ∈ [completed, leased], ∀ e ∈ [completed, leased], d.eventId = e.eventId →
    d.endpointId = e.endpointId → d.replayGeneration = e.replayGeneration → d = e by decide +kernel
  event := show ∀ d ∈ [completed, leased], ∃ e ∈ [event], e.id = d.eventId by decide
  endpoint := show ∀ d ∈ [completed, leased], ∃ e ∈ [receiver], e.id = d.endpointId by
    decide
  attempts a ha := by
    rw [mem_attempts ha]
    decide +kernel
  number a ha b hb _ _ := by
    rw [mem_attempts ha, mem_attempts hb]
  delivery := show ∀ a ∈ [attempt], ∃ d ∈ [completed, leased], d.id = a.deliveryId by
    decide

theorem db_ready : Ready db.deliveries db.attempts where
  leased := show ∀ d ∈ [completed, leased], d.status = .inProgress ↔ d.leaseToken.isSome by
    decide
  counted := show ∀ d ∈ [completed, leased], d.status = .inProgress → 1 ≤ d.attemptCount by
    decide
  unrecorded := show ∀ d ∈ [completed, leased], d.status = .inProgress → ∀ a ∈ [attempt],
    ¬(a.deliveryId = d.id ∧ a.attemptNumber = d.attemptCount) by decide
  active := show ∀ d ∈ [completed, leased], ∀ e ∈ [completed, leased], d.status.active = true →
    e.status.active = true → d.eventId = e.eventId → d.endpointId = e.endpointId → d = e by
    decide +kernel
  tokens := show ∀ d ∈ [completed, leased], ∀ e ∈ [completed, leased], d.status = .inProgress →
    e.status = .inProgress → d.leaseToken = e.leaseToken → d = e by decide +kernel
  apart := show ∀ d ∈ [completed, leased], d.status = .inProgress → ∀ a ∈ [attempt],
    d.leaseToken ≠ some a.id by decide

end Sample

theorem migrations_preserve_legacy_rows :
    ∃ db₂ db₃ db₄, SplitEventHashes.upgrade Sample.sha256Hex Sample.db = .ok db₂ ∧
      DurableAttemptLedger.upgrade db₂ = .ok db₃ ∧ ManualDeliveryReplays.upgrade db₃ = .ok db₄ ∧
      (∃ a, inProgressAttempts db₄ (ManualDeliveryReplays.widened Sample.leased) = [a] ∧
        a.leaseToken = 0x106) ∧
      completedAttempt Sample.attempt ∈ db₄.attempts := by
  obtain ⟨db₂, db₃, db₄, h₂, h₃, h₄, hdeliveries, hledger, hold, -⟩ :=
    migrations_preserve_data Sample.sha256Hex Sample.length_sha256Hex Sample.db Sample.db_valid
      Sample.db_ready
  have hleased : ManualDeliveryReplays.widened Sample.leased ∈ db₄.deliveries := by
    show _ ∈ db₄.deliveries.rows
    rw [hdeliveries]
    exact List.mem_map_of_mem (List.mem_cons_of_mem _ List.mem_cons_self)
  obtain ⟨a, ha, -, htoken⟩ := hledger _ hleased rfl
  exact ⟨db₂, db₃, db₄, h₂, h₃, h₄, ⟨a, ha, (Option.some.inj htoken).symm⟩,
    hold _ List.mem_cons_self⟩

end EventHarbor.Migrations
