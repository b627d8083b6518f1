import EventHarbor.Collections.Batches
import EventHarbor.Properties.Claims
import EventHarbor.Properties.DeadLetters
import EventHarbor.Refinement.Resumption

/-!
# Retention cleanup batch by batch

A cleanup that runs alone equals one deletion of the oldest expired events,
whatever the size of its batches.
-/

namespace EventHarbor

open Relational Txn Maintenance

/-- The expired events without active work, oldest first. -/
def expiredEvents (cutoff : Time) (db : Db) : List Event :=
  (db.events.rows.filter fun e =>
    e.createdAt < cutoff && !hasActiveDelivery db e.id).insertionSort olderFirst

/-- The database without some events, their deliveries and their attempts. -/
def Db.forget (db : Db) (eventIds : List UUID) : Db :=
  { db with
    events := db.events.filter (·.id ∉ eventIds)
    deliveries := db.deliveries.filter (·.eventId ∉ eventIds)
    attempts := db.attempts.filter fun a =>
      db.deliveries.rows.all fun d => d.id ≠ a.deliveryId || d.eventId ∉ eventIds }

/-- Replay references stay within an event. -/
def Db.Linked (db : Db) : Prop :=
  ∀ d ∈ db.deliveries, ∀ p ∈ db.deliveries, d.replayedFromDeliveryId = some p.id →
    d.eventId = p.eventId

section Forget

variable {lib : Lib} {db : Db} {es : List UUID} {cutoff : Time}

instance : Std.Total olderFirst where
  total a b := by
    unfold olderFirst
    rcases lt_trichotomy a.createdAt b.createdAt with h | h | h
    · exact .inl (.inl h)
    · rcases le_total a.id b.id with hid | hid
      · exact .inl (.inr ⟨h, hid⟩)
      · exact .inr (.inr ⟨h.symm, hid⟩)
    · exact .inr (.inl h)

instance : IsTrans Event olderFirst where
  trans a b c hab hbc := by
    unfold olderFirst at *
    rcases hab with hab | ⟨hab, hid⟩ <;> rcases hbc with hbc | ⟨hbc, hid'⟩
    · exact .inl (hab.trans hbc)
    · exact .inl (hbc ▸ hab)
    · exact .inl (hab ▸ hbc)
    · exact .inr ⟨hab.trans hbc, hid.trans hid'⟩

theorem mem_forget_attempts {a : DeliveryAttempt} : a ∈ (db.forget es).attempts ↔
    a ∈ db.attempts ∧ ∀ d ∈ db.deliveries, d.id = a.deliveryId → d.eventId ∉ es := by
  rw [Db.forget, Table.mem_filter, List.all_eq_true]
  refine and_congr_right fun _ => forall_congr' fun d => forall_congr' fun _ => ?_
  rw [Bool.or_eq_true, decide_eq_true_eq, decide_eq_true_eq]
  tauto

theorem forget_nil (db : Db) : db.forget [] = db := by
  obtain ⟨endpoints, ⟨events, _⟩, ⟨deliveries, _⟩, ⟨attempts, _⟩⟩ := db
  simp only [Db.forget, Table.filter, Db.mk.injEq, Table.mk.injEq, true_and]
  exact ⟨by simp, by simp, List.filter_eq_self.mpr fun a _ => by simp⟩

theorem forget_forget (db : Db) (as bs : List UUID) :
    (db.forget as).forget bs = db.forget (as ++ bs) := by
  simp only [Db.forget, Table.filter, List.filter_filter, Db.mk.injEq, Table.mk.injEq, true_and]
  refine ⟨List.filter_congr fun e _ => ?_, List.filter_congr fun d _ => ?_,
    List.filter_congr fun a _ => ?_⟩
  · simp [Bool.and_comm]
  · simp [Bool.and_comm]
  · rw [Bool.eq_iff_iff]
    simp only [Bool.and_eq_true, List.all_eq_true, List.mem_filter, Bool.or_eq_true,
      decide_eq_true_eq, List.mem_append]
    constructor
    · rintro ⟨hb, ha⟩ d hd
      have := ha d hd
      have := hb d
      tauto
    · intro h
      refine ⟨fun d hd => ?_, fun d hd => ?_⟩
      · have := h d hd.1
        tauto
      · have := h d hd
        tauto

theorem Db.Linked.forget (h : db.Linked) (es : List UUID) : (db.forget es).Linked := by
  intro d hd p hp href
  exact h d (Table.mem_filter.mp hd).1 p (Table.mem_filter.mp hp).1 href

theorem Inv.linked (h : Inv lib db) : db.Linked := by
  intro d hd p hp href
  obtain ⟨q, hq, hid, he, -⟩ := h.source_of hd href
  rw [← he, Table.eq_of_key hq hp hid]

/-- The deliveries of a remaining event remain. -/
theorem deliveriesAt_forget {i : UUID} (h : i ∉ es) :
    (db.forget es).deliveriesAt i = db.deliveriesAt i := by
  simp only [Db.deliveriesAt, Db.forget, Table.filter, List.filter_filter]
  refine List.filter_congr fun d _ => ?_
  by_cases hd : d.eventId = i <;> simp [hd, h]

/-- The attempts of a remaining delivery remain. -/
theorem attemptsAt_forget {d : Delivery} (hd : d ∈ db.deliveries) (h : d.eventId ∉ es) :
    (db.forget es).attemptsAt d.id = db.attemptsAt d.id := by
  simp only [Db.attemptsAt, Db.forget, Table.filter, List.filter_filter]
  refine List.filter_congr fun a _ => ?_
  by_cases ha : a.deliveryId = d.id
  · have : (db.deliveries.rows.all fun x => x.id ≠ a.deliveryId || x.eventId ∉ es) = true := by
      simp only [List.all_eq_true, Bool.or_eq_true, decide_eq_true_eq]
      intro x hx
      by_cases hxa : x.id = a.deliveryId
      · exact .inr (Table.eq_of_key hx hd (hxa.trans ha) ▸ h)
      · exact .inl hxa
    rw [this, Bool.and_true]
  · simp [ha]

/-- Forgetting whole events keeps the invariant. -/
theorem Inv.forget (h : Inv lib db) (es : List UUID) : Inv lib (db.forget es) where
  event d hd := by
    obtain ⟨hd, hkeep⟩ := Table.mem_filter.mp hd
    obtain ⟨e, he, hid⟩ := h.event d hd
    exact ⟨e, Table.mem_filter.mpr ⟨he, by rw [hid]; exact hkeep⟩, hid⟩
  endpoint d hd := h.endpoint d (Table.mem_filter.mp hd).1
  delivery a ha := by
    obtain ⟨ha, hkeep⟩ := mem_forget_attempts.mp ha
    obtain ⟨d, hd, hid⟩ := h.delivery a ha
    exact ⟨d, Table.mem_filter.mpr ⟨hd, decide_eq_true (hkeep d hd hid)⟩, hid⟩
  ledger d hd := by
    obtain ⟨hd, hkeep⟩ := Table.mem_filter.mp hd
    rw [attemptsAt_forget hd (of_decide_eq_true hkeep)]
    exact h.ledger d hd
  keys e he f hf := h.keys e (Table.mem_filter.mp he).1 f (Table.mem_filter.mp hf).1
  chain e he := by
    obtain ⟨he, hkeep⟩ := Table.mem_filter.mp he
    rw [deliveriesAt_forget (of_decide_eq_true hkeep)]
    exact h.chain e he
  accepted e he := by
    obtain ⟨he, hkeep⟩ := Table.mem_filter.mp he
    obtain ⟨request, hsource, htype, hdata, hprint, hendpoint⟩ := h.accepted e he
    refine ⟨request, hsource, htype, hdata, hprint, ?_⟩
    rw [deliveriesAt_forget (of_decide_eq_true hkeep)]
    exact hendpoint
  eventChecks e he := h.eventChecks e (Table.mem_filter.mp he).1
  deliveryChecks d hd := h.deliveryChecks d (Table.mem_filter.mp hd).1
  attemptChecks a ha := h.attemptChecks a (Table.mem_filter.mp ha).1

end Forget

/-! ## One batch -/

section Batch

variable {db : Db} {es : List UUID} {cutoff : Time}

theorem run_lockAll {β : Type} (rowLock : UUID → Lock) (is : List UUID) (f : Unit → Tx β) (db : Db) :
    (lockAll rowLock is >>= f).run db = (f ()).run db := by
  induction is with
  | nil => rfl
  | cons i is ih => exact ih

theorem mem_deliveriesOf {i : UUID} :
    i ∈ deliveriesOf es db ↔ ∃ d ∈ db.deliveries, d.eventId ∈ es ∧ d.id = i := by
  simp [deliveriesOf, Table.mem_def, and_assoc]

/-- The deliveries of whole events are deleted with what refers to them. -/
theorem deleteDeliveries_checks (h : db.Linked) (es : List UUID) :
    violation ((Write.deleteDeliveries (deliveriesOf es db)).checks db) = none := by
  simp only [Write.checks, violation_eq_none, List.mem_singleton, forall_eq, List.all_eq_true,
    Bool.or_eq_true, decide_eq_true_eq]
  intro d hd
  by_cases he : d.eventId ∈ es
  · exact .inl (mem_deliveriesOf.mpr ⟨d, hd, he, rfl⟩)
  · refine .inr ?_
    cases href : d.replayedFromDeliveryId with
    | none => rfl
    | some i =>
      refine decide_eq_true fun hi => ?_
      obtain ⟨p, hp, hpe, rfl⟩ := mem_deliveriesOf.mp hi
      exact he (h d hd p hp href ▸ hpe)

theorem run_deleteDeliveries (h : db.Linked) (es : List UUID) :
    (deleteDeliveries es).run db =
      .ok ((), (Write.deleteDeliveries (deliveriesOf es db)).apply db) := by
  show (lockAll (.delivery · .update) (deliveriesOf es db) >>= _).run db = _
  rw [run_lockAll]
  show (exec (.deleteDeliveries ((deliveriesOf es db).filter fun i => i ∈ deliveriesOf es db)) :
    Tx Unit).run db = _
  rw [List.filter_eq_self.mpr fun i hi => decide_eq_true hi]
  exact run_exec (deleteDeliveries_checks h es)

/-- What the two statements of a batch leave. -/
theorem delete_eq_forget (db : Db) (es : List UUID) :
    (Write.deleteEvents es).apply ((Write.deleteDeliveries (deliveriesOf es db)).apply db) =
      db.forget es := by
  simp only [Write.apply, Db.forget, Table.filter, Db.mk.injEq, Table.mk.injEq, true_and]
  refine ⟨List.filter_congr fun d hd => ?_, List.filter_congr fun a _ => ?_⟩
  · rw [decide_eq_decide, not_iff_not, mem_deliveriesOf]
    constructor
    · rintro ⟨x, hx, he, hid⟩
      exact Table.eq_of_key hx hd hid ▸ he
    · exact fun he => ⟨d, hd, he, rfl⟩
  · rw [Bool.eq_iff_iff, decide_eq_true_eq, mem_deliveriesOf, List.all_eq_true]
    constructor
    · intro h d hd
      rw [Bool.or_eq_true, decide_eq_true_eq, decide_eq_true_eq]
      by_contra hc
      push Not at hc
      exact h ⟨d, hd, hc.2, hc.1⟩
    · rintro h ⟨d, hd, he, hid⟩
      have := h d hd
      simp [hid, he] at this

theorem run_deleteEvents {db' : Db} (hes : ∀ i ∈ es, (db'.events.get? i).isSome = true)
    (hgone : ∀ d ∈ db'.deliveries, d.eventId ∉ es) :
    (deleteEvents es).run db' = .ok (es.length, (Write.deleteEvents es).apply db') := by
  have hall : (es.filter fun i => (db'.events.get? i).isSome) = es := List.filter_eq_self.mpr hes
  show (lockAll (.event · .update) (es.filter fun i => (db'.events.get? i).isSome) >>= _).run db' = _
  rw [run_lockAll]
  dsimp only
  rw [hall]
  show (exec (.deleteEvents (es.filter fun i => (db'.events.get? i).isSome)) >>= fun _ =>
    (pure (es.filter fun i => (db'.events.get? i).isSome).length : Tx ℕ)).run db' = _
  rw [hall, run_exec_bind]
  · rfl
  · simp only [Write.checks, violation_eq_none, List.mem_singleton, forall_eq, List.all_eq_true,
      decide_eq_true_eq]
    exact hgone

theorem mem_candidateEventIds {limit : ℕ} {i : UUID} (h : i ∈ candidateEventIds cutoff limit db) :
    ∃ e ∈ db.events, e.id = i := by
  obtain ⟨e, he, hid⟩ := List.mem_map.mp h
  have he := (List.mem_insertionSort _).mp (List.mem_of_mem_take he)
  exact ⟨e, (List.mem_filter.mp he).1, hid⟩

/-- A batch forgets its candidates. -/
theorem run_deleteTerminalEventBatch (h : db.Linked) (cutoff : Time) (limit : ℕ) :
    (deleteTerminalEventBatch cutoff limit).run db =
      .ok ((candidateEventIds cutoff limit db).length,
        db.forget (candidateEventIds cutoff limit db)) := by
  show (if candidateEventIds cutoff limit db = [] then (pure 0 : Tx ℕ) else
    deleteDeliveries (candidateEventIds cutoff limit db) >>= fun _ =>
      deleteEvents (candidateEventIds cutoff limit db)).run db = _
  split
  · rename_i hnil
    rw [hnil, forget_nil]
    rfl
  · rw [run_bind, run_deleteDeliveries h]
    dsimp only
    rw [run_deleteEvents, delete_eq_forget]
    · intro i hi
      obtain ⟨e, he, rfl⟩ := mem_candidateEventIds hi
      have : (db.events.get? e.id).isSome = true := by rw [Table.get?_key he]; rfl
      exact this
    · intro d hd he
      obtain ⟨hd, hout⟩ := Table.mem_filter.mp hd
      exact of_decide_eq_true hout (mem_deliveriesOf.mpr ⟨d, hd, he, rfl⟩)

end Batch

/-! ## The loop -/

section Loop

variable {db : Db} {cutoff : Time} {batchSize maxEvents : ℕ}

theorem nodup_expiredEvents : ((expiredEvents cutoff db).map Event.id).Nodup := by
  have hperm := (List.perm_insertionSort olderFirst
    (db.events.rows.filter fun e => e.createdAt < cutoff && !hasActiveDelivery db e.id)).map Event.id
  exact hperm.nodup_iff.mpr (Table.nodup_filter_map _ db.events.nodup)

/-- The first `k` expired events. -/
def firstExpired (cutoff : Time) (db : Db) (k : ℕ) : List UUID :=
  ((expiredEvents cutoff db).take k).map Event.id

theorem hasActiveDelivery_forget {es : List UUID} {i : UUID} (h : i ∉ es) :
    hasActiveDelivery (db.forget es) i = hasActiveDelivery db i := by
  simp only [hasActiveDelivery, Db.forget, Table.filter, List.any_filter]
  refine congrArg (List.any _) (funext fun d => ?_)
  by_cases hd : d.eventId = i <;> simp [hd, h]

/-- When the first expired events are gone, the others are left. -/
theorem expiredEvents_forget (k : ℕ) :
    expiredEvents cutoff (db.forget (firstExpired cutoff db k)) =
      (expiredEvents cutoff db).drop k := by
  have hrows : (db.forget (firstExpired cutoff db k)).events.rows =
      db.events.rows.filter fun e => e.id ∉ firstExpired cutoff db k := rfl
  have hselect : ((db.forget (firstExpired cutoff db k)).events.rows.filter fun e =>
      e.createdAt < cutoff &&
        !hasActiveDelivery (db.forget (firstExpired cutoff db k)) e.id) =
      (db.events.rows.filter fun e =>
        e.createdAt < cutoff && !hasActiveDelivery db e.id).filter
        fun e => e.id ∉ firstExpired cutoff db k := by
    rw [hrows, List.filter_filter, List.filter_filter]
    refine List.filter_congr fun e _ => ?_
    by_cases he : e.id ∈ firstExpired cutoff db k
    · rw [decide_eq_false (not_not.mpr he), Bool.and_false, Bool.false_and]
    · rw [hasActiveDelivery_forget he, Bool.and_comm]
  rw [expiredEvents, hselect, Batches.insertionSort_filter]
  exact Batches.filter_not_mem_take nodup_expiredEvents k

theorem firstExpired_add (k n : ℕ) : firstExpired cutoff db (k + n) = firstExpired cutoff db k ++
    candidateEventIds cutoff n (db.forget (firstExpired cutoff db k)) := by
  have hcandidates : candidateEventIds cutoff n (db.forget (firstExpired cutoff db k)) =
      ((expiredEvents cutoff (db.forget (firstExpired cutoff db k))).take n).map Event.id := rfl
  rw [hcandidates, expiredEvents_forget, firstExpired, firstExpired, List.take_add, List.map_append]

/-- A batch is as large as its limit and the events that are left allow. -/
theorem length_candidateEventIds (k n : ℕ) :
    (candidateEventIds cutoff n (db.forget (firstExpired cutoff db k))).length =
      min n ((expiredEvents cutoff db).length - k) := by
  have hcandidates : candidateEventIds cutoff n (db.forget (firstExpired cutoff db k)) =
      ((expiredEvents cutoff (db.forget (firstExpired cutoff db k))).take n).map Event.id := rfl
  rw [hcandidates, expiredEvents_forget, List.length_map, List.length_take, List.length_drop]

theorem firstExpired_min (k n : ℕ) :
    firstExpired cutoff db (k + min n ((expiredEvents cutoff db).length - k)) =
      firstExpired cutoff db (k + n) := by
  rcases Nat.le_total n ((expiredEvents cutoff db).length - k) with hle | hle
  · rw [Nat.min_eq_left hle]
  · rw [firstExpired, firstExpired, List.take_of_length_le (by omega),
      List.take_of_length_le (by omega)]

/-- The loop goes on to the bound from wherever it stands. -/
theorem run_purgeLoop (h : db.Linked) (hb : 1 ≤ batchSize) {n : ℕ}
    (hn : n = min maxEvents (expiredEvents cutoff db).length) {fuel k batches : ℕ} (hk : k ≤ n)
    (hfuel : n - k ≤ fuel) :
    (purgeLoop cutoff batchSize maxEvents fuel k batches).run
      (db.forget (firstExpired cutoff db k)) =
    .ok (⟨true, n, batches + (n - k + batchSize - 1) / batchSize⟩,
      db.forget (firstExpired cutoff db n)) := by
  induction fuel generalizing k batches with
  | zero =>
    obtain rfl : k = n := by omega
    have : (k - k + batchSize - 1) / batchSize = 0 := Nat.div_eq_of_lt (by omega)
    rw [this]
    rfl
  | succ fuel ih =>
    have hdone (hkn : k = n) : (n - k + batchSize - 1) / batchSize = 0 := by
      subst hkn
      exact Nat.div_eq_of_lt (by omega)
    unfold purgeLoop
    by_cases hlt : k < maxEvents
    · have hlen : (candidateEventIds cutoff (min batchSize (maxEvents - k))
          (db.forget (firstExpired cutoff db k))).length = _ := length_candidateEventIds k _
      have hnext : _ = firstExpired cutoff db (k + min batchSize (maxEvents - k)) :=
        firstExpired_min k _
      rw [if_pos hlt, run_bind, run_deleteTerminalEventBatch (h.forget _), forget_forget,
        ← firstExpired_add, ← hnext]
      dsimp only
      rw [hlen]
      -- Every batch but the last has its full size.
      have hsize : min (min batchSize (maxEvents - k)) ((expiredEvents cutoff db).length - k) =
          min batchSize (n - k) := by omega
      rw [hsize]
      split
      · rename_i hzero
        obtain rfl : k = n := by omega
        rw [hzero, Nat.add_zero, hdone rfl]
        rfl
      · rename_i hpos
        rw [ih (by omega) (by omega)]
        have hstep := Batches.ceil_step (n := n - k) (b := batchSize) (by omega) (by omega)
        have hleft : n - (k + min batchSize (n - k)) = n - k - min batchSize (n - k) := by omega
        rw [hleft, Nat.add_assoc, Nat.add_comm 1, hstep]
    · obtain rfl : k = n := by omega
      rw [if_neg hlt, hdone rfl]
      rfl

end Loop

/-! ## The cleanup -/

section Cleanup

variable {db : Db} {cutoff : Time} {batchSize maxEvents fuel n : ℕ}

/-- The loop from its start, with enough fuel. -/
theorem run_purgeLoop_start (h : db.Linked) (hb : 1 ≤ batchSize)
    (hn : n = min maxEvents (expiredEvents cutoff db).length) (hfuel : maxEvents ≤ fuel) :
    (purgeLoop cutoff batchSize maxEvents fuel 0 0).run db =
      .ok (⟨true, n, (n + batchSize - 1) / batchSize⟩, db.forget (firstExpired cutoff db n)) := by
  have hloop : (purgeLoop cutoff batchSize maxEvents fuel 0 0).run
      (db.forget (firstExpired cutoff db 0)) = _ := run_purgeLoop h hb hn (Nat.zero_le n) (by omega)
  have hnil : firstExpired cutoff db 0 = [] := rfl
  rwa [hnil, forget_nil, Nat.sub_zero, Nat.zero_add] at hloop

theorem run_purgeExpiredDemoEvents (hb : 1 ≤ batchSize) (hm : 1 ≤ maxEvents) :
    (purgeExpiredDemoEvents cutoff batchSize maxEvents).run db =
      (purgeLoop cutoff batchSize maxEvents maxEvents 0 0).run db := by
  rw [purgeExpiredDemoEvents, if_neg (by omega), if_neg (by omega), run_tryAcquire_bind]
  rfl

end Cleanup

/-- The databases at rest: ordinary operation and cleanups in any order, a
cleanup running alone. -/
inductive Rests (lib : Lib) : Db → Prop
  | empty : Rests lib Db.empty
  | operation {db ls s} (h : Rests lib db)
      (hr : Sys.Run (Request.code lib) (Resumed db) [] (.idle db) ls s) : Rests lib s.db
  | cleanup {db db' : Db} {cutoff batchSize maxEvents result} (h : Rests lib db)
      (hrun : (purgeExpiredDemoEvents cutoff batchSize maxEvents).run db = .ok (result, db')) :
      Rests lib db'

theorem Rests.inv {lib : Lib} {db : Db} (h : Rests lib db) : Inv lib db := by
  induction h with
  | empty => exact .empty lib
  | operation h hr ih => exact resumed_inv ih hr
  | @cleanup db db' cutoff batchSize maxEvents result h hrun ih =>
    by_cases hb : 1 ≤ batchSize
    · by_cases hm : 1 ≤ maxEvents
      · rw [run_purgeExpiredDemoEvents hb hm, run_purgeLoop_start ih.linked hb rfl le_rfl] at hrun
        cases hrun
        exact ih.forget _
      · rw [purgeExpiredDemoEvents, if_neg (by omega), if_pos (by omega)] at hrun
        cases hrun
    · rw [purgeExpiredDemoEvents, if_pos (by omega)] at hrun
      cases hrun

/-- A cleanup deletes exactly the oldest expired events up to its bound, with
their deliveries and attempts, whatever the size of its batches; more rounds
of its loop would change nothing. -/
theorem cleanup_exact {lib : Lib} {db : Db} (h : Rests lib db) (cutoff : Time)
    {batchSize maxEvents : ℕ} (hb : 1 ≤ batchSize) (hm : 1 ≤ maxEvents) :
    ∃ n, n = min maxEvents (expiredEvents cutoff db).length ∧
      (purgeExpiredDemoEvents cutoff batchSize maxEvents).run db =
        .ok (⟨true, n, (n + batchSize - 1) / batchSize⟩,
          db.forget (((expiredEvents cutoff db).take n).map Event.id)) ∧
      ∀ fuel, maxEvents ≤ fuel → (purgeLoop cutoff batchSize maxEvents fuel 0 0).run db =
        (purgeExpiredDemoEvents cutoff batchSize maxEvents).run db := by
  have hlinked := h.inv.linked
  refine ⟨_, rfl, ?_, fun fuel hfuel => ?_⟩
  · rw [run_purgeExpiredDemoEvents hb hm]
    exact run_purgeLoop_start hlinked hb rfl le_rfl
  · rw [run_purgeExpiredDemoEvents hb hm, run_purgeLoop_start hlinked hb rfl hfuel,
      run_purgeLoop_start hlinked hb rfl le_rfl]

namespace Sample

/-- The body of the event with id 22. -/
def thirdBytes : Bytes := bytesOf (.obj [
  (PyStr.ofString "id", .str (PyStr.ofChars (UUID.chars 22))),
  (PyStr.ofString "type", .str (PyStr.ofString "order.created")),
  (PyStr.ofString "created_at", .str (PyStr.ofString "2026-01-01T00:00:00Z")),
  (PyStr.ofString "data", .obj order.data)])

def threeEvents : Lib :=
  { lib with sha256Hex := fun bytes =>
      if bytes = thirdBytes then
        "182c223ba0b3e97f2b03ffbc35b70d09a7a1196f5c2616e64974bca78bedfcd2"
      else twoEvents.sha256Hex bytes }

/-- The endpoint answered 204. -/
def acknowledged (now : Time) : AttemptResult where
  disposition := .succeeded
  httpStatusCode := some 204
  errorType := none
  errorMessage := none
  responseBodyExcerpt := some ""
  requestTimestamp := 1767225602
  retryAfterSeconds := none
  startedAt := now
  finishedAt := now + 1
  durationMs := 1000

/-- A delivery is claimed and delivered. -/
def delivery (t : ℕ) (event id token attempt : UUID) (body : Bytes) : List (Action ℕ Request) :=
  Sys.alone t (claim "a" (epoch + 1) token attempt) 12 ++
  Sys.alone (t + 1) (finalize "a"
    { webhook attempt token 1 with deliveryId := id, eventId := event, payloadBytes := body }
    (acknowledged (epoch + 2)) (epoch + 4)) 11

/-- Three events are accepted and delivered. -/
def deliveries : List (Action ℕ Request) :=
  sharedEndpoint ++
  Sys.alone 3 (.publish order "order-44"
    { eventId := 22, deliveryId := 23, createdAt := epoch, transactionNow := epoch }) 9 ++
  delivery 4 2 3 4 5 bodyBytes ++ delivery 6 12 13 14 15 secondBytes ++
  delivery 8 22 23 24 25 thirdBytes

end Sample

/-- Of three expired events two are deleted, in batches of one. -/
theorem cleanup_exact_of_deliveries : ∃ db, Rests Sample.threeEvents db ∧
    (expiredEvents (Sample.epoch + 100) db).map Event.id = [2, 12, 22] ∧
    db.attempts.rows.map (·.deliveryId) = [3, 13, 23] ∧
    (purgeExpiredDemoEvents (Sample.epoch + 100) 1 2).run db =
      .ok (⟨true, 2, 2⟩, db.forget [2, 12]) := by
  have hplay : (Sys.play (Request.code Sample.threeEvents) Ordinary [] (.idle Db.empty)
      Sample.deliveries).any (fun p =>
        decide ((expiredEvents (Sample.epoch + 100) p.2.db).map Event.id = [2, 12, 22]) &&
          decide (p.2.db.attempts.rows.map (·.deliveryId) = [3, 13, 23])) = true := by
    decide +kernel
  obtain ⟨ls, s, hr, h⟩ := Sys.exists_run hplay
  obtain ⟨hexpired, hattempts⟩ := Bool.and_eq_true_iff.mp h
  have hexpired := of_decide_eq_true hexpired
  have hlen : (expiredEvents (Sample.epoch + 100) s.db).length = 3 := by
    rw [← List.length_map Event.id, hexpired]
    rfl
  have hrests : Rests Sample.threeEvents s.db := .operation .empty (hr.mono Ordinary.resumed)
  obtain ⟨n, hn, hrun, -⟩ := cleanup_exact hrests (Sample.epoch + 100)
    (show 1 ≤ 1 by decide) (show 1 ≤ 2 by decide)
  obtain rfl : n = 2 := by
    rw [hn, hlen]
    decide
  rw [List.map_take, hexpired] at hrun
  exact ⟨s.db, hrests, hexpired, of_decide_eq_true hattempts, hrun⟩

end EventHarbor
