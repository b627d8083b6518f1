import EventHarbor.ControlRoom
import EventHarbor.Properties.Ledger

/-!
# Generation chains in every reachable state
-/

namespace EventHarbor

open Relational ReplayService

/-- The deliveries of one event to one endpoint, oldest first. -/
def Db.pairAt (db : Db) (eventId endpointId : UUID) : List Delivery :=
  db.deliveries.rows.filter fun d => d.eventId = eventId && d.endpointId = endpointId

theorem Db.mem_pairAt {db : Db} {e p : UUID} {d : Delivery} :
    d ∈ db.pairAt e p ↔ d ∈ db.deliveries ∧ d.eventId = e ∧ d.endpointId = p := by
  simp [pairAt, Table.mem_def]

section Chains

variable {lib : Lib} {db : Db}

/-- All deliveries of an event go to the same endpoint. -/
theorem Inv.pairAt_eq (h : Inv lib db) {d : Delivery} (hd : d ∈ db.deliveries) :
    db.pairAt d.eventId d.endpointId = db.deliveriesAt d.eventId := by
  unfold Db.pairAt Db.deliveriesAt
  apply List.filter_congr
  intro x hx
  by_cases he : x.eventId = d.eventId
  · have := (h.chain_of hd).endpoint_eq x (Db.mem_deliveriesAt.mpr ⟨hx, he⟩) d
      (Db.mem_deliveriesAt.mpr ⟨hd, rfl⟩)
    simp [he, this]
  · simp [he]

theorem Inv.chain_pairAt (h : Inv lib db) {d : Delivery} (hd : d ∈ db.deliveries) :
    Chain (db.pairAt d.eventId d.endpointId) := by
  rw [h.pairAt_eq hd]
  exact h.chain_of hd

theorem Db.mem_pairAt_self {d : Delivery} (hd : d ∈ db.deliveries) :
    d ∈ db.pairAt d.eventId d.endpointId := Db.mem_pairAt.mpr ⟨hd, rfl, rfl⟩

/-- The generations of a pair are numbered without a gap. -/
theorem Inv.pair_generations (h : Inv lib db) (e p : UUID) :
    (db.pairAt e p).map (·.replayGeneration) = List.range (db.pairAt e p).length := by
  cases hpair : db.pairAt e p with
  | nil => rfl
  | cons d ds =>
    have hmem : d ∈ db.pairAt e p := hpair ▸ List.mem_cons_self
    obtain ⟨hd, rfl, rfl⟩ := Db.mem_pairAt.mp hmem
    rw [← hpair]
    exact (h.chain_pairAt hd).generations

/-- A generation that nothing follows is the last one. -/
theorem Inv.generation_last (h : Inv lib db) {d : Delivery} (hd : d ∈ db.deliveries)
    (hmax : ∀ x ∈ db.pairAt d.eventId d.endpointId, x.replayGeneration ≤ d.replayGeneration) :
    d.replayGeneration + 1 = (db.pairAt d.eventId d.endpointId).length := by
  have hchain := h.chain_pairAt hd
  have hlt := hchain.generation_lt (Db.mem_pairAt_self hd)
  obtain ⟨init, x, heq, -⟩ := hchain.exists_last
  rw [heq] at hchain hmax hlt ⊢
  have hle := hmax x (by simp)
  rw [hchain.last_generation] at hle
  rw [List.length_append, List.length_singleton] at hlt ⊢
  omega

/-- A delivered generation ends its chain. -/
theorem Inv.delivered_last (h : Inv lib db) {d : Delivery} (hd : d ∈ db.deliveries)
    (hs : d.status = .delivered) : ∀ x ∈ db.pairAt d.eventId d.endpointId,
      x.replayGeneration ≤ d.replayGeneration := by
  intro x hx
  by_contra hlt
  have hdead := (h.chain_pairAt hd).dead_of_lt (Db.mem_pairAt_self hd) hx (Nat.lt_of_not_le hlt)
  rw [hs] at hdead
  cases hdead

/-- Every event has deliveries to exactly one endpoint. -/
theorem Inv.one_endpoint (h : Inv lib db) {ev : Event} (hev : ev ∈ db.events) :
    ∃! p, ∃ d ∈ db.deliveries, d.eventId = ev.id ∧ d.endpointId = p := by
  obtain ⟨d, hd, -⟩ := (h.chain ev hev).exists_initial
  obtain ⟨hm, he⟩ := Db.mem_deliveriesAt.mp hd
  refine ⟨d.endpointId, ⟨d, hm, he, rfl⟩, ?_⟩
  rintro p ⟨x, hx, hxe, rfl⟩
  exact (h.chain ev hev).endpoint_eq x (Db.mem_deliveriesAt.mpr ⟨hx, hxe⟩) d hd

open ControlRoom in
/-- Replays extend a chain at its end and nowhere else. -/
theorem reachable_chains {ls : List Shown} {s : System} (hr : Reaches lib ls s) :
    (∀ e p, (s.db.pairAt e p).map (·.replayGeneration) = List.range (s.db.pairAt e p).length) ∧
    (∀ d ∈ s.db.deliveries, d.replayGeneration = 0 →
      d.replayedFromDeliveryId = none ∧ d.replayIdempotencyKey = none) ∧
    (∀ d ∈ s.db.deliveries, ∀ k, d.replayGeneration = k + 1 → d.replayIdempotencyKey.isSome ∧
      ∃ p ∈ s.db.pairAt d.eventId d.endpointId, p.replayGeneration = k ∧
        d.replayedFromDeliveryId = some p.id) ∧
    (∀ d ∈ s.db.deliveries,
      d.replayGeneration + 1 < (s.db.pairAt d.eventId d.endpointId).length →
        d.status = .deadLettered) ∧
    (∀ d ∈ s.db.deliveries, ∀ d' ∈ s.db.pairAt d.eventId d.endpointId,
      d.status.active = true → d'.status.active = true → d' = d) ∧
    (∀ d ∈ s.db.deliveries, d.status = .delivered →
      d.replayGeneration + 1 = (s.db.pairAt d.eventId d.endpointId).length) ∧
    (∀ ev ∈ s.db.events, ∃! p, ∃ d ∈ s.db.deliveries, d.eventId = ev.id ∧ d.endpointId = p) ∧
    (∀ t i key draw e, Label.fail t (.replay i key draw) e ∈ ls →
      ∀ j, e ≠ activeDeliveryExists j) ∧
    (∀ t r e, Label.fail t r e ∈ ls → e ≠ .multipleResultsFound) ∧
    (∀ d ∈ s.db.deliveries, latestGenerationCondition s.db d = true →
      generationCount d = (s.db.pairAt d.eventId d.endpointId).length) := by
  have hinv := reaches_inv hr
  refine ⟨hinv.pair_generations, fun d hd hg => ?_, fun d hd k hg => ?_, fun d hd hlt => ?_,
    fun d hd d' hd' ha ha' => ?_, fun d hd hs => hinv.generation_last hd (hinv.delivered_last hd hs),
    fun ev hev => hinv.one_endpoint hev, fun t i key draw e hm => ?_, fun t r e hm => ?_,
    fun d hd hlatest => ?_⟩
  · rcases (hinv.chain_pairAt hd).provenance d (Db.mem_pairAt_self hd) with ⟨-, h⟩ | ⟨p, -, hp, -⟩
    · exact h
    · omega
  · rcases (hinv.chain_pairAt hd).provenance d (Db.mem_pairAt_self hd) with
      ⟨h, -⟩ | ⟨p, hp, hpg, hf, hk⟩
    · omega
    · exact ⟨hk, p, hp, by omega, hf⟩
  · -- Some generation has the last number, and it is larger.
    obtain ⟨init, x, heq, -⟩ := (hinv.chain_pairAt hd).exists_last
    have hx : x ∈ s.db.pairAt d.eventId d.endpointId := by simp [heq]
    refine (hinv.chain_pairAt hd).dead_of_lt (Db.mem_pairAt_self hd) hx ?_
    have hlast := (heq ▸ hinv.chain_pairAt hd).last_generation
    rw [heq, List.length_append, List.length_singleton] at hlt
    omega
  · obtain ⟨hm, he, -⟩ := Db.mem_pairAt.mp hd'
    exact hinv.active_unique hd hm he ha ha'
  · obtain ⟨b, db, hraises⟩ := reaches_raises hr hm
    exact hraises.2.1
  · obtain ⟨b, db, hraises⟩ := reaches_raises hr hm
    cases r with
    | publish request key draw => exact hraises.1
    | replay i key draw => exact hraises.1.multiple
    | claimOne w draw =>
      obtain ⟨c, rfl⟩ := hraises
      simp
    | finalize w webhook result draw => exact hraises.1.multiple
    | _ => exact hraises
  · refine hinv.generation_last hd fun x hx => ?_
    obtain ⟨hm, he, hp⟩ := Db.mem_pairAt.mp hx
    simp only [latestGenerationCondition, Bool.not_eq_true', List.any_eq_false] at hlatest
    have := hlatest x hm
    simp only [he, hp, decide_true, Bool.true_and, decide_eq_true_eq] at this
    omega

end Chains

namespace Sample

def setEnabled (enabled : Bool) (now : Time) : Request := .setEnabled 1 enabled now

def replay (key : String) (id : UUID) (now : Time) : Request :=
  .replay 3 key { id := id, now := now, transactionNow := now }

/-- The endpoint is disabled when the delivery is due, and enabled again. -/
def deadLetter : List (Action ℕ Request) :=
  Sys.alone 0 register 2 ++ Sys.alone 1 (publish 2 3) 9 ++
  Sys.alone 2 (setEnabled false (epoch + 1)) 5 ++ Sys.alone 3 (claim "a" (epoch + 2) 4 5) 8 ++
  Sys.alone 4 (setEnabled true (epoch + 3)) 5

theorem replay_reaches : ∃ ls s, Reaches lib ls s ∧
    s.db.deliveries.rows.map (fun d => (d.replayGeneration, d.status)) =
      [(0, .deadLettered), (1, .pending)] := by
  have hplay : (Sys.play (Request.code lib) Ordinary [] (.idle Db.empty)
      (deadLetter ++ Sys.alone 5 (replay "again" 6 (epoch + 4)) 20)).any (fun p =>
      p.2.db.deliveries.rows.map (fun d => (d.replayGeneration, d.status)) =
        [(0, .deadLettered), (1, .pending)]) = true := by decide +kernel
  obtain ⟨ls, s, hr, h⟩ := Sys.exists_run hplay
  exact ⟨ls, s, hr, of_decide_eq_true h⟩

end Sample

theorem reachable_chains_of_replay : ∃ ls s, Reaches Sample.lib ls s ∧
    s.db.deliveries.rows.map (fun d => (d.replayGeneration, d.status)) =
      [(0, .deadLettered), (1, .pending)] ∧
    ∀ e p, (s.db.pairAt e p).map (·.replayGeneration) = List.range (s.db.pairAt e p).length := by
  obtain ⟨ls, s, hr, h⟩ := Sample.replay_reaches
  exact ⟨ls, s, hr, h, (reachable_chains hr).1⟩

end EventHarbor
