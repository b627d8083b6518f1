import EventHarbor.Properties.Chains

/-!
# Replay requests are idempotent

The successor of a delivery is created once, and every later request about its
source is answered from that row.
-/

namespace EventHarbor

open Relational ReplayService

/-- The accepted response about `d` as the successor of `i`. -/
def Delivery.acceptance (d : Delivery) (i : UUID) : ReplayAcceptedResponse where
  sourceDeliveryId := i
  deliveryId := d.id
  eventId := d.eventId
  endpointId := d.endpointId
  replayGeneration := d.replayGeneration
  status := .pending
  createdAt := d.createdAt

/-- A commit that created a successor of `i`. -/
def creates (i : UUID) : Request × Response → Bool
  | (.replay j _ _, .replayed r) => j = i && !r.idempotentReplay
  | _ => false

section Replay

variable {lib : Lib} {cleanup : Prop} {L : List Lock} {db db' : Db} {i : UUID} {key : String}
  {draw : ReplayDraw} {h : List (Request × Response)}

theorem SameDelivery.acceptance {d d' : Delivery} (hs : SameDelivery d d') (i : UUID) :
    d'.acceptance i = d.acceptance i := by
  simp [Delivery.acceptance, hs.id, hs.eventId, hs.endpointId, hs.replayGeneration, hs.createdAt]

/-- An answered replay is about a stored successor. -/
theorem Step.replayed {a : Response} (hno : ¬cleanup)
    (hs : Step lib cleanup L db (.replay i key draw) a db') :
    ∃ v, a = .replayed v ∧ ∃ d ∈ db'.deliveries, d.replayedFromDeliveryId = some i ∧
      d.replayIdempotencyKey = some key ∧ v.accepted = d.acceptance i := by
  cases hs with
  | supersede hid hfresh hvalid hLd hLs hsource =>
    subst hid
    exact ⟨_, rfl, _, (Table.mem_insert hfresh).mpr (.inr rfl), rfl, rfl, rfl⟩
  | repeated hid hrow =>
    subst hid
    obtain ⟨row, hmem, hsame, hf, hk⟩ := hrow hno
    exact ⟨_, rfl, row, hmem, hf, hk, (hsame.acceptance _).symm⟩

/-- A successor is created only where there was none. -/
theorem Step.creates_first (hno : ¬cleanup) (hinv : Inv lib db) {x : Request × Response}
    (hs : Step lib cleanup L db x.1 x.2 db') (hx : creates i x = true) :
    ∀ d ∈ db.deliveries, d.replayedFromDeliveryId ≠ some i := by
  obtain ⟨r, a⟩ := x
  cases hs with
  | @supersede j key draw source hid hfresh hvalid hLd hLs hsource =>
    have hij : j = i := by simpa [creates] using hx
    subst hij hid
    obtain ⟨hm, -, hmax⟩ := hsource hno
    intro d hd
    exact Newest.no_successor hmax hinv ⟨source, hm, .refl source, fun _ => rfl⟩ hd
  | repeated hid hrow => simp [creates] at hx
  | _ => cases hx

/-- Along a trace every accepted response is about the stored successor. -/
theorem trace_replayed (ht : (contract lib False).Trace [] Db.empty h db) {r : ReplayedDelivery}
    (hm : (Request.replay i key draw, Response.replayed r) ∈ h) :
    ∃ d ∈ db.deliveries, d.replayedFromDeliveryId = some i ∧ d.replayIdempotencyKey = some key ∧
      r.accepted = d.acceptance i := by
  induction ht with
  | nil => cases hm
  | snoc ht ha hinv hc ih =>
    rcases List.mem_append.mp hm with hm | hm
    · obtain ⟨d, hd, hf, hk, hacc⟩ := ih hm
      obtain ⟨d', hd', hsame, -⟩ := (hc.effect.persist fun hcl => hcl.elim).deliveries d hd
      exact ⟨d', hd', hsame.replayedFrom.trans hf, hsame.replayKey.trans hk,
        hacc.trans (hsame.acceptance i).symm⟩
    · cases List.mem_singleton.mp hm
      obtain ⟨v, hv, hrow⟩ := hc.replayed not_false
      cases hv
      exact hrow

/-- A created successor is stored. -/
theorem trace_created (ht : (contract lib False).Trace [] Db.empty h db)
    (hx : 0 < h.countP (creates i)) : ∃ d ∈ db.deliveries, d.replayedFromDeliveryId = some i := by
  obtain ⟨⟨r, a⟩, hm, hcr⟩ := List.countP_pos_iff.mp hx
  cases r with
  | replay j key draw =>
    cases a with
    | replayed r =>
      obtain ⟨d, hd, hf, -⟩ := trace_replayed ht hm
      have hji : j = i := by
        simp only [creates, Bool.and_eq_true, decide_eq_true_eq] at hcr
        exact hcr.1
      exact ⟨d, hd, hji ▸ hf⟩
    | _ => cases hcr
  | _ => cases hcr

theorem trace_creates_once (ht : (contract lib False).Trace [] Db.empty h db) :
    h.countP (creates i) ≤ 1 := by
  induction ht with
  | nil => simp
  | @snoc h db r a L db' ht ha hinv hc ih =>
    rw [List.countP_append, List.countP_singleton]
    split
    · rename_i hx
      have hzero : h.countP (creates i) = 0 := by
        by_contra hne
        obtain ⟨d, hd, hf⟩ := trace_created ht (Nat.pos_of_ne_zero hne)
        exact Step.creates_first (x := (r, a)) not_false (hinv not_false) hc hx d hd hf
      omega
    · exact ih

/-- A request about a source that had a successor when the request started. -/
theorem replay_answer {ls : List Shown} {s s' : System} (hr : Reaches lib ls s)
    {c : Session ℕ Request Db Write Lock (List UUID) Error Response} (hc : c ∈ s.sessions)
    (hreq : c.req = .replay i key draw) {d : Delivery} (hd : d ∈ c.born.deliveries)
    (hf : d.replayedFromDeliveryId = some i) {x : Action ℕ Request} {m : Shown}
    (hx : s.act (Request.code lib) x = some (m, s')) :
    (∀ r a, m = .commit c.id r a → d.replayIdempotencyKey = some key ∧
      ∃ v, a = .replayed v ∧ v.accepted = d.acceptance i) ∧
    (∀ r e, m = .fail c.id r e → d.replayIdempotencyKey ≠ some key ∧
      ∃ j, e = replaySourceSuperseded i j) := by
  constructor
  · rintro r a rfl
    obtain ⟨-, hstep⟩ := reaches_commit hr hc hx
    rw [hreq] at hstep
    -- The successor of the start is still the only one.
    obtain ⟨d₁, hd₁, hsame, -⟩ := (reaches_past hr hc).deliveries d hd
    obtain ⟨d₂, hd₂, hsame₂, -⟩ := (hstep.effect.persist fun hcl => hcl.elim).deliveries d₁ hd₁
    have hsame := hsame.trans hsame₂
    have hinv := hstep.inv not_false (reaches_inv hr)
    obtain ⟨v, rfl, row, hrow, hrf, hrk, hacc⟩ := hstep.replayed not_false
    obtain rfl := hinv.successor_unique hrow hd₂ hrf (hsame.replayedFrom.trans hf)
    exact ⟨hsame.replayKey.symm.trans hrk, v, rfl, hacc.trans (hsame.acceptance i)⟩
  · rintro r e rfl
    obtain ⟨-, -, hraises⟩ := reaches_fail hr hc hx
    rw [hreq] at hraises
    exact hraises.2.2 d hd hf

/-- Replay requests create one successor and agree on it. -/
theorem replay_idempotent {ls : List Shown} {s : System} (hr : Reaches lib ls s) :
    (∀ i, (history ls).countP (creates i) ≤ 1) ∧
    (∀ i, ∀ d ∈ s.db.deliveries, ∀ d' ∈ s.db.deliveries, d.replayedFromDeliveryId = some i →
      d'.replayedFromDeliveryId = some i → d = d') ∧
    (∀ i key draw draw' v v', (Request.replay i key draw, Response.replayed v) ∈ history ls →
      (Request.replay i key draw', Response.replayed v') ∈ history ls → v.accepted = v'.accepted) ∧
    (∀ c ∈ s.sessions, ∀ i key draw, c.req = .replay i key draw → ∀ d ∈ c.born.deliveries,
      d.replayedFromDeliveryId = some i →
      ∀ x m s', s.act (Request.code lib) x = some (m, s') →
        (∀ r a, m = .commit c.id r a → d.replayIdempotencyKey = some key ∧
          ∃ v, a = .replayed v ∧ v.accepted = d.acceptance i) ∧
        (∀ r e, m = .fail c.id r e → d.replayIdempotencyKey ≠ some key ∧
          ∃ j, e = replaySourceSuperseded i j)) ∧
    (∀ x t r e s', s.act (Request.code lib) x = some (.fail t r e, s') → s'.db = s.db) := by
  have ht := (reaches_sound hr).trace
  have hinv := reaches_inv hr
  refine ⟨fun i => trace_creates_once ht, fun i d hd d' hd' hf hf' => ?_,
    fun i key draw draw' v v' hm hm' => ?_, fun c hc i key draw hreq d hd hf x m s' hx =>
      replay_answer hr hc hreq hd hf hx, fun x t r e s' hx => ?_⟩
  · exact hinv.successor_unique hd hd' hf hf'
  · obtain ⟨d, hd, hf, -, hacc⟩ := trace_replayed ht hm
    obtain ⟨d', hd', hf', -, hacc'⟩ := trace_replayed ht hm'
    obtain rfl := hinv.successor_unique hd hd' hf hf'
    exact hacc.trans hacc'.symm
  · exact (reaches_meets hr hx trivial).1

end Replay

/-- A replay is repeated, and another key is still being answered. -/
theorem replay_idempotent_of_retry : ∃ ls s, Reaches Sample.lib ls s ∧
    (history ls).countP (creates 3) = 1 ∧ s.sessions.rows.length = 1 ∧
    (∀ i, (history ls).countP (creates i) ≤ 1) ∧
    ∀ x t r e s', s.act (Request.code Sample.lib) x = some (.fail t r e, s') → s'.db = s.db := by
  have hplay : (Sys.play (Request.code Sample.lib) Ordinary [] (.idle Db.empty)
      (Sample.deadLetter ++ Sys.alone 5 (Sample.replay "again" 6 (Sample.epoch + 4)) 20 ++
        Sys.alone 6 (Sample.replay "again" 7 (Sample.epoch + 5)) 9 ++
        Sys.alone 7 (Sample.replay "other" 8 (Sample.epoch + 6)) 9)).any (fun p =>
      (history p.1).countP (creates 3) = 1 && p.2.sessions.rows.length = 1) = true := by
    decide +kernel
  obtain ⟨ls, s, hr, h⟩ := Sys.exists_run hplay
  simp only [Bool.and_eq_true, decide_eq_true_eq] at h
  obtain ⟨honce, -, -, -, hsame⟩ := replay_idempotent hr
  exact ⟨ls, s, hr, h.1, h.2, honce, hsame⟩

end EventHarbor
