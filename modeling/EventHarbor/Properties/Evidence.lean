import EventHarbor.Properties.Ledger

/-!
# Evidence is append-only

What one committed transaction may do to the rows of a reachable store.
-/

namespace EventHarbor

open Relational DeliveryWorker EventService ReplayService

/-- The reclaim of an expired lease. -/
structure Reclaims (r : Request) (db : Db) (d d' : Delivery) : Prop where
  before : d.status = .inProgress
  after : d'.status = .inProgress
  count : d.attemptCount < d'.attemptCount
  token : ∃ t, d'.leaseToken = some t ∧ ∀ a ∈ db.attemptsAt d.id, a.leaseToken ≠ t
  expired : ∃ w draw, r = .claimOne w draw ∧
    (due d.leaseExpiresAt (draw.clock d.id) = true ∨ due d.leaseExpiresAt (draw.reclock d.id) = true)

section Evidence

variable {lib : Lib} {cleanup : Prop} {L : List Lock} {db db' : Db} {r : Request} {a : Response}
  {d d' : Delivery}

theorem Claimed.legal {w : DeliveryWorker} {draw : ClaimDraw} {ep : Endpoint} {c : Claim}
    {closed opened : Option DeliveryAttempt}
    (hc : Claimed cleanup w draw db ep d c d' closed opened)
    (hdue : claimable (draw.clock d.id) d = true ∨ claimable (draw.reclock d.id) d = true)
    (hopen : ∀ a, opened = some a → Opens L db d.id a) :
    d'.status ∈ d.status.allowedTransitions ∨ Reclaims (.claimOne w draw) db d d' := by
  cases hc with
  | lease hev hmem hs he hr =>
    left
    show DeliveryStatus.inProgress ∈ d.status.allowedTransitions
    rcases hs with hs | hs <;> rw [hs] <;> decide
  | relet hev hmem hs ha he hr =>
    have due_of : ∀ {now}, claimable now d = true → due d.leaseExpiresAt now = true := by
      intro now h
      simpa [claimable, hs] using h
    right
    exact ⟨hs, rfl, Nat.lt_succ_self _, ⟨_, rfl, (hopen _ rfl).token⟩, w, draw, rfl,
      hdue.imp due_of due_of⟩
  | expire hs ha hx =>
    left
    show DeliveryStatus.deadLettered ∈ d.status.allowedTransitions
    rw [hs]
    decide
  | drop hs hx =>
    left
    show DeliveryStatus.deadLettered ∈ d.status.allowedTransitions
    rcases hs with hs | hs <;> rw [hs] <;> decide

/-- How a delivery row may differ after a commit. -/
theorem Step.legal (hstep : Step lib cleanup L db r a db') (hd : d ∈ db.deliveries)
    (hd' : d' ∈ db'.deliveries) (hid : d'.id = d.id) :
    d' = d ∨ d'.status ∈ d.status.allowedTransitions ∨ Reclaims r db d d' := by
  have same : d' ∈ db.deliveries → d' = d := fun h => Table.eq_of_key h hd hid
  cases hstep with
  | accept hep hepid hdigest hbytes hvalid hevent hkey hdelivery hLe hLk hLd hLs =>
    rcases Table.mem_of_mem_insert hd' with h | rfl
    · exact .inl (same h)
    · exact absurd hid.symm (hdelivery d hd)
  | supersede hsid hfresh hvalid hLd hLs hsource =>
    rcases Table.mem_of_mem_insert hd' with h | rfl
    · exact .inl (same h)
    · exact absurd hid.symm (hfresh d hd)
  | @claim w draw c ep x x' closed opened hx hL hdue hep hepid hc hvalid hclose hopen =>
    rcases (mem_move_deliveries (hc.moves hx)).mp hd' with ⟨h, -⟩ | rfl
    · exact .inl (same h)
    · have hxd : x = d := Table.eq_of_key hx hd ((hc.moves hx).same.id.symm.trans hid)
      subst hxd
      exact .inr (hc.legal hdue hopen)
  | @settle w webhook result draw status delay x at' htarget hx hcount ha hL hvalid hclose =>
    rcases (mem_move_deliveries (settle_moves hx ha _ _ _ _)).mp hd' with ⟨h, -⟩ | rfl
    · exact .inl (same h)
    · have hxd : x = d := Table.eq_of_key (mem_ownedDeliveries.mp hx).1 hd hid
      subst hxd
      rw [(mem_ownedDeliveries.mp hx).2.2.1]
      exact .inr (.inl (target_allowed htarget))
  | purge hc hL hids hend => exact .inl (same (Table.mem_filter.mp hd').1)
  | _ => exact .inl (same hd')

/-- A commit changes no event and no finished row, and moves deliveries legally. -/
theorem evidence_append_only {ls : List Shown} {s s' : System} (hr : Reaches lib ls s)
    {x : Action ℕ Request} {t : ℕ}
    (hx : s.act (Request.code lib) x = some (.commit t r a, s')) :
    (∀ e ∈ s.db.events, e ∈ s'.db.events) ∧
    (∀ d ∈ s.db.deliveries, d.status = .delivered ∨ d.status = .deadLettered →
      d ∈ s'.db.deliveries) ∧
    (∀ b ∈ s.db.attempts, b.status = .completed ∨ b.status = .indeterminate →
      b ∈ s'.db.attempts) ∧
    (∀ d ∈ s.db.deliveries, ∃ d' ∈ s'.db.deliveries, d'.id = d.id ∧
      d.attemptCount ≤ d'.attemptCount ∧
      (d' = d ∨ d'.status ∈ d.status.allowedTransitions ∨ Reclaims r s.db d d')) := by
  obtain ⟨c, -, -, -, hstep⟩ := reaches_meets hr hx trivial
  have hstep : Step lib False c.held s.db r a s'.db := hstep
  have hp := hstep.effect.persist fun h => h.elim
  refine ⟨hp.events, fun d hd hs => ?_, fun b hb hs => ?_, fun d hd => ?_⟩
  · obtain ⟨d', hd', -, hend, -⟩ := hp.deliveries d hd
    have : d.status.active = false := by
      rcases hs with hs | hs <;> rw [hs] <;> rfl
    exact hend this ▸ hd'
  · obtain ⟨b', hb', -, hend⟩ := hp.attempts b hb
    have : b.status ≠ .inProgress := by
      rcases hs with hs | hs <;> rw [hs] <;> decide
    exact hend this ▸ hb'
  · obtain ⟨d', hd', hsame, -, hcount⟩ := hp.deliveries d hd
    exact ⟨d', hd', hsame.id, hcount, hstep.legal hd hd' hsame.id⟩

end Evidence

theorem evidence_append_only_of_expiry : ∃ ls s t r a s', Reaches Sample.lib ls s ∧
    s.act (Request.code Sample.lib) (.next 3) = some (.commit t r a, s') ∧
    Sample.attemptsOf s' = [(1, .indeterminate), (2, .inProgress)] ∧
    ∀ d ∈ s.db.deliveries, ∃ d' ∈ s'.db.deliveries, d'.id = d.id ∧
      d.attemptCount ≤ d'.attemptCount ∧
      (d' = d ∨ d'.status ∈ d.status.allowedTransitions ∨ Reclaims r s.db d d') := by
  obtain ⟨ls, s, t, r, a, s', -, -, hr, hx, h, -⟩ := Sample.expiry_reaches
  exact ⟨ls, s, t, r, a, s', hr, hx, h, (evidence_append_only hr hx).2.2.2⟩

end EventHarbor
