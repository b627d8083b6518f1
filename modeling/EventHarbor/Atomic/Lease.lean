import EventHarbor.Atomic.Invariant

/-!
# Leases and webhooks

A webhook names an attempt and the token of the lease it was claimed under.
The token belongs to one attempt of its delivery, so once the delivery has
moved on the webhook never fits it again.
-/

namespace EventHarbor

open Relational DeliveryWorker EventService ReplayService

/-- The attempt a webhook was claimed for exists. -/
def Issued (webhook : OutboundWebhook) (db : Db) : Prop :=
  ∃ a ∈ db.attempts, a.id = webhook.attemptId ∧ a.deliveryId = webhook.deliveryId ∧
    a.attemptNumber = webhook.attemptNumber ∧ a.leaseToken = webhook.leaseToken

theorem Issued.persist {webhook : OutboundWebhook} {db db' : Db} (h : Issued webhook db)
    (hp : Persist db db') : Issued webhook db' := by
  obtain ⟨a, ha, hid, hd, hn, ht⟩ := h
  obtain ⟨a', ha', hs, -⟩ := hp.attempts a ha
  exact ⟨a', ha', hs.id.trans hid, hs.deliveryId.trans hd, hs.attemptNumber.trans hn,
    hs.leaseToken.trans ht⟩

variable {lib : Lib} {cleanup : Prop} {L : List Lock} {db db' : Db} {webhook : OutboundWebhook}
  {w : DeliveryWorker} {d : Delivery}

/-- The delivery a webhook was issued for has that attempt. -/
theorem Inv.issued_number (h : Inv lib db) (hi : Issued webhook db) : 1 ≤ webhook.attemptNumber := by
  obtain ⟨a, ha, -, -, hn, -⟩ := hi
  obtain ⟨d, hd, hid⟩ := h.delivery a ha
  exact hn ▸ ((h.ledger d hd).number_mem (Db.mem_attemptsAt.mpr ⟨ha, hid.symm⟩)).1

/-- While its lease stands, a webhook's attempt is in progress. -/
theorem Inv.claimed_of_owned (h : Inv lib db) (hi : Issued webhook db)
    (hd : d ∈ ownedDeliveries w webhook db) :
    ∃ a ∈ claimedAttempts webhook db, a.attemptNumber = d.attemptCount := by
  obtain ⟨a, ha, hid, hda, hn, ht⟩ := hi
  obtain ⟨hm, hdid, hs, -, htoken⟩ := mem_ownedDeliveries.mp hd
  have hl := h.ledger d hm
  obtain ⟨x, hx, hxn, hxp⟩ := hl.progress.mp hs
  have hax : a = x := by
    refine hl.eq_of_token (Db.mem_attemptsAt.mpr ⟨ha, hda.trans hdid.symm⟩) hx ?_
    have := (hl.leased hs).2.2 x hx hxn
    rw [htoken, Option.some.injEq] at this
    exact ht.trans this
  subst hax
  exact ⟨a, mem_claimedAttempts.mpr ⟨ha, hid, hda, hn, ht, hxp⟩, hxn⟩

/-- A lease that fits an issued webhook is never newly made. -/
theorem Step.owned {r : Request} {a : Response} (hstep : Step lib cleanup L db r a db')
    (hi : Issued webhook db) (hd : d ∈ ownedDeliveries w webhook db') :
    d ∈ ownedDeliveries w webhook db := by
  obtain ⟨hm, hid, hs, ho, ht⟩ := mem_ownedDeliveries.mp hd
  have hold : d ∈ db.deliveries → d ∈ ownedDeliveries w webhook db := fun h =>
    mem_ownedDeliveries.mpr ⟨h, hid, hs, ho, ht⟩
  cases hstep with
  | accept hid hep hdigest hbytes hvalid hevent hkey hdelivery hLe hLk hLd hLs =>
    rcases Table.mem_of_mem_insert hm with hm | rfl
    · exact hold hm
    · cases hs
  | supersede hid hfresh hvalid hLd hLs hsource =>
    rcases Table.mem_of_mem_insert hm with hm | rfl
    · exact hold hm
    · cases hs
  | @claim v draw c ep x x' closed opened hx hL hdue hep hepid hc hvalid hclose hopen =>
    rcases (mem_move_deliveries (hc.moves hx)).mp hm with ⟨hm, -⟩ | rfl
    · exact hold hm
    · -- The delivery was just leased, under a token no attempt of it has.
      obtain ⟨b, hb, -, hbd, -, hbt⟩ := hi
      have hmem : b ∈ db.attemptsAt x.id :=
        Db.mem_attemptsAt.mpr ⟨hb, hbd.trans (hid.symm.trans (hc.moves hx).same.id)⟩
      cases hc with
      | lease => exact absurd (hbt.trans (Option.some.inj ht).symm) ((hopen _ rfl).token b hmem)
      | relet => exact absurd (hbt.trans (Option.some.inj ht).symm) ((hopen _ rfl).token b hmem)
      | expire => cases hs
      | drop => cases hs
  | settle htarget hx hcount ha hL hvalid hclose =>
    rcases (mem_move_deliveries (settle_moves hx ha _ _ _ _)).mp hm with ⟨hm, -⟩ | rfl
    · exact hold hm
    · rcases target_cases htarget with ⟨rfl, -⟩ | ⟨rfl, -⟩ | ⟨rfl, -⟩ <;> cases hs
  | purge hc hL hids hend => exact hold (Table.mem_filter.mp hm).1
  | _ => exact hold hm

/-- A webhook is issued with its attempt. -/
theorem Step.issued {r : Request} {c : Option Claim}
    (hstep : Step lib cleanup L db r (.claimed c) db') (hc : c = some (.webhook webhook)) :
    Issued webhook db' := by
  subst hc
  cases hstep with
  | @claim v draw _ ep x x' closed opened hx hL hdue hep hepid hc hvalid hclose hopen =>
    have hmem : ∀ b, opened = some b → b ∈ (db.move x' closed opened).attempts := by
      rintro b rfl
      have hfresh : (closed.elim db.attempts db.attempts.set).Fresh b.id := by
        cases closed with
        | none => exact (hopen b rfl).id
        | some a => exact fresh_set (hopen b rfl).id
      exact (Table.mem_insert hfresh).mpr (.inr rfl)
    cases hc with
    | lease => exact ⟨_, hmem _ rfl, rfl, rfl, rfl, rfl⟩
    | relet => exact ⟨_, hmem _ rfl, rfl, rfl, rfl, rfl⟩

end EventHarbor
