import EventHarbor.Atomic.Frame

/-!
# The ledger of one delivery

A delivery row with its attempts, oldest first. Opening an attempt, closing
the open one and giving the delivery up each keep the ledger in order.
-/

namespace EventHarbor

open Relational DeliveryWorker

/-- A delivery in order with its attempts. -/
structure Ledger (d : Delivery) (as : List DeliveryAttempt) : Prop where
  numbered : as.map (·.attemptNumber) = List.range' 1 d.attemptCount
  tokens : (as.map (·.leaseToken)).Nodup
  lifecycle : ∀ a ∈ as, a.lifecycleFields = true
  closed : ∀ a ∈ as, a.attemptNumber < d.attemptCount → a.status ≠ .inProgress
  progress : d.status = .inProgress ↔
    ∃ a ∈ as, a.attemptNumber = d.attemptCount ∧ a.status = .inProgress
  leased : d.status = .inProgress → d.leaseOwner.isSome ∧ d.leaseExpiresAt.isSome ∧
    ∀ a ∈ as, a.attemptNumber = d.attemptCount → d.leaseToken = some a.leaseToken
  unleased : d.status ≠ .inProgress →
    d.leaseOwner = none ∧ d.leaseExpiresAt = none ∧ d.leaseToken = none
  scheduled : d.status = .pending ∨ d.status = .retryWait → d.nextAttemptAt.isSome
  succeeded : d.status = .delivered ↔ ∃ a ∈ as, a.disposition = some .succeeded
  last : ∀ a ∈ as, a.disposition = some .succeeded → a.attemptNumber = d.attemptCount
  delivered : d.status = .delivered → d.deliveredAt.isSome

namespace Ledger

variable {d d' : Delivery} {as : List DeliveryAttempt} {a a' b : DeliveryAttempt}

theorem number_mem (h : Ledger d as) (ha : a ∈ as) :
    1 ≤ a.attemptNumber ∧ a.attemptNumber ≤ d.attemptCount := by
  have hm : a.attemptNumber ∈ List.range' 1 d.attemptCount := h.numbered ▸ List.mem_map_of_mem ha
  rw [List.mem_range'_1] at hm
  omega

/-- Away from an in-progress delivery every attempt is closed. -/
theorem all_closed (h : Ledger d as) (hs : d.status ≠ .inProgress) (ha : a ∈ as) :
    a.status ≠ .inProgress := by
  intro hp
  rcases Nat.lt_or_eq_of_le (h.number_mem ha).2 with hlt | heq
  · exact h.closed a ha hlt hp
  · exact hs (h.progress.mpr ⟨a, ha, heq, hp⟩)

/-- An in-progress attempt is the newest one. -/
theorem number_of_inProgress (h : Ledger d as) (ha : a ∈ as) (hp : a.status = .inProgress) :
    a.attemptNumber = d.attemptCount := by
  rcases Nat.lt_or_eq_of_le (h.number_mem ha).2 with hlt | heq
  · exact absurd hp (h.closed a ha hlt)
  · exact heq

theorem not_succeeded (h : Ledger d as) (hs : d.status ≠ .delivered) (ha : a ∈ as) :
    a.disposition ≠ some .succeeded := fun hd => hs (h.succeeded.mpr ⟨a, ha, hd⟩)

/-- Attempt numbers tell the attempts of a delivery apart. -/
theorem eq_of_number (h : Ledger d as) (ha : a ∈ as) (hb : b ∈ as)
    (hn : a.attemptNumber = b.attemptNumber) : a = b := by
  refine List.inj_on_of_nodup_map ?_ ha hb hn
  rw [h.numbered]
  exact List.nodup_range'

theorem eq_of_token (h : Ledger d as) (ha : a ∈ as) (hb : b ∈ as)
    (ht : a.leaseToken = b.leaseToken) : a = b :=
  List.inj_on_of_nodup_map h.tokens ha hb ht

/-- A delivery that has not been tried. -/
theorem initial (hc : d.attemptCount = 0) (hs : d.status = .pending)
    (hl : d.leaseOwner = none ∧ d.leaseExpiresAt = none ∧ d.leaseToken = none)
    (hn : d.nextAttemptAt.isSome) : Ledger d [] where
  numbered := by simp [hc]
  tokens := List.nodup_nil
  lifecycle := by simp
  closed := by simp
  progress := by simp [hs]
  leased := by simp [hs]
  unleased := fun _ => hl
  scheduled := fun _ => hn
  succeeded := by simp [hs]
  last := by simp
  delivered := by simp [hs]

/-- Opening the next attempt of a delivery that waits. -/
theorem opened (h : Ledger d as) (hs : d.status = .pending ∨ d.status = .retryWait)
    (hstatus : d'.status = .inProgress) (hcount : d'.attemptCount = d.attemptCount + 1)
    (howner : d'.leaseOwner.isSome) (hexpires : d'.leaseExpiresAt.isSome)
    (htoken : d'.leaseToken = some b.leaseToken) (hnum : b.attemptNumber = d.attemptCount + 1)
    (hb : b.status = .inProgress) (hlife : b.lifecycleFields = true)
    (hdisp : b.disposition = none) (hfresh : ∀ a ∈ as, a.leaseToken ≠ b.leaseToken) :
    Ledger d' (as ++ [b]) := by
  have hns : d.status ≠ .inProgress := by rcases hs with hs | hs <;> simp [hs]
  have hnd : d.status ≠ .delivered := by rcases hs with hs | hs <;> simp [hs]
  have hlt : ∀ a ∈ as, a.attemptNumber < d'.attemptCount := by
    intro a ha
    have := (h.number_mem ha).2
    omega
  refine ⟨?_, ?_, ?_, ?_, ?_, ?_, ?_, ?_, ?_, ?_, ?_⟩
  · rw [List.map_append, h.numbered, hcount, List.range'_1_concat, Nat.add_comm 1]
    simp [hnum]
  · rw [List.map_append, List.nodup_append]
    refine ⟨h.tokens, by simp, ?_⟩
    intro t ht t' ht'
    obtain ⟨a, ha, rfl⟩ := List.mem_map.mp ht
    simp only [List.map_cons, List.map_nil, List.mem_singleton] at ht'
    exact ht' ▸ hfresh a ha
  · intro a ha
    rcases List.mem_append.mp ha with ha | ha
    · exact h.lifecycle a ha
    · rw [List.mem_singleton.mp ha]
      exact hlife
  · intro a ha hlt'
    rcases List.mem_append.mp ha with ha | ha
    · exact h.all_closed hns ha
    · rw [List.mem_singleton.mp ha, hnum, hcount] at hlt'
      exact absurd hlt' (Nat.lt_irrefl _)
  · exact iff_of_true hstatus ⟨b, by simp, by rw [hnum, hcount], hb⟩
  · refine fun _ => ⟨howner, hexpires, ?_⟩
    intro a ha hn
    rcases List.mem_append.mp ha with ha | ha
    · exact absurd hn (Nat.ne_of_lt (hlt a ha))
    · rw [List.mem_singleton.mp ha, htoken]
  · exact fun hne => absurd hstatus hne
  · intro hw
    rcases hw with hw | hw <;> simp [hstatus] at hw
  · refine iff_of_false (by simp [hstatus]) ?_
    rintro ⟨a, ha, hd⟩
    rcases List.mem_append.mp ha with ha | ha
    · exact h.not_succeeded hnd ha hd
    · rw [List.mem_singleton.mp ha, hdisp] at hd
      cases hd
  · intro a ha hd
    rcases List.mem_append.mp ha with ha | ha
    · exact absurd hd (h.not_succeeded hnd ha)
    · rw [List.mem_singleton.mp ha, hdisp] at hd
      cases hd
  · simp [hstatus]

/-- What closing an attempt leaves in the list. -/
theorem mem_close {x : DeliveryAttempt} (hsame : SameAttempt a a')
    (hx : x ∈ closeAttempt (some a') as) : x = a' ∨ (x ∈ as ∧ x.id ≠ a.id) := by
  obtain ⟨y, hy, rfl⟩ := List.mem_map.mp hx
  by_cases hk : y.id = a'.id
  · exact .inl (Table.overwrite_self hk)
  · rw [Table.overwrite_of_ne hk]
    exact .inr ⟨hy, hsame.id ▸ hk⟩

theorem mem_close_self (hsame : SameAttempt a a') (ha : a ∈ as) :
    a' ∈ closeAttempt (some a') as :=
  List.mem_map.mpr ⟨a, ha, Table.overwrite_self hsame.id.symm⟩

theorem map_close {β : Type} (f : DeliveryAttempt → β) (hf : f a' = f a)
    (hsame : SameAttempt a a') (hids : ∀ x ∈ as, x.id = a.id → x = a) :
    (closeAttempt (some a') as).map f = as.map f := by
  unfold closeAttempt
  rw [Option.elim_some, List.map_map]
  apply List.map_congr_left
  intro x hx
  by_cases hk : x.id = a'.id
  · rw [Function.comp_apply, Table.overwrite_self hk, hids x hx (hk.trans hsame.id), hf]
  · rw [Function.comp_apply, Table.overwrite_of_ne hk]

/-- Closing the open attempt of a delivery in progress. -/
theorem settle (h : Ledger d as) (hs : d.status = .inProgress) (ha : a ∈ as)
    (hp : a.status = .inProgress) (hids : ∀ x ∈ as, x.id = a.id → x = a)
    (hsame : SameAttempt a a') (hp' : a'.status ≠ .inProgress)
    (hlife : a'.lifecycleFields = true) (hstatus : d'.status ≠ .inProgress)
    (hcount : d'.attemptCount = d.attemptCount)
    (hlease : d'.leaseOwner = none ∧ d'.leaseExpiresAt = none ∧ d'.leaseToken = none)
    (hnext : d'.status = .pending ∨ d'.status = .retryWait → d'.nextAttemptAt.isSome)
    (hsucc : d'.status = .delivered ↔ a'.disposition = some .succeeded)
    (hdeliv : d'.status = .delivered → d'.deliveredAt.isSome) :
    Ledger d' (closeAttempt (some a') as) := by
  have hnum := h.number_of_inProgress ha hp
  have hnd : d.status ≠ .delivered := by simp [hs]
  have hclosed : ∀ x ∈ closeAttempt (some a') as, x.status ≠ .inProgress := by
    intro x hx
    rcases mem_close hsame hx with rfl | ⟨hx, hne⟩
    · exact hp'
    · intro hxp
      exact hne (congrArg _ (h.eq_of_number hx ha ((h.number_of_inProgress hx hxp).trans hnum.symm)))
  refine ⟨?_, ?_, ?_, ?_, ?_, ?_, ?_, hnext, ?_, ?_, hdeliv⟩
  · rw [map_close _ hsame.attemptNumber hsame hids, hcount]
    exact h.numbered
  · rw [map_close _ hsame.leaseToken hsame hids]
    exact h.tokens
  · intro x hx
    rcases mem_close hsame hx with rfl | ⟨hx, -⟩
    · exact hlife
    · exact h.lifecycle x hx
  · exact fun x hx _ => hclosed x hx
  · refine iff_of_false hstatus ?_
    rintro ⟨x, hx, -, hxp⟩
    exact hclosed x hx hxp
  · exact fun hc => absurd hc hstatus
  · exact fun _ => hlease
  · rw [hsucc]
    constructor
    · exact fun hd => ⟨a', mem_close_self hsame ha, hd⟩
    · rintro ⟨x, hx, hd⟩
      rcases mem_close hsame hx with rfl | ⟨hx, -⟩
      · exact hd
      · exact absurd hd (h.not_succeeded hnd hx)
  · intro x hx hd
    rcases mem_close hsame hx with rfl | ⟨hx, -⟩
    · rw [hsame.attemptNumber, hnum, hcount]
    · exact absurd hd (h.not_succeeded hnd hx)

/-- Giving up a delivery that waits. -/
theorem dropped (h : Ledger d as) (hs : d.status = .pending ∨ d.status = .retryWait)
    (hstatus : d'.status = .deadLettered) (hcount : d'.attemptCount = d.attemptCount)
    (hlease : d'.leaseOwner = none ∧ d'.leaseExpiresAt = none ∧ d'.leaseToken = none) :
    Ledger d' as := by
  have hns : d.status ≠ .inProgress := by rcases hs with hs | hs <;> simp [hs]
  have hnd : d.status ≠ .delivered := by rcases hs with hs | hs <;> simp [hs]
  refine ⟨hcount ▸ h.numbered, h.tokens, h.lifecycle, fun a ha _ => h.all_closed hns ha, ?_, ?_, ?_,
    ?_, ?_, fun a ha hd => absurd hd (h.not_succeeded hnd ha), ?_⟩
  · refine iff_of_false (by simp [hstatus]) ?_
    rintro ⟨a, ha, -, hp⟩
    exact h.all_closed hns ha hp
  · simp [hstatus]
  · exact fun _ => hlease
  · simp [hstatus]
  · refine iff_of_false (by simp [hstatus]) ?_
    rintro ⟨a, ha, hd⟩
    exact h.not_succeeded hnd ha hd
  · simp [hstatus]

end Ledger

/-! ## The moves of the worker -/

theorem lifecycleFields_reserved (d : Delivery) (draw : ClaimDraw) :
    (reserved d draw).lifecycleFields = true := rfl

theorem lifecycleFields_completed (a : DeliveryAttempt) (result : AttemptResult)
    (at' : Option Time) (now : Time) : (completed a result at' now).lifecycleFields = true := rfl

theorem lifecycleFields_indeterminate {a : DeliveryAttempt} (hp : a.status = .inProgress)
    (h : a.lifecycleFields = true) (reason : String) (now : Time) :
    (indeterminate a reason now).lifecycleFields = true := by
  simp only [DeliveryAttempt.lifecycleFields, hp, Bool.and_eq_true] at h
  simp [DeliveryAttempt.lifecycleFields, indeterminate, h]

theorem disposition_of_inProgress {a : DeliveryAttempt} (hp : a.status = .inProgress)
    (h : a.lifecycleFields = true) : a.disposition = none := by
  simp only [DeliveryAttempt.lifecycleFields, hp, Bool.and_eq_true, Option.isNone_iff_eq_none] at h
  exact h.1.1.1.1.1.1.1.1.1.1

section Moves

variable {db : Db} {d d' : Delivery} {a : DeliveryAttempt}

theorem attemptsAt_ids (ha : a ∈ db.attempts) {i : UUID} :
    ∀ x ∈ db.attemptsAt i, x.id = a.id → x = a := by
  intro x hx hid
  exact Table.eq_of_key (Db.mem_attemptsAt.mp hx).1 ha hid

/-- Closing the leased attempt of a delivery as indeterminate. -/
theorem Ledger.lapsed (h : Ledger d (db.attemptsAt d.id)) (hs : d.status = .inProgress)
    (ha : a ∈ leasedAttempts d db) (reason : String) (now : Time)
    (hstatus : d'.status = .deadLettered ∨ d'.status = .retryWait)
    (hcount : d'.attemptCount = d.attemptCount)
    (hlease : d'.leaseOwner = none ∧ d'.leaseExpiresAt = none ∧ d'.leaseToken = none)
    (hnext : d'.status = .retryWait → d'.nextAttemptAt.isSome) :
    Ledger d' (closeAttempt (some (indeterminate a reason now)) (db.attemptsAt d.id)) := by
  obtain ⟨hm, hid, -, -, hp⟩ := mem_leasedAttempts.mp ha
  have hmem : a ∈ db.attemptsAt d.id := Db.mem_attemptsAt.mpr ⟨hm, hid⟩
  have hdisp := disposition_of_inProgress hp (h.lifecycle a hmem)
  refine h.settle hs hmem hp (attemptsAt_ids hm) ⟨rfl, rfl, rfl, rfl⟩ (by simp [indeterminate])
    (lifecycleFields_indeterminate hp (h.lifecycle a hmem) reason now) ?_ hcount hlease ?_ ?_ ?_
  · rcases hstatus with hs | hs <;> simp [hs]
  · rcases hstatus with hs | hs
    · simp [hs]
    · exact fun _ => hnext hs
  · rw [show (indeterminate a reason now).disposition = none from hdisp]
    rcases hstatus with hs | hs <;> simp [hs]
  · rcases hstatus with hs | hs <;> simp [hs]

/-- Leasing a delivery that waits, with fresh identifiers. -/
theorem Ledger.reserve {as : List DeliveryAttempt} (h : Ledger d as) (w : DeliveryWorker)
    (draw : ClaimDraw) (hs : d.status = .pending ∨ d.status = .retryWait)
    (hfresh : ∀ b ∈ as, b.leaseToken ≠ draw.leaseToken) :
    Ledger (w.leased d draw) (as ++ [reserved (w.leased d draw) draw]) :=
  h.opened hs rfl rfl rfl rfl rfl rfl rfl (lifecycleFields_reserved _ _) rfl hfresh

theorem Claimed.ledger {cleanup : Prop} {L : List Lock} {w : DeliveryWorker} {draw : ClaimDraw}
    {ep : Endpoint} {c : Claim} {closed opened : Option DeliveryAttempt}
    (hc : Claimed cleanup w draw db ep d c d' closed opened)
    (hopen : ∀ a, opened = some a → Opens L db d.id a) (h : Ledger d (db.attemptsAt d.id)) :
    Ledger d' (closeAttempt closed (db.attemptsAt d.id) ++ opened.toList) := by
  cases hc with
  | lease hev hmem hs he hr => exact h.reserve w draw hs (hopen _ rfl).token
  | @relet ev a hev hmem hs ha he hr =>
    -- Between the two halves of a relet the delivery waits like a retry.
    let waiting : Delivery := { w.expired d true draw with
      status := .retryWait, nextAttemptAt := some draw.now
      leaseOwner := none, leaseExpiresAt := none, leaseToken := none }
    have hw : Ledger waiting (closeAttempt (some (indeterminate a (w.expiryReason d true) draw.now))
        (db.attemptsAt d.id)) :=
      h.lapsed hs ha _ _ (.inr rfl) rfl ⟨rfl, rfl, rfl⟩ fun _ => rfl
    refine hw.reserve w draw (.inr rfl) ?_
    intro b hb
    have hsame : SameAttempt a (indeterminate a (w.expiryReason d true) draw.now) :=
      ⟨rfl, rfl, rfl, rfl⟩
    rcases Ledger.mem_close hsame hb with rfl | ⟨hb, -⟩
    · exact (hopen _ rfl).token a
        (Db.mem_attemptsAt.mpr ⟨(mem_leasedAttempts.mp ha).1, (mem_leasedAttempts.mp ha).2.1⟩)
    · exact (hopen _ rfl).token b hb
  | expire hs ha hx =>
    rw [Option.toList_none, List.append_nil]
    exact h.lapsed hs ha _ _ (.inl rfl) rfl ⟨rfl, rfl, rfl⟩ fun h => by cases h
  | drop hs hx =>
    rw [Option.toList_none, List.append_nil]
    exact h.dropped hs rfl rfl ⟨rfl, rfl, rfl⟩

/-- The status a result leads to. -/
theorem target_cases {w : DeliveryWorker} {webhook : OutboundWebhook} {result : AttemptResult}
    {f : ℚ} {status : DeliveryStatus} {delay : Option ℚ}
    (h : target w webhook result f = .ok (status, delay)) :
    (status = .delivered ∧ delay = none ∧ result.disposition = .succeeded) ∨
    (status = .deadLettered ∧ delay = none ∧ result.disposition ≠ .succeeded) ∨
    (status = .retryWait ∧ delay.isSome ∧ result.disposition = .retry ∧
      webhook.attemptNumber < w.settings.workerMaxAttempts) := by
  unfold target at h
  cases hd : result.disposition with
  | succeeded =>
    simp only [hd, Except.ok.injEq, Prod.mk.injEq] at h
    exact .inl ⟨h.1.symm, h.2.symm, rfl⟩
  | terminalFailure =>
    simp only [hd, Except.ok.injEq, Prod.mk.injEq] at h
    exact .inr (.inl ⟨h.1.symm, h.2.symm, by simp⟩)
  | retry =>
    simp only [hd] at h
    by_cases hr : w.retryPolicy.hasAttemptRemaining webhook.attemptNumber = true
    · rw [if_pos hr] at h
      cases hdelay : w.retryPolicy.delaySeconds webhook.attemptNumber f with
      | error e => simp [hdelay] at h
      | ok delaySeconds =>
        simp only [hdelay, Except.ok.injEq, Prod.mk.injEq] at h
        exact .inr (.inr ⟨h.1.symm, by simp [← h.2], rfl, of_decide_eq_true hr⟩)
    · simp only [if_neg hr, Except.ok.injEq, Prod.mk.injEq] at h
      exact .inr (.inl ⟨h.1.symm, h.2.symm, by simp⟩)

theorem target_allowed {w : DeliveryWorker} {webhook : OutboundWebhook} {result : AttemptResult}
    {f : ℚ} {status : DeliveryStatus} {delay : Option ℚ}
    (h : target w webhook result f = .ok (status, delay)) :
    status ∈ DeliveryStatus.inProgress.allowedTransitions := by
  rcases target_cases h with ⟨rfl, -⟩ | ⟨rfl, -⟩ | ⟨rfl, -⟩ <;> decide

theorem settle_ledger {w : DeliveryWorker} {webhook : OutboundWebhook} {result : AttemptResult}
    {f : ℚ} {status : DeliveryStatus} {delay : Option ℚ}
    (ht : target w webhook result f = .ok (status, delay))
    (hd : d ∈ ownedDeliveries w webhook db) (ha : a ∈ claimedAttempts webhook db) (now : Time)
    (h : Ledger d (db.attemptsAt d.id)) :
    Ledger (settled d result status (delay.map (now + ·)) now)
      (closeAttempt (some (completed a result (delay.map (now + ·)) now)) (db.attemptsAt d.id)) := by
  obtain ⟨-, hid, hs, -, -⟩ := mem_ownedDeliveries.mp hd
  obtain ⟨hm, -, hda, -, -, hp⟩ := mem_claimedAttempts.mp ha
  have hmem : a ∈ db.attemptsAt d.id := Db.mem_attemptsAt.mpr ⟨hm, hda.trans hid.symm⟩
  refine h.settle hs hmem hp (attemptsAt_ids hm) ⟨rfl, rfl, rfl, rfl⟩ (by simp [completed])
    (lifecycleFields_completed _ _ _ _) ?_ rfl ⟨rfl, rfl, rfl⟩ ?_ ?_ ?_
  · rcases target_cases ht with ⟨rfl, -⟩ | ⟨rfl, -⟩ | ⟨rfl, -⟩ <;> simp [settled]
  · rcases target_cases ht with ⟨rfl, -⟩ | ⟨rfl, -⟩ | ⟨rfl, hdelay, -⟩
    · simp [settled]
    · simp [settled]
    · simpa [settled] using hdelay
  · rcases target_cases ht with ⟨rfl, -, hr⟩ | ⟨rfl, -, hr⟩ | ⟨rfl, -, hr, -⟩ <;>
      simp [settled, completed, hr]
  · intro hst
    simp only [settled] at hst ⊢
    simp [hst]

end Moves

end EventHarbor
