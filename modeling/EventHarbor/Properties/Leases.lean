import EventHarbor.Properties.Ledger

/-!
# Leases fence late results

A webhook can be finalized while the lease of its claim stands. The lease ends
with the first accepted result and with the next claim that answers with its
delivery, whichever comes first, and it cannot be taken before it expires.
-/

namespace EventHarbor

open Relational Txn DeliveryWorker EventService ReplayService

/-- A result for the webhook that was recorded. -/
def accepts (webhook : OutboundWebhook) : Request × Response → Bool
  | (.finalize _ w _ _, .finalized true) => w = webhook
  | _ => false

/-- A claim that answered with the delivery. -/
def takes (deliveryId : UUID) : Request × Response → Bool
  | (.claimOne _ _, .claimed (some c)) => c.deliveryId = deliveryId
  | _ => false

/-- The lease that a claim has made. -/
def Owns (w : DeliveryWorker) (draw : ClaimDraw) (webhook : OutboundWebhook) (db : Db) : Prop :=
  ∃ d ∈ ownedDeliveries w webhook db, d.attemptCount = webhook.attemptNumber ∧
    d.leaseExpiresAt = some (draw.now + w.settings.workerLeaseSeconds)

/-- No worker holds the lease of the webhook. -/
def Lapsed (webhook : OutboundWebhook) (db : Db) : Prop := ∀ w d, d ∉ ownedDeliveries w webhook db

section Leases

variable {lib : Lib} {L : List Lock} {db db' : Db} {r : Request} {a : Response}
  {w w' : DeliveryWorker} {draw : ClaimDraw} {webhook : OutboundWebhook}
  {h : List (Request × Response)} {x : Request × Response}

/-- A claim makes the lease of its webhook. -/
theorem Step.owns (hstep : Step lib False L db (.claimOne w draw) (.claimed (some (.webhook webhook))) db') :
    Owns w draw webhook db' := by
  cases hstep with
  | @claim _ _ _ ep d d' closed opened hd hL hdue hep hepid hc hvalid hclose hopen =>
    have hmem := (mem_move_deliveries (hc.moves hd)).mpr (.inr rfl)
    cases hc with
    | lease hev hm hs he hr =>
      exact ⟨_, mem_ownedDeliveries.mpr ⟨hmem, rfl, rfl, rfl, rfl⟩, rfl, rfl⟩
    | relet hev hm hs ha he hr =>
      exact ⟨_, mem_ownedDeliveries.mpr ⟨hmem, rfl, rfl, rfl, rfl⟩, rfl, rfl⟩

/-- A claim draws a token that its delivery has not seen. -/
theorem Step.token_fresh (hstep : Step lib False L db r (.claimed (some (.webhook webhook))) db')
    {b : DeliveryAttempt} (hb : b ∈ db.attempts) (hd : b.deliveryId = webhook.deliveryId) :
    b.leaseToken ≠ webhook.leaseToken := by
  cases hstep with
  | claim hx hL hdue hep hepid hc hvalid hclose hopen =>
    cases hc with
    | lease => exact (hopen _ rfl).token b (Db.mem_attemptsAt.mpr ⟨hb, hd⟩)
    | relet => exact (hopen _ rfl).token b (Db.mem_attemptsAt.mpr ⟨hb, hd⟩)

/-- Tokens tell the webhooks of a delivery apart. -/
theorem trace_issued_unique (ht : (contract lib False).Trace [] Db.empty h db)
    {v v' : OutboundWebhook} (hv : v ∈ issued h) (hv' : v' ∈ issued h)
    (hd : v.deliveryId = v'.deliveryId) (htoken : v.leaseToken = v'.leaseToken) : v = v' := by
  induction ht with
  | nil => cases hv
  | @snoc h db r a L db' ht ha hinv hstep ih =>
    -- A webhook issued now has a token that no earlier one has.
    have hnew : ∀ u ∈ issued h, ∀ u' ∈ issued [(r, a)], u.deliveryId = u'.deliveryId →
        u.leaseToken ≠ u'.leaseToken := by
      intro u hu u' hu' hdel
      obtain ⟨b, hb, -, hbd, -, hbt⟩ := trace_issued not_false ht hu
      have hfresh := Step.token_fresh (mem_issued_singleton.mp hu' ▸ hstep) hb (hbd.trans hdel)
      rwa [hbt] at hfresh
    rw [issued_append, List.mem_append] at hv hv'
    rcases hv with hv | hv <;> rcases hv' with hv' | hv'
    · exact ih hv hv'
    · exact absurd htoken (hnew v hv v' hv' hd)
    · exact absurd htoken.symm (hnew v' hv' v hv hd.symm)
    · rw [mem_issued_singleton] at hv hv'
      rw [hv] at hv'
      cases hv'
      rfl

/-! ## When a lease ends -/

theorem Claimed.deliveryId {ep : Endpoint} {c : Claim} {d d' : Delivery}
    {closed opened : Option DeliveryAttempt}
    (hc : Claimed False w draw db ep d c d' closed opened) : c.deliveryId = d.id := by
  cases hc <;> rfl

/-- A commit that neither records a result for the webhook nor answers with its
delivery keeps the lease. -/
theorem Step.keeps (hstep : Step lib False L db x.1 x.2 db') (hown : Owns w draw webhook db)
    (hissued : ∀ w' v result draw', x.1 = .finalize w' v result draw' →
      v.deliveryId = webhook.deliveryId → v.leaseToken = webhook.leaseToken → v = webhook)
    (ha : accepts webhook x = false) (ht : takes webhook.deliveryId x = false) :
    Owns w draw webhook db' := by
  obtain ⟨d, hd, hcount, hexp⟩ := hown
  obtain ⟨hm, hid, hs, ho, htok⟩ := mem_ownedDeliveries.mp hd
  refine ⟨d, mem_ownedDeliveries.mpr ⟨?_, hid, hs, ho, htok⟩, hcount, hexp⟩
  obtain ⟨r, a⟩ := x
  cases hstep with
  | accept => exact Table.mem_insert_of_mem hm
  | supersede => exact Table.mem_insert_of_mem hm
  | @claim v draw' c ep e e' closed opened he hL hdue hep hepid hc hvalid hclose hopen =>
    refine (mem_move_deliveries (hc.moves he)).mpr (.inl ⟨hm, ?_⟩)
    rintro rfl
    have htaken : takes webhook.deliveryId (.claimOne v draw', .claimed (some c)) = true :=
      decide_eq_true (hc.deliveryId.trans hid)
    rw [htaken] at ht
    cases ht
  | @settle v u result draw' status delay e b htarget he hcnt hb hL hvalid hclose =>
    refine (mem_move_deliveries (settle_moves he hb _ _ _ _)).mpr (.inl ⟨hm, ?_⟩)
    rintro rfl
    obtain ⟨-, hid', -, -, htok'⟩ := mem_ownedDeliveries.mp he
    have hu : u = webhook := hissued v u result draw' rfl (hid'.symm.trans hid)
      (Option.some.inj (htok'.symm.trans htok))
    have haccepted : accepts webhook (.finalize v u result draw', .finalized true) = true :=
      decide_eq_true hu
    rw [haccepted] at ha
    cases ha
  | purge hc hL hids hend => exact hc.elim
  | _ => exact hm

/-- What no worker holds stays so. -/
theorem Lapsed.step (hlapsed : Lapsed webhook db) (hi : Issued webhook db)
    (hstep : Step lib False L db r a db') : Lapsed webhook db' :=
  fun v d hd => hlapsed v d (hstep.owned hi hd)

/-- A recorded result and a claim that answers with the delivery end the lease. -/
theorem Step.lapses (hstep : Step lib False L db x.1 x.2 db') (hi : Issued webhook db)
    (hx : accepts webhook x = true ∨ takes webhook.deliveryId x = true) : Lapsed webhook db' := by
  intro v d hd
  obtain ⟨hold, hid, -⟩ := mem_ownedDeliveries.mp (hstep.owned hi hd)
  obtain ⟨hm, -, hs, -⟩ := mem_ownedDeliveries.mp hd
  obtain ⟨r, a⟩ := x
  cases hstep with
  | @claim w' draw' c ep e e' closed opened he hL hdue hep hepid hc hvalid hclose hopen =>
    have hde : d = e := by
      refine Table.eq_of_key hold he (hid.trans ?_)
      rcases hx with hx | hx
      · cases hx
      · exact (of_decide_eq_true hx).symm.trans hc.deliveryId
    subst hde
    rcases (mem_move_deliveries (hc.moves he)).mp hm with ⟨-, hne⟩ | heq
    · exact hne rfl
    · cases hc with
      | lease => exact absurd (congrArg Delivery.attemptCount heq) (Nat.lt_succ_self _).ne
      | relet => exact absurd (congrArg Delivery.attemptCount heq) (Nat.lt_succ_self _).ne
      | expire =>
        rw [heq] at hs
        cases hs
      | drop =>
        rw [heq] at hs
        cases hs
  | @settle w' u result draw' status delay e b htarget he hcnt hb hL hvalid hclose =>
    obtain ⟨hem, hide, -⟩ := mem_ownedDeliveries.mp he
    have hu : u = webhook := by
      rcases hx with hx | hx
      · exact of_decide_eq_true hx
      · cases hx
    have hde : d = e := Table.eq_of_key hold hem (hid.trans (hu ▸ hide.symm))
    rcases (mem_move_deliveries (settle_moves he hb _ _ _ _)).mp hm with ⟨-, hne⟩ | heq
    · exact hne hde
    · rw [heq] at hs
      rcases target_cases htarget with ⟨rfl, -⟩ | ⟨rfl, -⟩ | ⟨rfl, -⟩ <;> cases hs
  | _ => rcases hx with hx | hx <;> cases hx

/-- The lease of a claim stands until the first commit that ends it. -/
theorem trace_lease (ht : (contract lib False).Trace [] Db.empty h db)
    {pre mid : List (Request × Response)}
    (hh : h = pre ++ (.claimOne w draw, .claimed (some (.webhook webhook))) :: mid) :
    ((∀ x ∈ mid, accepts webhook x = false ∧ takes webhook.deliveryId x = false) →
      Owns w draw webhook db) ∧
    ((∃ x ∈ mid, accepts webhook x = true ∨ takes webhook.deliveryId x = true) →
      Lapsed webhook db) := by
  induction ht generalizing mid with
  | nil => simp at hh
  | @snoc h db r a L db' ht hadmitted hinv hstep ih =>
    rcases List.eq_nil_or_concat mid with rfl | ⟨mid', y, rfl⟩
    · obtain ⟨rfl, hx⟩ := List.append_inj' hh rfl
      obtain ⟨rfl, rfl⟩ := Prod.mk.inj (List.singleton_inj.mp hx)
      exact ⟨fun _ => Step.owns hstep, by simp⟩
    · rw [List.concat_eq_append, ← List.cons_append, ← List.append_assoc] at hh
      obtain ⟨hpre, hy⟩ := List.append_inj' hh rfl
      obtain rfl := List.singleton_inj.mp hy
      obtain ⟨howns, hlapsed⟩ := ih hpre
      have hmem : webhook ∈ issued h := by
        rw [hpre, issued_append, List.mem_append]
        exact .inr List.mem_cons_self
      have hi := trace_issued not_false ht hmem
      rw [List.concat_eq_append]
      constructor
      · intro hnone
        obtain ⟨hacc, htake⟩ := hnone (r, a) (by simp)
        refine Step.keeps (x := (r, a)) hstep
          (howns fun x hx => hnone x (List.mem_append_left _ hx)) ?_ hacc htake
        rintro w' v result draw' rfl hd htok
        exact trace_issued_unique ht (hadmitted.resolve_left id) hmem hd htok
      · rintro ⟨x, hx, hends⟩
        rcases List.mem_append.mp hx with hx | hx
        · exact (hlapsed ⟨x, hx, hends⟩).step hi hstep
        · rw [List.mem_singleton.mp hx] at hends
          exact Step.lapses (x := (r, a)) hstep hi hends

/-- At most one result is recorded, and then the lease is gone. -/
theorem trace_accepts (ht : (contract lib False).Trace [] Db.empty h db) :
    h.countP (accepts webhook) ≤ 1 ∧
      (0 < h.countP (accepts webhook) → Issued webhook db ∧ Lapsed webhook db) := by
  induction ht with
  | nil => simp
  | @snoc h db r a L db' ht hadmitted hinv hstep ih =>
    obtain ⟨hle, hlapsed⟩ := ih
    rw [List.countP_append, List.countP_singleton]
    have hpersist := hstep.effect.persist fun hc => hc.elim
    split
    · rename_i hacc
      have hi : Issued webhook db := by
        cases hstep with
        | settle =>
          obtain rfl := of_decide_eq_true hacc
          exact trace_issued not_false ht (hadmitted.resolve_left id)
        | _ => cases hacc
      have hzero : h.countP (accepts webhook) = 0 := by
        by_contra hne
        have hnone := (hlapsed (Nat.pos_of_ne_zero hne)).2
        cases hstep with
        | settle htarget hd =>
          obtain rfl := of_decide_eq_true hacc
          exact hnone _ _ hd
        | _ => cases hacc
      refine ⟨by omega, fun _ => ⟨hi.persist hpersist, ?_⟩⟩
      exact Step.lapses (x := (r, a)) hstep hi (.inl hacc)
    · refine ⟨hle, fun hpos => ?_⟩
      obtain ⟨hi, hl⟩ := hlapsed (by omega)
      exact ⟨hi.persist hpersist, hl.step hi hstep⟩

/-! ## Live leases -/

variable {ls ls' : List Shown} {s s' : System}
  {c : Session ℕ Request Db Write Lock (List UUID) Error Response}

/-- Ordinary operation while the transaction `t` stays open. -/
def Pending (t : ℕ) (ls : List Shown) (s : System) (m : Shown) (s' : System) : Prop :=
  Ordinary ls s m s' ∧ (m.by = t → m.Statement t)

instance (t : ℕ) (ls : List Shown) (s : System) (m : Shown) (s' : System) :
    Decidable (Pending t ls s m s') :=
  inferInstanceAs (Decidable (Ordinary ls s m s' ∧ (m.by = t → m.Statement t)))

/-- A delivery that an open transaction has locked stays as it is. -/
theorem locked_kept (hr : Reaches lib ls s) (hc : c ∈ s.sessions) {i : UUID}
    (hL : Lock.delivery i .update ∈ c.held)
    (hrun : Sys.Run (Request.code lib) (Pending c.id) ls s ls' s') :
    ∀ d ∈ s.db.deliveries, d.id = i → d ∈ s'.db.deliveries := by
  induction hrun with
  | nil => exact fun d hd _ => hd
  | @snoc ls₁ s₁ y m s₂ hrun hact hp ih =>
    have hr₁ : Reaches lib ls₁ s₁ := hr.trans (hrun.mono fun hp => hp.1)
    rcases (reaches_meets hr₁ hact hp.1).cases with ⟨-, hdb⟩ | ⟨c₁, hc₁, a, rfl, hstep⟩
    · exact hdb ▸ ih
    · obtain ⟨c', hc', hid, -, hheld⟩ := hrun.session hc fun hp => hp.2
      have hne : c'.id ≠ c₁.id := fun heq => hp.2 (heq.symm.trans hid)
      have hfree : Lock.delivery i .update ∉ c₁.held :=
        not_mem_of_compatible ((reaches_sound hr₁).disjoint c' hc' c₁ hc₁ hne) (hheld hL)
          (by simp [Lock.conflict, RowLock.conflict])
      intro d hd hid
      exact (hstep.effect.delivery_kept hfree).1 d (ih d hd hid) hid

/-- A claim that answers with a delivery has seen its lease expired. -/
theorem Step.takes_expired (hstep : Step lib False L db x.1 x.2 db') {d : Delivery}
    (hd : d ∈ db.deliveries) (hs : d.status = .inProgress) {expiry : Time}
    (hexp : d.leaseExpiresAt = some expiry) (hx : takes d.id x = true) :
    ∃ w draw, x.1 = .claimOne w draw ∧ (expiry ≤ draw.clock d.id ∨ expiry ≤ draw.reclock d.id) := by
  obtain ⟨r, a⟩ := x
  cases hstep with
  | @claim v draw' k ep e e' closed opened he hL hdue hep hepid hc hvalid hclose hopen =>
    have hde : e = d := Table.eq_of_key he hd (hc.deliveryId.symm.trans (of_decide_eq_true hx))
    subst hde
    refine ⟨v, draw', rfl, ?_⟩
    simpa [claimable, hs, hexp, due] using hdue
  | _ => cases hx

/-- While no clock reading reaches the expiry, no claim takes the delivery. -/
theorem trace_untaken (ht : (contract lib False).Trace [] Db.empty h db)
    {pre mid : List (Request × Response)} {now : Time}
    (hh : h = pre ++ (.claimOne w draw, .claimed (some (.webhook webhook))) :: mid)
    (hnow : now < draw.now + w.settings.workerLeaseSeconds)
    (hclock : ∀ v draw' b, (Request.claimOne v draw', b) ∈ mid →
      draw'.clock webhook.deliveryId ≤ now ∧ draw'.reclock webhook.deliveryId ≤ now)
    (hnone : ∀ x ∈ mid, accepts webhook x = false) :
    ∀ x ∈ mid, takes webhook.deliveryId x = false := by
  induction ht generalizing mid with
  | nil => simp at hh
  | @snoc h db r a L db' ht hadmitted hinv hstep ih =>
    rcases List.eq_nil_or_concat mid with rfl | ⟨mid', y, rfl⟩
    · simp
    · rw [List.concat_eq_append] at hclock hnone ⊢
      rw [List.concat_eq_append, ← List.cons_append, ← List.append_assoc] at hh
      obtain ⟨hpre, hy⟩ := List.append_inj' hh rfl
      obtain rfl := List.singleton_inj.mp hy
      have huntaken := ih hpre (fun v draw' b hm => hclock v draw' b (List.mem_append_left _ hm))
        fun x hx => hnone x (List.mem_append_left _ hx)
      obtain ⟨d, hd, -, hexp⟩ := (trace_lease ht hpre).1 fun x hx =>
        ⟨hnone x (List.mem_append_left _ hx), huntaken x hx⟩
      obtain ⟨hm, hid, hs, -⟩ := mem_ownedDeliveries.mp hd
      intro x hx
      rcases List.mem_append.mp hx with hx | hx
      · exact huntaken x hx
      · rw [List.mem_singleton.mp hx, ← hid]
        by_contra htaken
        obtain ⟨v, draw', rfl, hlate⟩ := Step.takes_expired (x := (r, a)) hstep hm hs hexp
          (Bool.eq_true_of_not_eq_false htaken)
        have hread := hclock v draw' a (by simp)
        rw [hid] at hlate
        rcases hlate with hlate | hlate
        · exact absurd (hlate.trans hread.1) (not_le.mpr hnow)
        · exact absurd (hlate.trans hread.2) (not_le.mpr hnow)

/-- What a lease promises: results are recorded at most once, by its owner
until the lease ends, and a live lease is not taken away. -/
theorem lease_fencing (hr : Reaches lib ls s) :
    (∀ webhook, (history ls).countP (accepts webhook) ≤ 1) ∧
    (∀ pre mid post w draw webhook w' result draw' ok,
      history ls = pre ++ (.claimOne w draw, .claimed (some (.webhook webhook))) :: (mid ++
        (.finalize w' webhook result draw', .finalized ok) :: post) →
      w'.workerId = w.workerId →
      (ok = true ↔ (∀ x ∈ mid, accepts webhook x = false) ∧
        ∀ x ∈ mid, takes webhook.deliveryId x = false)) ∧
    (∀ x t w webhook result draw s',
      s.act (Request.code lib) x =
        some (.commit t (.finalize w webhook result draw) (.finalized false), s') →
      s'.db = s.db) ∧
    (∀ c ∈ s.sessions, ∀ w' webhook result draw' pre mid w draw now,
      c.req = .finalize w' webhook result draw' →
      history ls = pre ++ (.claimOne w draw, .claimed (some (.webhook webhook))) :: mid →
      w'.workerId = w.workerId →
      Lock.delivery webhook.deliveryId .update ∈ c.held →
      (∀ x ∈ mid, accepts webhook x = false) →
      now < draw.now + w.settings.workerLeaseSeconds →
      (∀ v draw₁ a, (Request.claimOne v draw₁, a) ∈ mid →
        draw₁.clock webhook.deliveryId ≤ now ∧ draw₁.reclock webhook.deliveryId ≤ now) →
      ∀ ls' s' x s'', Sys.Run (Request.code lib) (Pending c.id) ls s ls' s' →
        (∀ r a, s'.act (Request.code lib) x = some (.commit c.id r a, s'') →
          a = .finalized true) ∧
        (∀ r e, s'.act (Request.code lib) x = some (.fail c.id r e, s'') →
          ¬(result.storable = true ∧ FinalizeDraw.Fair draw'))) := by
  have ht := (reaches_sound hr).trace
  refine ⟨fun webhook => (trace_accepts ht).1, ?_, ?_, ?_⟩
  · intro pre mid post w draw webhook w' result draw' ok hh hid
    have howner : w'.owner = w.owner := by
      rw [DeliveryWorker.owner, DeliveryWorker.owner, hid]
    rw [hh, ← List.cons_append, ← List.append_assoc] at ht
    obtain ⟨db₁, L, db₂, ht₁, -, -, hstep⟩ := ht.commit_at
    obtain ⟨howns, hlapsed⟩ := trace_lease ht₁ rfl
    have hends : ok = true → ¬∃ x ∈ mid, accepts webhook x = true ∨
        takes webhook.deliveryId x = true := by
      rintro rfl hx
      cases hstep with
      | settle htarget hd => exact hlapsed hx _ _ hd
    constructor
    · intro hok
      have hnone := hends hok
      exact ⟨fun x hx => Bool.eq_false_of_not_eq_true fun h => hnone ⟨x, hx, .inl h⟩,
        fun x hx => Bool.eq_false_of_not_eq_true fun h => hnone ⟨x, hx, .inr h⟩⟩
    · rintro ⟨hacc, htake⟩
      obtain ⟨d, hd, hcount, -⟩ := howns fun x hx => ⟨hacc x hx, htake x hx⟩
      cases ok with
      | true => rfl
      | false =>
        cases hstep with
        | stale hstale =>
          refine absurd hcount (hstale not_false d ?_)
          rw [mem_ownedDeliveries] at hd ⊢
          rw [howner]
          exact hd
  · intro x t w webhook result draw s' hx
    obtain ⟨c, hc, -, hreq, hstep⟩ := reaches_meets hr hx trivial
    generalize s'.db = db' at hstep ⊢
    cases hstep
    rfl
  · intro c hc w' webhook result draw' pre mid w draw now hreq hh hid hL hnone hnow hclock ls' s' x
      s'' hrun
    have howner : w'.owner = w.owner := by
      rw [DeliveryWorker.owner, DeliveryWorker.owner, hid]
    have hr' : Reaches lib ls' s' := hr.trans (hrun.mono fun hp => hp.1)
    obtain ⟨c', hc', hid', hreq', -⟩ := hrun.session hc fun hp => hp.2
    have huntaken := trace_untaken ht hh hnow hclock hnone
    obtain ⟨d, hd, hcount, -⟩ := (trace_lease ht hh).1 fun x hx => ⟨hnone x hx, huntaken x hx⟩
    obtain ⟨hm, hdid, hs, ho, htok⟩ := mem_ownedDeliveries.mp hd
    have hkept : d ∈ ownedDeliveries w' webhook s'.db :=
      mem_ownedDeliveries.mpr ⟨locked_kept hr hc hL hrun d hm hdid, hdid, hs, howner ▸ ho, htok⟩
    rw [← hid']
    refine ⟨fun r a hx => ?_, fun r e hx => ?_⟩
    · obtain ⟨-, hstep⟩ := reaches_commit hr' hc' hx
      rw [hreq', hreq] at hstep
      generalize s''.db = db' at hstep
      cases hstep with
      | stale hstale => exact absurd hcount (hstale not_false d hkept)
      | settle => rfl
    · obtain ⟨-, -, hraises⟩ := reaches_fail hr' hc' hx
      rw [hreq', hreq] at hraises
      exact hraises.2

end Leases

namespace Sample

/-- The lease that a commit has made. -/
def leaseOf : Request × Response → Option (DeliveryWorker × ClaimDraw × OutboundWebhook)
  | (.claimOne w draw, .claimed (some (.webhook webhook))) => some (w, draw, webhook)
  | _ => none

theorem leaseOf_eq {x : Request × Response} {w : DeliveryWorker} {draw : ClaimDraw}
    {webhook : OutboundWebhook} (h : leaseOf x = some (w, draw, webhook)) :
    x = (.claimOne w draw, .claimed (some (.webhook webhook))) := by
  unfold leaseOf at h
  split at h
  · cases h
    rfl
  · cases h

/-- The transaction reports a result of worker "a" for the webhook and has
locked the webhook's delivery. -/
def reports (webhook : OutboundWebhook)
    (c : Session ℕ Request Db Write Lock (List UUID) Error Response) : Bool :=
  match c.req with
  | .finalize w v _ _ => w.workerId = "a" && v = webhook &&
      decide (Lock.delivery webhook.deliveryId .update ∈ c.held)
  | _ => false

theorem reports_eq {webhook : OutboundWebhook}
    {c : Session ℕ Request Db Write Lock (List UUID) Error Response}
    (h : reports webhook c = true) : ∃ w result draw, c.req = .finalize w webhook result draw ∧
      w.workerId = "a" ∧ Lock.delivery webhook.deliveryId .update ∈ c.held := by
  unfold reports at h
  split at h
  · rename_i w v result draw hreq
    simp only [Bool.and_eq_true, decide_eq_true_eq] at h
    obtain ⟨⟨hw, rfl⟩, hL⟩ := h
    exact ⟨w, result, draw, hreq, hw, hL⟩
  · cases h

def report (now : Time) : Request := finalize "a" (webhook 5 4 1) (unreachable (epoch + 2)) now

def leased : List (Action ℕ Request) :=
  Sys.alone 0 register 2 ++ Sys.alone 1 (publish 2 3) 9 ++ Sys.alone 2 (claim "a" (epoch + 1) 4 5) 12

def commitsReport (q : List Shown × System) : Bool :=
  match q.2.act (Request.code lib) (.next 3) with
  | some (.commit 3 _ _, _) => true
  | _ => false

/-- A report that has its lock commits while the lease is live. -/
def reportsInTime (p : List Shown × System) : Bool :=
  match (history p.1).getLast?.bind leaseOf, p.2.sessions.get? 3 with
  | some (w, draw, v), some c =>
    decide (w.workerId = "a") && decide (v = webhook 5 4 1) &&
    decide (epoch + 5 < draw.now + w.settings.workerLeaseSeconds) &&
    reports (webhook 5 4 1) c &&
    (Sys.play (Request.code lib) (Pending 3) p.1 p.2 (List.replicate 8 (.next 3))).any commitsReport
  | _, _ => false

def claimedBy (now : Time) : Request × Response → Bool
  | (.claimOne _ d, _) => decide (d.clock 3 ≤ now) && decide (d.reclock 3 ≤ now)
  | _ => true

/-- A second report that has its lock is refused while the lease would be live. -/
def refusedInTime (p : List Shown × System) : Bool :=
  match (history p.1).findSome? leaseOf, p.2.sessions.get? 4,
    p.2.act (Request.code lib) (.next 4) with
  | some (w, draw, v), some c, some (.commit 4 _ (.finalized false), _) =>
    decide (w.workerId = "a") && decide (v = webhook 5 4 1) &&
    decide (epoch + 5 < draw.now + w.settings.workerLeaseSeconds) &&
    reports (webhook 5 4 1) c && (history p.1).all (claimedBy (epoch + 5))
  | _, _, _ => false

end Sample

/-- A result that arrives while its lease is live. -/
theorem lease_fencing_of_report : ∃ ls s c ls' s' r a s'', Reaches Sample.lib ls s ∧
    c ∈ s.sessions ∧ Lock.delivery 3 .update ∈ c.held ∧
    Sys.Run (Request.code Sample.lib) (Pending c.id) ls s ls' s' ∧
    s'.act (Request.code Sample.lib) (.next c.id) = some (.commit c.id r a, s'') ∧
    a = .finalized true := by
  have hplay : (Sys.play (Request.code Sample.lib) Ordinary [] (.idle Db.empty)
      (Sample.leased ++ Sys.alone 3 (Sample.report (Sample.epoch + 4)) 2)).any
      Sample.reportsInTime = true := by decide +kernel
  obtain ⟨ls, s, hr, h⟩ := Sys.exists_run hplay
  unfold Sample.reportsInTime at h
  split at h
  · rename_i w draw v c hlease hsession
    simp only [Bool.and_eq_true, decide_eq_true_eq] at h
    obtain ⟨⟨⟨⟨hw, rfl⟩, hnow⟩, hreports⟩, hrun⟩ := h
    obtain ⟨ls', s', hrun, hlast⟩ := Sys.exists_run hrun
    unfold Sample.commitsReport at hlast
    split at hlast
    · rename_i r a s'' hact
      obtain ⟨x, hx, hlease⟩ := Option.bind_eq_some_iff.mp hlease
      obtain ⟨pre, hpre⟩ := List.getLast?_eq_some_iff.mp hx
      obtain ⟨hc, hid⟩ := Table.get?_eq_some.mp hsession
      obtain ⟨w', result, draw', hreq, hw', hL⟩ := Sample.reports_eq hreports
      rw [← hid] at hact hrun
      have hfence := (lease_fencing hr).2.2.2 c hc w' _ result draw' pre [] w draw
        (Sample.epoch + 5) hreq (by rw [hpre, Sample.leaseOf_eq hlease]) (hw'.trans hw.symm) hL
        (by simp) hnow (by simp) ls' s' (.next c.id) s'' hrun
      exact ⟨ls, s, c, ls', s', r, a, s'', hr, hc, hL, hrun, hact, hfence.1 r a hact⟩
    · cases hlast
  · cases h

/-- Two reports of one webhook: both find the delivery, the second waits for
the first, locks the delivery before the lease would have expired, and is
refused. -/
theorem live_lease_refused : ¬∀ ls s, Reaches Sample.lib ls s → ∀ c ∈ s.sessions,
    ∀ w' webhook result draw' w draw now, c.req = .finalize w' webhook result draw' →
      (Request.claimOne w draw, Response.claimed (some (.webhook webhook))) ∈ history ls →
      w'.workerId = w.workerId → Lock.delivery webhook.deliveryId .update ∈ c.held →
      now < draw.now + w.settings.workerLeaseSeconds →
      (∀ v draw₁ a, (Request.claimOne v draw₁, a) ∈ history ls →
        draw₁.clock webhook.deliveryId ≤ now ∧ draw₁.reclock webhook.deliveryId ≤ now) →
      ∀ x s' r a, s.act (Request.code Sample.lib) x = some (.commit c.id r a, s') →
        a = .finalized true := by
  have hplay : (Sys.play (Request.code Sample.lib) Ordinary [] (.idle Db.empty)
      (Sample.leased ++ Sys.alone 3 (Sample.report (Sample.epoch + 4)) 1 ++
        Sys.alone 4 (Sample.report (Sample.epoch + 4)) 1 ++ List.replicate 10 (.next 3) ++
        List.replicate 2 (.next 4))).any Sample.refusedInTime = true := by decide +kernel
  obtain ⟨ls, s, hr, h⟩ := Sys.exists_run hplay
  unfold Sample.refusedInTime at h
  split at h
  · rename_i w draw v c r s' hlease hsession hact
    simp only [Bool.and_eq_true, decide_eq_true_eq] at h
    obtain ⟨⟨⟨⟨hw, rfl⟩, hnow⟩, hreports⟩, hclock⟩ := h
    obtain ⟨x, hx, hlease⟩ := List.exists_of_findSome?_eq_some hlease
    obtain ⟨hc, hid⟩ := Table.get?_eq_some.mp hsession
    obtain ⟨w', result, draw', hreq, hw', hL⟩ := Sample.reports_eq hreports
    rw [← hid] at hact
    intro hall
    have := hall ls s hr c hc w' _ result draw' w draw (Sample.epoch + 5) hreq
      (Sample.leaseOf_eq hlease ▸ hx) (hw'.trans hw.symm) hL hnow (fun v draw₁ a hm => ?_) _ s' r _ hact
    · cases this
    · simpa [Sample.webhook, Sample.claimedBy] using List.all_eq_true.mp hclock _ hm
  · cases h

end EventHarbor
