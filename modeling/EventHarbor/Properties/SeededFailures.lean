import EventHarbor.Properties.Trial

/-!
# Workers against seeded failures

Against a run that fails a number of times first, a delivery with no more
attempts than that is never delivered. One with more attempts is, once it has
had its turns and while no lease expires.
-/

namespace EventHarbor

open Relational DeliveryWorker
open ReceiverLab (ReceiverState outcome payloadValidationError validateUnknown)

namespace Trial

variable {T : Trial} {calm : Prop} {j j' : Joint}

/-! ## Without expired leases -/

/-- How far a delivery is: it has been sent as often as it has been tried, but for
an attempt that is under way, and each completed attempt has its own answer. -/
structure Advances (T : Trial) (sent : ℕ) (as : List DeliveryAttempt) (d : Delivery) : Prop where
  alive : d.status ≠ .deadLettered
  waiting : d.status = .pending ∨ d.status = .retryWait → d.attemptCount ≤ T.failures
  count : d.attemptCount ≤ T.failures + 1
  delivered : d.status = .delivered → d.attemptCount = T.failures + 1
  sent : sent = d.attemptCount ∨ (d.status = .inProgress ∧ sent + 1 = d.attemptCount)
  attempts : ∀ a ∈ as, a.status = .inProgress ∨
    (a.status = .completed ∧ a.httpStatusCode = some (T.statusAt a.attemptNumber))

/-- The requests arrive in the order of the attempts. -/
structure Steady (T : Trial) (j : Joint) : Prop where
  sound : T.Sound True j
  order : j.sent.map (·.attemptNumber) = List.range' 1 j.sent.length
  rows : ∀ d ∈ j.system.db.deliveries, d.id = T.deliveryId →
    T.Advances j.sent.length (j.system.db.attemptsAt T.deliveryId) d

/-- A delivery that has not been tried. -/
theorem advances_new {d : Delivery} (hs : d.status = .pending) (hcount : d.attemptCount = 0) :
    T.Advances 0 [] d where
  alive := by simp [hs]
  waiting := fun _ => by omega
  count := by omega
  delivered := by simp [hs]
  sent := .inl hcount.symm
  attempts := by simp

theorem Starts.steady (h : T.Starts j) : T.Steady j where
  sound := h.sound
  order := by rw [h.sent]; rfl
  rows := by
    intro d hd hid
    obtain ⟨hs, hcount⟩ := h.unclaimed d hd hid
    rw [h.sent, h.unissued.2]
    exact advances_new hs hcount

/-- Nothing is sent for a delivery that is not there. -/
theorem Sound.absent (h : T.Sound calm j) (hfresh : j.system.db.deliveries.Fresh T.deliveryId) :
    j.sent = [] := by
  have hle := h.sent_le.1
  rw [((ReachesLimited.accounted h.reaches).known _ hfresh).1] at hle
  exact List.length_eq_zero_iff.mp (Nat.le_zero.mp hle)

/-- The number of a result's request is its place. -/
theorem Steady.place (h : T.Steady j) {k : ℕ} {w : OutboundWebhook} (hk : j.sent[k]? = some w) :
    w.attemptNumber = k + 1 := by
  have hnum : (j.sent.map (·.attemptNumber))[k]? = some w.attemptNumber := by
    rw [List.getElem?_map, hk]
    rfl
  obtain ⟨hlt, -⟩ := List.getElem?_eq_some_iff.mp hk
  rw [h.order, List.getElem?_range' hlt] at hnum
  have := Option.some.inj hnum
  omega

variable {d : Delivery} {as : List DeliveryAttempt} {n : ℕ}

/-- A claim of the delivery leases it. -/
theorem Advances.claim (h : T.Advances n (j.system.db.attemptsAt T.deliveryId) d)
    {w : DeliveryWorker} {draw : ClaimDraw} {c : Claim} {ep : Endpoint} {d' : Delivery}
    {closed opened : Option DeliveryAttempt} (hm : T.failures < T.maxAttempts)
    (hlimit : w.settings.workerMaxAttempts = T.maxAttempts)
    (hdue : claimable (draw.clock d.id) d = true ∨ claimable (draw.reclock d.id) d = true)
    (hclock : d.status = .inProgress → due d.leaseExpiresAt (draw.clock d.id) = false ∧
      due d.leaseExpiresAt (draw.reclock d.id) = false)
    (he : ep.enabled = true)
    (hc : Claimed False w draw j.system.db ep d c d' closed opened) :
    (d.status = .pending ∨ d.status = .retryWait) ∧ d' = w.leased d draw ∧ closed = none ∧
      opened = some (reserved (w.leased d draw) draw) := by
  have hlive : d.status ≠ .inProgress := by
    intro hs
    obtain ⟨h₁, h₂⟩ := hclock hs
    rcases hdue with hdue | hdue
    · simp [claimable, hs, h₁] at hdue
    · simp [claimable, hs, h₂] at hdue
  cases hc with
  | lease hev hmem hs he hr => exact ⟨hs, rfl, rfl, rfl⟩
  | relet hev hmem hs ha he hr => exact absurd hs hlive
  | expire hs ha hx => exact absurd hs hlive
  | drop hs hx =>
    have hle := h.waiting hs
    have hremaining : w.retryPolicy.hasAttemptRemaining d.attemptCount = true :=
      decide_eq_true (show d.attemptCount < w.settings.workerMaxAttempts by omega)
    simp [unclaimableDueReason, he, hremaining] at hx

theorem Advances.leased (h : T.Advances n as d) (w : DeliveryWorker) (draw : ClaimDraw)
    (hs : d.status = .pending ∨ d.status = .retryWait) :
    T.Advances n (as ++ [reserved (w.leased d draw) draw]) (w.leased d draw) := by
  have hle := h.waiting hs
  have hsent : n = d.attemptCount := by
    rcases h.sent with hsent | ⟨hp, -⟩
    · exact hsent
    · rcases hs with hs | hs <;> rw [hs] at hp <;> cases hp
  refine ⟨nofun, ?_, ?_, nofun, .inr ⟨rfl, ?_⟩, ?_⟩
  · rintro (hw | hw) <;> cases hw
  · exact Nat.succ_le_succ hle
  · show n + 1 = d.attemptCount + 1
    omega
  · intro a ha
    rcases List.mem_append.mp ha with ha | ha
    · exact h.attempts a ha
    · rw [List.mem_singleton.mp ha]
      exact .inl rfl

/-- A retryable result is retried while an attempt remains. -/
theorem target_retry {w : DeliveryWorker} {webhook : OutboundWebhook} {result : AttemptResult}
    {f : ℚ} {status : DeliveryStatus} {delay : Option ℚ}
    (h : target w webhook result f = .ok (status, delay)) (hd : result.disposition = .retry)
    (hr : webhook.attemptNumber < w.settings.workerMaxAttempts) : status = .retryWait := by
  have hremaining : w.retryPolicy.hasAttemptRemaining webhook.attemptNumber = true :=
    decide_eq_true hr
  simp only [target, hd, hremaining, if_true] at h
  cases hx : w.retryPolicy.delaySeconds webhook.attemptNumber f with
  | error e =>
    rw [hx] at h
    cases h
  | ok x =>
    rw [hx] at h
    simp only [Except.ok.injEq, Prod.mk.injEq] at h
    exact h.1.symm

/-- The answer to the last request settles the delivery: another attempt after a
failure, the end after the first success. -/
theorem Advances.settle (h : T.Advances d.attemptCount as d) {w : DeliveryWorker}
    {webhook : OutboundWebhook} {result : AttemptResult} {f : ℚ} {status : DeliveryStatus}
    {delay : Option ℚ} {a : DeliveryAttempt} {as' : List DeliveryAttempt}
    (hm : T.failures < T.maxAttempts) (hlimit : w.settings.workerMaxAttempts = T.maxAttempts)
    (htarget : target w webhook result f = .ok (status, delay))
    (hcount : d.attemptCount = webhook.attemptNumber) (ha : a.attemptNumber = d.attemptCount)
    (hreported : T.Reported d.attemptCount result) (at' : Option Time) (now : Time)
    (has : ∀ x ∈ as', x ∈ as ∨ x = completed a result at' now) :
    T.Advances d.attemptCount as' (settled d result status at' now) ∧
      status = if d.attemptCount ≤ T.failures then .retryWait else .delivered := by
  have hle := h.count
  have hattempts : ∀ x ∈ as', x.status = .inProgress ∨
      (x.status = .completed ∧ x.httpStatusCode = some (T.statusAt x.attemptNumber)) := by
    intro x hx
    rcases has x hx with hx | rfl
    · exact h.attempts x hx
    · refine .inr ⟨rfl, ?_⟩
      show result.httpStatusCode = some (T.statusAt a.attemptNumber)
      rw [ha, hreported.status]
  have hdisp := hreported.disposition
  by_cases hfail : d.attemptCount ≤ T.failures
  · rw [if_pos hfail] at hdisp ⊢
    obtain rfl := target_retry htarget hdisp (by omega)
    exact ⟨⟨by simp [settled], fun _ => hfail, hle, by simp [settled], .inl rfl, hattempts⟩, rfl⟩
  · rw [if_neg hfail] at hdisp ⊢
    have hstatus : status = .delivered := by
      simp only [target, hdisp, Except.ok.injEq, Prod.mk.injEq] at htarget
      exact htarget.1.symm
    subst hstatus
    refine ⟨⟨by simp [settled], ?_, hle, fun _ => ?_, .inl rfl, hattempts⟩, rfl⟩
    · rintro (hw | hw) <;> cases hw
    · show d.attemptCount = T.failures + 1
      omega

/-- A result that is recorded is the answer to the request of its number. -/
theorem Steady.reported (h : T.Steady j) {p : OutboundWebhook × AttemptResult}
    (hp : p ∈ j.results) : T.Reported p.1.attemptNumber p.2 ∧
      p.1.attemptNumber ≤ j.sent.length := by
  obtain ⟨k, hk, hreported, -⟩ := h.sound.results p hp
  obtain ⟨hlt, -⟩ := List.getElem?_eq_some_iff.mp hk
  rw [h.place hk]
  exact ⟨hreported, hlt⟩

/-- A commit keeps the delivery on its way. -/
theorem Steady.commit (h : T.Steady j) (hm : T.failures < T.maxAttempts)
    {c : Session ℕ Request Db Write Lock (List UUID) Error Response} (hc : c ∈ j.system.sessions)
    (hlimit : c.req.limitedTo T.maxAttempts = true) {a : Response} {db' : Db}
    (hcalm : T.Calm j (.commit c.id c.req a))
    (ht : Treats T.deliveryId j.system.db c.req a db') :
    ∀ d ∈ db'.deliveries, d.id = T.deliveryId →
      T.Advances j.sent.length (db'.attemptsAt T.deliveryId) d := by
  intro x hx hxid
  generalize hreq : c.req = r at ht hlimit hcalm
  cases ht with
  | quiet hrows hattempts hissued =>
    rw [hattempts]
    exact h.rows x ((hrows x hxid).mp hx) hxid
  | create hfresh hrows hs hcount hattempts hissued =>
    obtain rfl := (hrows x hxid).mp hx
    rw [h.sound.absent hfresh, hattempts,
      (reaches_inv (ReachesLimited.reaches h.sound.reaches)).attemptsAt_fresh hfresh]
    exact advances_new hs hcount
  | @claim w draw k ep d d' closed opened hd hid hdue hep hepid hk hfresh =>
    have hmoves := hk.moves hd
    obtain rfl : x = d' := by
      rcases (mem_move_deliveries hmoves).mp hx with ⟨hx, hne⟩ | hx
      · exact absurd (Table.eq_of_key hx hd (hxid.trans hid.symm)) hne
      · exact hx
    have hadv := h.rows d hd hid
    obtain ⟨hs, hleased, hclosed, hopened⟩ := hadv.claim hm (of_decide_eq_true hlimit) hdue
      (hcalm.2 d hd hid) (hcalm.1 d hd hid ep hep hepid) hk
    have hat := attemptsAt_move hmoves hfresh
    rw [hid, hleased, hclosed, hopened] at hat
    rw [hleased, hclosed, hopened, hat]
    exact hadv.leased w draw hs
  | @settle w webhook result draw status delay d b hid htarget hd hcount hb =>
    have hmoves := settle_moves hd hb result status (delay.map (draw.databaseNow + ·)) draw.databaseNow
    obtain ⟨hdm, hdid, hs, -⟩ := mem_ownedDeliveries.mp hd
    obtain ⟨-, -, -, hbn, -⟩ := mem_claimedAttempts.mp hb
    obtain rfl : x = settled d result status (delay.map (draw.databaseNow + ·)) draw.databaseNow := by
      rcases (mem_move_deliveries hmoves).mp hx with ⟨hx, hne⟩ | hx
      · exact absurd (Table.eq_of_key hx hdm (hxid.trans hid.symm)) hne
      · exact hx
    obtain ⟨hp, -⟩ := h.sound.reports c hc w webhook result draw hreq (hdid.symm.trans hid)
    obtain ⟨hreported, hle⟩ := h.reported hp
    have hadv := h.rows d hdm hid
    have hsent : j.sent.length = d.attemptCount := by
      rcases hadv.sent with hsent | ⟨-, hsent⟩
      · exact hsent
      · dsimp only at hle
        omega
    rw [hsent] at hadv ⊢
    refine (hadv.settle hm (of_decide_eq_true hlimit) htarget hcount (hbn.trans hcount.symm)
      (hcount ▸ hreported) _ _ fun y hy => ?_).1
    obtain ⟨hym, hyd⟩ := Db.mem_attemptsAt.mp hy
    rcases mem_move_attempts hmoves hym with hym | hy | hy
    · exact .inl (Db.mem_attemptsAt.mpr ⟨hym, hyd⟩)
    · exact .inr (Option.some.inj hy).symm
    · cases hy

/-- Every request that is open has the limit. -/
theorem Sound.limited (h : T.Sound calm j)
    {c : Session ℕ Request Db Write Lock (List UUID) Error Response} (hc : c ∈ j.system.sessions) :
    c.req.limitedTo T.maxAttempts = true :=
  (h.reaches.requests (Q := fun r => r.limitedTo T.maxAttempts = true) (fun hp => hp.2)
    (fun c hc => absurd hc (Table.not_mem_empty c)) (by simp)).1 c hc

/-- The webhook that is sent next is the one of the attempt under way. -/
theorem Steady.next (h : T.Steady j) {w : OutboundWebhook}
    (hw : w ∈ issued (history j.labels)) (hd : w.deliveryId = T.deliveryId) (hnew : w ∉ j.sent) :
    ∃ d ∈ j.system.db.deliveries, d.id = T.deliveryId ∧ d.status = .inProgress ∧
      j.sent.length + 1 = d.attemptCount ∧ w.attemptNumber = d.attemptCount := by
  have hacc := ReachesLimited.accounted h.sound.reaches
  have hmem : w.attemptNumber ∈ numbers T.deliveryId (history j.labels) :=
    List.mem_map_of_mem (List.mem_filter.mpr ⟨hw, decide_eq_true hd⟩)
  cases hg : j.system.db.deliveries.get? T.deliveryId with
  | none =>
    rw [(hacc.known _ (Table.get?_eq_none.mp hg)).1] at hmem
    cases hmem
  | some d =>
    obtain ⟨hdm, hid⟩ := Table.get?_eq_some.mp hg
    have hnumbers : numbers T.deliveryId (history j.labels) = List.range' 1 d.attemptCount :=
      hid ▸ hacc.numbered d hdm
    rw [hnumbers, List.mem_range'_1] at hmem
    -- The webhooks before it have been sent, and numbers tell webhooks apart.
    have hlater : j.sent.length < w.attemptNumber := by
      by_contra hle
      have hk : w.attemptNumber ∈ j.sent.map (·.attemptNumber) := by
        rw [h.order, List.mem_range'_1]
        omega
      obtain ⟨w', hw', hn⟩ := List.mem_map.mp hk
      obtain ⟨hissued', hd'⟩ := h.sound.sent w' hw'
      have hnodup : (((issued (history j.labels)).filter (·.deliveryId = T.deliveryId)).map
          (·.attemptNumber)).Nodup := by
        have hrange : (numbers T.deliveryId (history j.labels)).Nodup := by
          rw [hnumbers]
          exact List.nodup_range'
        exact hrange
      refine hnew (List.inj_on_of_nodup_map hnodup ?_ ?_ hn ▸ hw')
      · exact List.mem_filter.mpr ⟨hissued', decide_eq_true hd'⟩
      · exact List.mem_filter.mpr ⟨hw, decide_eq_true hd⟩
    refine ⟨d, hdm, hid, ?_⟩
    rcases (h.rows d hdm hid).sent with hsent | ⟨hs, hsent⟩
    · omega
    · exact ⟨hs, hsent, by omega⟩

theorem Steady.step (h : T.Steady j) (hm : T.failures < T.maxAttempts) (hstep : T.Step True j j') :
    T.Steady j' := by
  have hsound := h.sound.step hstep
  cases hstep with
  | @database x l s' hx hp hreport hcalm =>
    refine ⟨hsound, h.order, ?_⟩
    rcases (reaches_meets (ReachesLimited.reaches h.sound.reaches) hx hp.1).cases with
      ⟨-, hdb⟩ | ⟨c, hc, a, rfl, hcommit⟩
    · dsimp only
      rw [hdb]
      exact h.rows
    · exact h.commit hm hc (h.sound.limited hc) (hcalm trivial) (Step.treats hcommit _)
  | @send w v clock receivedAt signature result hw hd hnew hbody hsig hroute hresult hcalm =>
    obtain ⟨d, hdm, hid, hs, hlen, hnum⟩ := h.next hw hd hnew
    refine ⟨hsound, ?_, ?_⟩
    · rw [List.map_append, h.order, List.length_append, List.length_singleton,
        List.range'_1_concat, List.map_singleton, hnum, ← hlen, Nat.add_comm 1]
    · intro x hx hxid
      obtain rfl := Table.eq_of_key hx hdm (hxid.trans hid.symm)
      have hadv := h.rows x hx hxid
      refine ⟨hadv.alive, hadv.waiting, hadv.count, hadv.delivered, .inl ?_, hadv.attempts⟩
      rw [List.length_append, List.length_singleton]
      exact hlen
  | crash hw hd hnew hsig hroute hcalm => exact absurd trivial hcalm
  | receiver hop => exact ⟨hsound, h.order, h.rows⟩

theorem Steady.leads (h : T.Steady j) (hm : T.failures < T.maxAttempts) (hr : T.Leads True j j') :
    T.Steady j' := by
  induction hr with
  | refl => exact h
  | tail _ hstep ih => exact ih.step hm hstep

/-- The evidence of a delivery that recovered: as many failures as were seeded,
then the success. -/
structure Recovered (T : Trial) (d : Delivery) (as : List DeliveryAttempt) : Prop where
  delivered : d.status = .delivered
  count : d.attemptCount = T.failures + 1
  answers : ∀ a ∈ as, a.status = .completed ∧
    a.httpStatusCode = some (if a.attemptNumber ≤ T.failures then 503 else 200)
  failed : (as.filter (·.httpStatusCode = some 503)).map (·.attemptNumber) =
    List.range' 1 T.failures

theorem Steady.recovered (h : T.Steady j) (hd : d ∈ j.system.db.deliveries)
    (hid : d.id = T.deliveryId) (hs : d.status = .delivered) :
    T.Recovered d (j.system.db.attemptsAt T.deliveryId) := by
  have hadv := h.rows d hd hid
  have hledger := (reaches_inv (ReachesLimited.reaches h.sound.reaches)).ledger d hd
  have hcount := hadv.delivered hs
  rw [hid] at hledger
  have hanswers : ∀ a ∈ j.system.db.attemptsAt T.deliveryId, a.status = .completed ∧
      a.httpStatusCode = some (T.statusAt a.attemptNumber) := by
    intro a ha
    refine (hadv.attempts a ha).resolve_left (hledger.all_closed ?_ ha)
    rw [hs]
    nofun
  refine ⟨hs, hcount, hanswers, ?_⟩
  have hfilter : (j.system.db.attemptsAt T.deliveryId).filter (·.httpStatusCode = some 503) =
      (j.system.db.attemptsAt T.deliveryId).filter fun a => a.attemptNumber ≤ T.failures := by
    refine List.filter_congr fun a ha => ?_
    rw [(hanswers a ha).2]
    rcases T.statusAt_cases a.attemptNumber with ⟨hk, hst⟩ | ⟨hk, hst⟩
    · simp [hst, hk]
    · simp [hst, hk]
  have hnumbers := congrArg (List.filter fun k => decide (k ≤ T.failures)) hledger.numbered
  have hkept : (List.range' 1 T.failures).filter (fun k => decide (k ≤ T.failures)) =
      List.range' 1 T.failures := by
    refine List.filter_eq_self.mpr fun k hk => ?_
    rw [List.mem_range'_1] at hk
    exact decide_eq_true (by omega)
  have hlast : [1 + T.failures].filter (fun k => decide (k ≤ T.failures)) = [] :=
    List.filter_cons_of_neg (by simp)
  rw [hcount, List.range'_1_concat, List.filter_append, hkept, hlast, List.append_nil,
    List.filter_map] at hnumbers
  rw [hfilter]
  exact hnumbers

/-! ## Executions -/

/-- Claims and settlements move a delivery forward. -/
def progress (d : Delivery) : ℕ := 2 * d.attemptCount + if d.status = .inProgress then 0 else 1

theorem progress_leased (w : DeliveryWorker) (draw : ClaimDraw) (d : Delivery) :
    progress d < progress (w.leased d draw) := by
  have hafter : progress (w.leased d draw) = 2 * (d.attemptCount + 1) := rfl
  rw [progress, hafter]
  split_ifs <;> omega

theorem progress_settled {w : DeliveryWorker} {webhook : OutboundWebhook} {result : AttemptResult}
    {f : ℚ} {status : DeliveryStatus} {delay : Option ℚ} (hs : d.status = .inProgress)
    (htarget : target w webhook result f = .ok (status, delay)) (at' : Option Time) (now : Time) :
    progress d < progress (settled d result status at' now) := by
  have hne : status ≠ .inProgress := by
    rcases target_cases htarget with ⟨rfl, -⟩ | ⟨rfl, -⟩ | ⟨rfl, -⟩ <;> nofun
  have hafter : progress (settled d result status at' now) = 2 * d.attemptCount + 1 :=
    congrArg (2 * d.attemptCount + ·) (if_neg hne)
  rw [progress, if_pos hs, hafter]
  omega

/-- The execution shows a label at a time. -/
def Shows (σ : ℕ → Joint) (t : ℕ) (l : Shown) : Prop := (σ (t + 1)).labels = (σ t).labels ++ [l]

/-- The delivery gets its turn: it is published, a claim answers with it while it
waits, and the holder of its lease comes to the end of a finalization. -/
structure Fair (T : Trial) (σ : ℕ → Joint) : Prop where
  published : ∃ t, ∃ d ∈ (σ t).system.db.deliveries, d.id = T.deliveryId
  claimed : ∀ t, ∀ d ∈ (σ t).system.db.deliveries, d.id = T.deliveryId →
    d.status = .pending ∨ d.status = .retryWait → ∃ u k w draw c, t ≤ u ∧
      Shows σ u (.commit k (.claimOne w draw) (.claimed (some c))) ∧ c.deliveryId = T.deliveryId
  finalized : ∀ t, ∀ d ∈ (σ t).system.db.deliveries, d.id = T.deliveryId →
    d.status = .inProgress → ∃ u k v w result draw, t ≤ u ∧ w.deliveryId = T.deliveryId ∧
      d.leaseOwner = some v.owner ∧ d.leaseToken = some w.leaseToken ∧
      ((∃ a, Shows σ u (.commit k (.finalize v w result draw) a)) ∨
        ∃ e, Shows σ u (.fail k (.finalize v w result draw) e))

/-- A commit leaves the delivery or moves it forward. -/
theorem Steady.forward (h : T.Steady j) (hm : T.failures < T.maxAttempts)
    {c : Session ℕ Request Db Write Lock (List UUID) Error Response} (hc : c ∈ j.system.sessions)
    {a : Response} {db' : Db} (hcalm : T.Calm j (.commit c.id c.req a))
    (ht : Treats T.deliveryId j.system.db c.req a db') (hd : d ∈ j.system.db.deliveries)
    (hid : d.id = T.deliveryId) :
    ∃ d' ∈ db'.deliveries, d'.id = T.deliveryId ∧ (d' = d ∨ progress d < progress d') := by
  have hlimit := h.sound.limited hc
  generalize c.req = r at ht hlimit hcalm
  cases ht with
  | quiet hrows hattempts hissued => exact ⟨d, (hrows d hid).mpr hd, hid, .inl rfl⟩
  | create hfresh hrows hs hcount hattempts hissued => exact absurd hid (hfresh d hd)
  | @claim w draw k ep e d' closed opened he heid hdue hep hepid hk hfresh =>
    obtain rfl := Table.eq_of_key hd he (hid.trans heid.symm)
    have hmoves := hk.moves hd
    obtain ⟨hs, hleased, -, -⟩ := (h.rows d hd hid).claim hm (of_decide_eq_true hlimit) hdue
      (hcalm.2 d hd hid) (hcalm.1 d hd hid ep hep hepid) hk
    refine ⟨d', (mem_move_deliveries hmoves).mpr (.inr rfl), hmoves.same.id.trans hid, .inr ?_⟩
    exact hleased ▸ progress_leased w draw d
  | @settle w webhook result draw status delay e b heid htarget he hcount hb =>
    obtain ⟨hem, -, hs, -⟩ := mem_ownedDeliveries.mp he
    obtain rfl := Table.eq_of_key hd hem (hid.trans heid.symm)
    refine ⟨_, (mem_move_deliveries (settle_moves he hb _ _ _ _)).mpr (.inr rfl), hid, .inr ?_⟩
    exact progress_settled hs htarget _ _

/-- The row of the delivery stays or moves forward. -/
theorem Steady.row (h : T.Steady j) (hm : T.failures < T.maxAttempts) (hstep : T.Step True j j')
    (hd : d ∈ j.system.db.deliveries) (hid : d.id = T.deliveryId) :
    ∃ d' ∈ j'.system.db.deliveries, d'.id = T.deliveryId ∧ (d' = d ∨ progress d < progress d') := by
  cases hstep with
  | @database x l s' hx hp hreport hcalm =>
    rcases (reaches_meets (ReachesLimited.reaches h.sound.reaches) hx hp.1).cases with
      ⟨-, hdb⟩ | ⟨c, hc, a, rfl, hcommit⟩
    · exact ⟨d, hdb ▸ hd, hid, .inl rfl⟩
    · exact h.forward hm hc (hcalm trivial) (Step.treats hcommit _) hd hid
  | _ => exact ⟨d, hd, hid, .inl rfl⟩

/-- A step that shows a label is one of the database. -/
theorem Step.shown {l : Shown} (hstep : j' = j ∨ T.Step calm j j')
    (hl : j'.labels = j.labels ++ [l]) : ∃ x, j.system.act (Request.code T.lib) x =
      some (l, j'.system) ∧ Limited T.maxAttempts j.labels j.system l j'.system ∧
        (calm → T.Calm j l) := by
  have hne : j.labels ≠ j.labels ++ [l] := by simp
  rcases hstep with rfl | hstep
  · exact absurd hl hne
  · cases hstep with
    | @database x l' s' hx hp hreport hcalm =>
      obtain rfl : l' = l := by simpa using hl
      exact ⟨x, hx, hp, hcalm⟩
    | _ => exact absurd hl hne

/-- A claim that answers with the delivery moves it forward. -/
theorem Steady.claimed (h : T.Steady j) (hm : T.failures < T.maxAttempts)
    (hstep : j' = j ∨ T.Step True j j') {k : ℕ} {w : DeliveryWorker} {draw : ClaimDraw} {c : Claim}
    (hl : j'.labels = j.labels ++ [.commit k (.claimOne w draw) (.claimed (some c))])
    (hc : c.deliveryId = T.deliveryId) (hd : d ∈ j.system.db.deliveries)
    (hid : d.id = T.deliveryId) :
    ∃ d' ∈ j'.system.db.deliveries, d'.id = T.deliveryId ∧ progress d < progress d' := by
  obtain ⟨x, hx, hp, hcalm⟩ := Step.shown hstep hl
  obtain ⟨s, hs, rfl, hreq, hcommit⟩ :=
    reaches_meets (ReachesLimited.reaches h.sound.reaches) hx hp.1
  have hlimit := h.sound.limited hs
  rw [hreq] at hlimit
  generalize j'.system.db = db' at hcommit
  cases hcommit with
  | @claim _ _ _ ep e e' closed opened he hL hdue hep hepid hk hvalid hclose hopen =>
    obtain rfl := Table.eq_of_key hd he (hid.trans (hc.symm.trans hk.deliveryId))
    have hmoves := hk.moves hd
    obtain ⟨hs', rfl, -, -⟩ := (h.rows d hd hid).claim hm (of_decide_eq_true hlimit) hdue
      ((hcalm trivial).2 d hd hid) ((hcalm trivial).1 d hd hid ep (hep not_false) hepid) hk
    exact ⟨_, (mem_move_deliveries hmoves).mpr (.inr rfl), hid, progress_leased w draw d⟩

/-- The holder of the lease ends with its result recorded. -/
theorem Steady.finalized (h : T.Steady j) (hstep : j' = j ∨ T.Step True j j') {k : ℕ}
    {v : DeliveryWorker} {w : OutboundWebhook} {result : AttemptResult} {draw : FinalizeDraw}
    (hl : (∃ a, j'.labels = j.labels ++ [.commit k (.finalize v w result draw) a]) ∨
      ∃ e, j'.labels = j.labels ++ [.fail k (.finalize v w result draw) e])
    (hw : w.deliveryId = T.deliveryId) (hd : d ∈ j.system.db.deliveries)
    (hid : d.id = T.deliveryId) (hs : d.status = .inProgress) (howner : d.leaseOwner = some v.owner)
    (htoken : d.leaseToken = some w.leaseToken) :
    ∃ d' ∈ j'.system.db.deliveries, d'.id = T.deliveryId ∧ progress d < progress d' := by
  have hreaches := ReachesLimited.reaches h.sound.reaches
  have howned : d ∈ ownedDeliveries v w j.system.db :=
    mem_ownedDeliveries.mpr ⟨hd, hid.trans hw.symm, hs, howner, htoken⟩
  rcases hl with ⟨a, hl⟩ | ⟨e, hl⟩
  · obtain ⟨x, hx, hp, hcalm⟩ := Step.shown hstep hl
    obtain ⟨c, hc, rfl, hreq, hcommit⟩ := reaches_meets hreaches hx hp.1
    have hadmitted := (reaches_sound hreaches).admitted c hc
    rw [hreq] at hadmitted
    generalize j'.system.db = db' at hcommit
    cases hcommit with
    | stale hstale =>
      have hissued := trace_issued not_false (reaches_sound hreaches).trace (hadmitted.resolve_left id)
      obtain ⟨b, hb, hn⟩ := (reaches_inv hreaches).claimed_of_owned hissued howned
      exact absurd (hn.symm.trans (mem_claimedAttempts.mp hb).2.2.2.1) (hstale not_false d howned)
    | @settle _ _ _ _ status delay e b htarget he hcount hb hL hvalid hclose =>
      obtain ⟨hem, heid, -⟩ := mem_ownedDeliveries.mp he
      obtain rfl := Table.eq_of_key hd hem (hid.trans (hw.symm.trans heid.symm))
      exact ⟨_, (mem_move_deliveries (settle_moves he hb _ _ _ _)).mpr (.inr rfl), hid,
        progress_settled hs htarget _ _⟩
  · obtain ⟨x, hx, hp, hcalm⟩ := Step.shown hstep hl
    obtain ⟨-, c, hc, -, hreq, hfails⟩ := reaches_meets hreaches hx hp.1
    obtain ⟨hmem, hfair⟩ := h.sound.reports c hc v w result draw hreq hw
    obtain ⟨-, -, -, hstore⟩ := h.sound.results _ hmem
    exact absurd ⟨hstore trivial, hfair trivial⟩ (hfails not_false).2

section Executions

variable {σ : ℕ → Joint} {t u : ℕ}

theorem steady_at (hstart : T.Starts (σ 0)) (hm : T.failures < T.maxAttempts)
    (hstep : ∀ t, σ (t + 1) = σ t ∨ T.Step True (σ t) (σ (t + 1))) (t : ℕ) : T.Steady (σ t) := by
  induction t with
  | zero => exact hstart.steady
  | succ t ih =>
    rcases hstep t with heq | hstep
    · exact heq ▸ ih
    · exact ih.step hm hstep

/-- The row of the delivery at a later time. -/
theorem row_at (hsteady : ∀ t, T.Steady (σ t)) (hm : T.failures < T.maxAttempts)
    (hstep : ∀ t, σ (t + 1) = σ t ∨ T.Step True (σ t) (σ (t + 1))) (htu : t ≤ u)
    (hd : d ∈ (σ t).system.db.deliveries) (hid : d.id = T.deliveryId) :
    ∃ d' ∈ (σ u).system.db.deliveries, d'.id = T.deliveryId ∧
      (d' = d ∨ progress d < progress d') := by
  induction htu with
  | refl => exact ⟨d, hd, hid, .inl rfl⟩
  | @step u htu ih =>
    obtain ⟨d₁, hd₁, hid₁, hfrom⟩ := ih
    rcases hstep u with heq | hstep
    · exact ⟨d₁, heq ▸ hd₁, hid₁, hfrom⟩
    · obtain ⟨d₂, hd₂, hid₂, hnext⟩ := (hsteady u).row hm hstep hd₁ hid₁
      refine ⟨d₂, hd₂, hid₂, ?_⟩
      rcases hfrom with rfl | hfrom
      · exact hnext
      · rcases hnext with rfl | hnext
        · exact .inr hfrom
        · exact .inr (hfrom.trans hnext)

/-- As long as it is not delivered, a delivery that gets its turn moves forward. -/
theorem eventually_forward (hsteady : ∀ t, T.Steady (σ t)) (hm : T.failures < T.maxAttempts)
    (hstep : ∀ t, σ (t + 1) = σ t ∨ T.Step True (σ t) (σ (t + 1))) (hfair : T.Fair σ)
    (hd : d ∈ (σ t).system.db.deliveries) (hid : d.id = T.deliveryId)
    (hs : d.status ≠ .delivered) :
    ∃ u, ∃ d' ∈ (σ u).system.db.deliveries, d'.id = T.deliveryId ∧ progress d < progress d' := by
  have hturn : ∃ u, t ≤ u ∧ (d ∈ (σ u).system.db.deliveries →
      ∃ d' ∈ (σ (u + 1)).system.db.deliveries, d'.id = T.deliveryId ∧ progress d < progress d') := by
    by_cases hp : d.status = .inProgress
    · obtain ⟨u, k, v, w, result, draw, htu, hw, howner, htoken, hends⟩ :=
        hfair.finalized t d hd hid hp
      exact ⟨u, htu, fun hdu => (hsteady u).finalized (hstep u) hends hw hdu hid hp howner htoken⟩
    · have hw : d.status = .pending ∨ d.status = .retryWait := by
        have halive := ((hsteady t).rows d hd hid).alive
        cases hst : d.status <;> simp_all
      obtain ⟨u, k, w, draw, c, htu, hshow, hc⟩ := hfair.claimed t d hd hid hw
      exact ⟨u, htu, fun hdu => (hsteady u).claimed hm (hstep u) hshow hc hdu hid⟩
  obtain ⟨u, htu, hforward⟩ := hturn
  obtain ⟨d₁, hd₁, hid₁, rfl | hlt⟩ := row_at hsteady hm hstep htu hd hid
  · exact ⟨u + 1, hforward hd₁⟩
  · exact ⟨u, d₁, hd₁, hid₁, hlt⟩

/-- A delivery that gets its turn is delivered. -/
theorem eventually_delivered (hsteady : ∀ t, T.Steady (σ t)) (hm : T.failures < T.maxAttempts)
    (hstep : ∀ t, σ (t + 1) = σ t ∨ T.Step True (σ t) (σ (t + 1))) (hfair : T.Fair σ)
    (hd : d ∈ (σ t).system.db.deliveries) (hid : d.id = T.deliveryId) :
    ∃ u, ∃ d' ∈ (σ u).system.db.deliveries, d'.id = T.deliveryId ∧ d'.status = .delivered := by
  -- The number of attempts is bounded, so the delivery cannot move forward forever.
  generalize hrest : 2 * (T.failures + 1) + 1 - progress d = rest
  induction rest using Nat.strong_induction_on generalizing t d with
  | h rest ih =>
    by_cases hs : d.status = .delivered
    · exact ⟨t, d, hd, hid, hs⟩
    · obtain ⟨u, d', hd', hid', hlt⟩ := eventually_forward hsteady hm hstep hfair hd hid hs
      have hle : progress d' ≤ 2 * (T.failures + 1) + 1 := by
        have := ((hsteady u).rows d' hd' hid').count
        unfold progress
        split_ifs <;> omega
      exact ih _ (by omega) hd' hid' rfl

/-- The first change of a row. -/
theorem row_changes (hsteady : ∀ t, T.Steady (σ t)) (hm : T.failures < T.maxAttempts)
    (hstep : ∀ t, σ (t + 1) = σ t ∨ T.Step True (σ t) (σ (t + 1)))
    (hd : d ∈ (σ t).system.db.deliveries) (hid : d.id = T.deliveryId) {e : Delivery}
    (he : e ∈ (σ u).system.db.deliveries) (heid : e.id = T.deliveryId)
    (hne : progress d < progress e) :
    ∃ v, t ≤ v ∧ d ∈ (σ v).system.db.deliveries ∧ d ∉ (σ (v + 1)).system.db.deliveries := by
  by_contra hnone
  have hstays : ∀ k, d ∈ (σ (t + k)).system.db.deliveries := by
    intro k
    induction k with
    | zero => exact hd
    | succ k ih =>
      by_contra hgone
      exact hnone ⟨t + k, Nat.le_add_right t k, ih, hgone⟩
  rcases Nat.le_total t u with htu | hut
  · obtain ⟨k, rfl⟩ := Nat.exists_eq_add_of_le htu
    obtain rfl := Table.eq_of_key (hstays k) he (hid.trans heid.symm)
    exact absurd hne (Nat.lt_irrefl _)
  · obtain ⟨d', hd', hid', hfrom⟩ := row_at hsteady hm hstep hut he heid
    obtain rfl := Table.eq_of_key hd' hd (hid'.trans hid.symm)
    rcases hfrom with rfl | hlt
    · exact absurd hne (Nat.lt_irrefl _)
    · omega

/-- A step that changes the row is a commit that treats it. -/
theorem Steady.changed (h : T.Steady j) (hstep : j' = j ∨ T.Step True j j')
    (hd : d ∈ j.system.db.deliveries) (hgone : d ∉ j'.system.db.deliveries) :
    ∃ c ∈ j.system.sessions, ∃ a, j'.labels = j.labels ++ [.commit c.id c.req a] ∧
      T.Calm j (.commit c.id c.req a) ∧
      Treats T.deliveryId j.system.db c.req a j'.system.db := by
  rcases hstep with rfl | hstep
  · exact absurd hd hgone
  · cases hstep with
    | @database x l s' hx hp hreport hcalm =>
      rcases (reaches_meets (ReachesLimited.reaches h.sound.reaches) hx hp.1).cases with
        ⟨-, hdb⟩ | ⟨c, hc, a, rfl, hcommit⟩
      · exact absurd (hdb ▸ hd) hgone
      · exact ⟨c, hc, a, rfl, hcalm trivial, Step.treats hcommit _⟩
    | _ => exact absurd hd hgone

/-- What ends delivered has had its turns. -/
theorem fair_of_delivered (hsteady : ∀ t, T.Steady (σ t)) (hm : T.failures < T.maxAttempts)
    (hstep : ∀ t, σ (t + 1) = σ t ∨ T.Step True (σ t) (σ (t + 1))) {e : Delivery}
    (he : e ∈ (σ u).system.db.deliveries) (heid : e.id = T.deliveryId)
    (hs : e.status = .delivered) : T.Fair σ := by
  have hmax : ∀ t, ∀ d ∈ (σ t).system.db.deliveries, d.id = T.deliveryId →
      d.status ≠ .delivered → progress d < progress e := by
    intro t d hd hid hne
    have hadv := (hsteady t).rows d hd hid
    have hcount := ((hsteady u).rows e he heid).delivered hs
    have hbound := hadv.count
    have hwaiting := hadv.waiting
    have halive := hadv.alive
    have hlast : progress e = 2 * (T.failures + 1) + 1 := by
      rw [progress, hcount, hs]
      rfl
    rw [hlast, progress]
    cases hst : d.status with
    | pending =>
      have := hwaiting (.inl hst)
      simp only [reduceCtorEq, if_false]
      omega
    | inProgress =>
      simp only [if_true]
      omega
    | retryWait =>
      have := hwaiting (.inr hst)
      simp only [reduceCtorEq, if_false]
      omega
    | delivered => exact absurd hst hne
    | deadLettered => exact absurd hst halive
  refine ⟨⟨u, e, he, heid⟩, fun t d hd hid hw => ?_, fun t d hd hid hp => ?_⟩
  · have hne : d.status ≠ .delivered := by rcases hw with hw | hw <;> rw [hw] <;> nofun
    obtain ⟨v, htv, hdv, hgone⟩ := row_changes hsteady hm hstep hd hid he heid
      (hmax t d hd hid hne)
    obtain ⟨c, hc, a, hl, hcalm, htreats⟩ := (hsteady v).changed (hstep v) hdv hgone
    generalize (σ (v + 1)).system.db = db' at htreats hgone
    generalize hreq : c.req = r at htreats hl
    cases htreats with
    | quiet hrows hattempts hissued => exact absurd ((hrows d hid).mpr hdv) hgone
    | create hfresh hrows hs hcount hattempts hissued => exact absurd hid (hfresh d hdv)
    | @claim w draw k ep d₁ d' closed opened hd₁ hid₁ hdue hep hepid hk hfresh =>
      exact ⟨v, c.id, w, draw, k, htv, hl, hk.deliveryId.trans hid₁⟩
    | @settle w webhook result draw status delay d₁ b hid₁ htarget hd₁ hcount hb =>
      obtain ⟨hdm₁, -, hs₁, -⟩ := mem_ownedDeliveries.mp hd₁
      obtain rfl := Table.eq_of_key hdv hdm₁ (hid.trans hid₁.symm)
      rw [hs₁] at hw
      rcases hw with hw | hw <;> cases hw
  · have hne : d.status ≠ .delivered := by rw [hp]; nofun
    obtain ⟨v, htv, hdv, hgone⟩ := row_changes hsteady hm hstep hd hid he heid
      (hmax t d hd hid hne)
    obtain ⟨c, hc, a, hl, hcalm, htreats⟩ := (hsteady v).changed (hstep v) hdv hgone
    have hlimit := (hsteady v).sound.limited hc
    generalize (σ (v + 1)).system.db = db' at htreats hgone
    generalize hreq : c.req = r at htreats hl hcalm hlimit
    cases htreats with
    | quiet hrows hattempts hissued => exact absurd ((hrows d hid).mpr hdv) hgone
    | create hfresh hrows hs hcount hattempts hissued => exact absurd hid (hfresh d hdv)
    | @claim w draw k ep d₁ d' closed opened hd₁ hid₁ hdue hep hepid hk hfresh =>
      obtain rfl := Table.eq_of_key hdv hd₁ (hid.trans hid₁.symm)
      obtain ⟨hw, -⟩ := ((hsteady v).rows d hdv hid).claim hm (of_decide_eq_true hlimit) hdue
        (hcalm.2 d hdv hid) (hcalm.1 d hdv hid ep hep hepid) hk
      rw [hp] at hw
      rcases hw with hw | hw <;> cases hw
    | @settle w webhook result draw status delay d₁ b hid₁ htarget hd₁ hcount hb =>
      obtain ⟨hdm₁, hwid, -, howner, htoken⟩ := mem_ownedDeliveries.mp hd₁
      obtain rfl := Table.eq_of_key hdv hdm₁ (hid.trans hid₁.symm)
      exact ⟨v, c.id, w, webhook, result, draw, htv, hwid.symm.trans hid, howner, htoken,
        .inl ⟨_, hl⟩⟩

/-- A run as an execution that stops at its end. -/
theorem Leads.execution (hr : T.Leads calm j j') : ∃ (σ : ℕ → Joint) (n : ℕ), σ 0 = j ∧
    (∀ t, n ≤ t → σ t = j') ∧ ∀ t, σ (t + 1) = σ t ∨ T.Step calm (σ t) (σ (t + 1)) := by
  induction hr with
  | refl => exact ⟨fun _ => j, 0, rfl, fun _ _ => rfl, fun _ => .inl rfl⟩
  | @tail j₁ j₂ _ hstep ih =>
    obtain ⟨σ, n, hzero, hend, hsteps⟩ := ih
    refine ⟨fun t => if t ≤ n then σ t else j₂, n + 1, ?_, fun t ht => ?_, fun t => ?_⟩
    · exact (if_pos (Nat.zero_le n)).trans hzero
    · exact if_neg (Nat.not_le.mpr ht)
    · dsimp only
      rcases Nat.lt_trichotomy t n with hlt | rfl | hgt
      · rw [if_pos (show t + 1 ≤ n from hlt), if_pos hlt.le]
        exact hsteps t
      · rw [if_neg (by omega), if_pos le_rfl, hend t le_rfl]
        exact .inr hstep
      · rw [if_neg (by omega), if_neg (by omega)]
        exact .inl rfl

end Executions

end Trial

/-- With no more attempts than seeded failures a delivery is never delivered and
every answer it records is a failure, whatever expires and crashes. With more
attempts, while no lease expires, it is never given up, and it is delivered, with
the seeded failures before the success, exactly when it has its turns. -/
theorem seeded_failures (T : Trial) (j₀ : Joint) (hstart : T.Starts j₀) :
    (T.maxAttempts ≤ T.failures → ∀ j, T.Leads False j₀ j →
      (∀ d ∈ j.system.db.deliveries, d.id = T.deliveryId → d.status ≠ .delivered) ∧
      ∀ a ∈ j.system.db.attemptsAt T.deliveryId, a.status = .completed →
        a.httpStatusCode = some 503) ∧
    (T.failures < T.maxAttempts →
      (∀ j, T.Leads True j₀ j → ∀ d ∈ j.system.db.deliveries, d.id = T.deliveryId →
        d.status ≠ .deadLettered ∧
        (d.status = .delivered → T.Recovered d (j.system.db.attemptsAt T.deliveryId))) ∧
      ∀ σ : ℕ → Joint, σ 0 = j₀ → (∀ t, σ (t + 1) = σ t ∨ T.Step True (σ t) (σ (t + 1))) →
        (T.Fair σ ↔ ∃ t, ∀ u, t ≤ u → ∃ d ∈ (σ u).system.db.deliveries, d.id = T.deliveryId ∧
          T.Recovered d ((σ u).system.db.attemptsAt T.deliveryId))) := by
  refine ⟨fun hm j hr => ?_, fun hm => ⟨fun j hr d hd hid => ?_, ?_⟩⟩
  · have hsound := hstart.sound.leads hr
    refine ⟨fun d hd hid hs => ?_, fun a ha hs => (hsound.failed hm ha hs).1⟩
    have hledger := (reaches_inv (ReachesLimited.reaches hsound.reaches)).ledger d hd
    rw [hid] at hledger
    obtain ⟨a, ha, hdisp⟩ := hledger.succeeded.mp hs
    have hcompleted : a.status = .completed := by
      have hfields := hledger.lifecycle a ha
      cases hst : a.status with
      | completed => rfl
      | inProgress => simp [DeliveryAttempt.lifecycleFields, hst, hdisp] at hfields
      | indeterminate => simp [DeliveryAttempt.lifecycleFields, hst, hdisp] at hfields
    rw [(hsound.failed hm ha hcompleted).2] at hdisp
    cases hdisp
  · have hsteady := hstart.steady.leads hm hr
    exact ⟨(hsteady.rows d hd hid).alive, hsteady.recovered hd hid⟩
  · rintro σ rfl hstep
    have hsteady := Trial.steady_at hstart hm hstep
    constructor
    · intro hfair
      obtain ⟨t₀, d₀, hd₀, hid₀⟩ := hfair.published
      obtain ⟨t, d, hd, hid, hs⟩ := Trial.eventually_delivered hsteady hm hstep hfair hd₀ hid₀
      refine ⟨t, fun u htu => ?_⟩
      obtain ⟨d', hd', hid', hmoved⟩ := Trial.row_at hsteady hm hstep htu hd hid
      obtain rfl : d' = d := by
        refine hmoved.resolve_right fun hlt => ?_
        have hle := ((hsteady u).rows d' hd' hid').count
        have hcount := ((hsteady t).rows d hd hid).delivered hs
        simp only [Trial.progress, hs, reduceCtorEq, if_false] at hlt
        split_ifs at hlt <;> omega
      exact ⟨d', hd', hid', (hsteady u).recovered hd' hid' hs⟩
    · rintro ⟨t, ht⟩
      obtain ⟨d, hd, hid, hrecovered⟩ := ht t le_rfl
      exact Trial.fair_of_delivered hsteady hm hstep hd hid hrecovered.delivered

/-! ## The composition, executed -/

namespace Trial

instance (c : AttemptClock) : Decidable c.Recordable :=
  decidable_of_iff (-1 < Binary64.round c.started ∧ c.started ≤ c.finished ∧
      Binary64.round (c.finishedMonotonic - c.startedMonotonic) * 1000 <
        2 ^ 31 - 1 / 2 - 1 / 2 ^ 23)
    ⟨fun h => ⟨h.1, h.2.1, h.2.2⟩, fun h => ⟨h.epoch, h.ordered, h.duration⟩⟩

instance (draw : FinalizeDraw) : Decidable (FinalizeDraw.Fair draw) :=
  inferInstanceAs (Decidable (0 ≤ draw.randomFraction ∧ draw.randomFraction ≤ 1))

instance (T : Trial) (j : Joint) : (l : Shown) → Decidable (T.Reports j l)
  | .start _ (.finalize _ webhook result _) =>
    inferInstanceAs (Decidable (webhook.deliveryId = T.deliveryId → (webhook, result) ∈ j.results))
  | .start _ (.createEndpoint _ _ _) | .start _ (.setEnabled _ _ _)
  | .start _ (.publish _ _ _) | .start _ (.replay _ _ _) | .start _ (.claimOne _ _)
  | .start _ (.purge _ _ _)
  | .tau _ | .wrote _ _ | .commit _ _ _ | .fail _ _ _ | .abort _ => .isTrue trivial

instance (T : Trial) (j : Joint) : (l : Shown) → Decidable (T.Calm j l)
  | .commit _ (.claimOne _ draw) _ => inferInstanceAs (Decidable (_ ∧
      ∀ d ∈ j.system.db.deliveries.rows, d.id = T.deliveryId → d.status = .inProgress →
        due d.leaseExpiresAt (draw.clock d.id) = false ∧
        due d.leaseExpiresAt (draw.reclock d.id) = false))
  | .start _ (.finalize _ webhook _ draw) => inferInstanceAs (Decidable (_ ∧
      (webhook.deliveryId = T.deliveryId → FinalizeDraw.Fair draw)))
  | .commit _ (.createEndpoint _ _ _) _ | .commit _ (.setEnabled _ _ _) _
  | .commit _ (.publish _ _ _) _ | .commit _ (.replay _ _ _) _ | .commit _ (.finalize _ _ _ _) _
  | .commit _ (.purge _ _ _) _
  | .start _ (.createEndpoint _ _ _) | .start _ (.setEnabled _ _ _)
  | .start _ (.publish _ _ _) | .start _ (.replay _ _ _) | .start _ (.claimOne _ _)
  | .start _ (.purge _ _ _)
  | .tau _ | .wrote _ _ | .fail _ _ _ | .abort _ => inferInstanceAs (Decidable (_ ∧ True))

/-- A step of the database or a webhook that is sent. -/
inductive Move
  | act (x : Action ℕ Request)
  | send (w : OutboundWebhook) (v : DeliveryWorker) (clock : AttemptClock) (receivedAt : Time)

variable (T : Trial)

/-- The body passes the receiver's validation. -/
def satisfies (w : OutboundWebhook) : Bool :=
  match payloadValidationError T.receiverLib.loads w.payloadBytes (T.channel w.endpointUrl)
    (validateUnknown (T.channel w.endpointUrl) T.configuration) with
  | .ok none => true
  | _ => false

def perform (j : Joint) : Move → Option Joint
  | .act x =>
    match j.system.act (Request.code T.lib) x with
    | none => none
    | some (l, s') =>
      if Limited T.maxAttempts j.labels j.system l s' ∧ T.Reports j l ∧ T.Calm j l then
        some { j with labels := j.labels ++ [l], system := s' }
      else none
  | .send w v clock receivedAt =>
    match signPayload T.transport w.signingSecret clock.requestTimestamp w.payloadBytes,
      sendWebhook T.transport v.settings.workerRetryAfterCapSeconds w
        (fun body headers => outcome
          (j.lab.receiveWebhook T.receiverLib (T.request w receivedAt body headers)).2) clock with
    | .ok signature, .ok result =>
      if w ∈ issued (history j.labels) ∧ w.deliveryId = T.deliveryId ∧ w ∉ j.sent ∧
          T.satisfies w = true ∧
          j.lab.routed (.receiveWebhook (T.signed w clock receivedAt signature)) = T.runId ∧
          representable clock.started = true ∧ clock.Recordable then
        some { j with
          lab := (j.lab.receiveWebhook T.receiverLib (T.signed w clock receivedAt signature)).1
          sent := j.sent ++ [w]
          results := j.results ++ [(w, result)] }
      else none
    | _, _ => none

def performAll (j : Joint) (ms : List Move) : Option Joint := ms.foldlM T.perform j

variable {T}

theorem satisfies_iff {w : OutboundWebhook} : T.satisfies w = true ↔ T.Satisfies w := by
  unfold satisfies Satisfies
  split
  · rename_i h
    exact iff_of_true rfl h
  · rename_i h
    exact iff_of_false (by simp) h

theorem step_of_perform {j j' : Joint} {m : Move} (h : T.perform j m = some j') :
    T.Step True j j' := by
  unfold perform at h
  split at h
  · split at h
    · cases h
    · rename_i hx
      split at h
      · rename_i hp
        cases h
        exact .database hx hp.1 hp.2.1 fun _ => hp.2.2
      · cases h
  · split at h
    · rename_i hsig hresult
      split at h
      · rename_i hp
        obtain ⟨hw, hd, hnew, hbody, hroute, hclock⟩ := hp
        cases h
        exact .send hw hd hnew (satisfies_iff.mp hbody) hsig hroute hresult fun _ => hclock
      · cases h
    · cases h

theorem leads_of_performAll {j j' : Joint} {ms : List Move} (h : T.performAll j ms = some j') :
    T.Leads True j j' := by
  induction ms generalizing j with
  | nil =>
    cases h
    exact .refl
  | cons m ms ih =>
    obtain ⟨j₁, hm, hms⟩ := Option.bind_eq_some_iff.mp h
    exact .head (step_of_perform hm) (ih hms)

/-- What holds at the end of the moves holds at the end of a run. -/
theorem exists_leads {j : Joint} {ms : List Move} {f : Joint → Bool}
    (h : (T.performAll j ms).any f = true) : ∃ j', T.Leads True j j' ∧ f j' = true := by
  cases hj : T.performAll j ms with
  | none =>
    rw [hj] at h
    cases h
  | some j' =>
    rw [hj] at h
    exact ⟨j', leads_of_performAll hj, h⟩

end Trial

namespace Sample

/-- An order of the demo, with the run that receives it. -/
def paid : EventPublishRequest where
  endpointId := 1
  type := "demo.order.paid"
  data := [(PyStr.ofString "order_id", .str (PyStr.ofString "A-7")),
    (PyStr.ofString "run_id", .str (PyStr.ofString "demo-7"))]
  distinct := by decide +kernel

/-- The body of the order's event, which has id 2. -/
def paidBytes : Bytes := bytesOf (.obj [
  (PyStr.ofString "id", .str (PyStr.ofChars (UUID.chars 2))),
  (PyStr.ofString "type", .str (PyStr.ofString "demo.order.paid")),
  (PyStr.ofString "created_at", .str (PyStr.ofString "2026-01-01T00:00:00Z")),
  (PyStr.ofString "data", .obj paid.data)])

/-- SHA-256 of the order's two documents. -/
def paidSha256Hex (bytes : Bytes) : String :=
  if bytes = paidBytes then "7b7891f993a47aa4b60e016d76ccc8aec001e8059454b1285c754e4bc41a521e"
  else "de578a2eaa53d910770d6ab5620f3f7acf42652903f89b04ff148f5a6de41ed0"

/-- HMAC-SHA256 of the order's two requests. -/
def paidHmac (_ content : Bytes) : String :=
  if content = signedContent 1767225602 paidBytes then
    "41a147c61a47848025bbfba3d8616f8ecbbbdf0b4df406508363852ba9cd4024"
  else "e417e6981c117bba4abc0d35b0253b227dbfbc17d33cd853251713b2cda57fa4"

/-- One seeded failure and three attempts. -/
def trial : Trial where
  lib := { lib with sha256Hex := paidSha256Hex }
  receiverLib := ReceiverLab.Sample.receiverLib
  float := fun _ => none
  parsedateToDatetime := fun _ => .error .invalid
  hmacSha256Hex := paidHmac
  channel := fun url => if url = "http://receiver-lab:8080/webhooks/orders" then some "orders" else none
  maxAttempts := 3
  deliveryId := 3
  runId := some "demo-7"
  configuration := ReceiverLab.Sample.failOnce
  mode := rfl

/-- The run has been configured. -/
def trialStart : Joint where
  labels := []
  system := .idle Db.empty
  lab := ((ReceiverState.run ReceiverLab.Sample.receiverLib {} []).step ReceiverLab.Sample.receiverLib
    (.configure (some "demo-7") ReceiverLab.Sample.failOnce)).1
  sent := []
  results := []

def orderWebhook (attempt token : UUID) (number : ℕ) : OutboundWebhook where
  attemptId := attempt
  deliveryId := 3
  eventId := 2
  eventType := "demo.order.paid"
  endpointUrl := "http://receiver-lab:8080/webhooks/orders"
  signingSecret := [1]
  payloadBytes := paidBytes
  attemptNumber := number
  leaseToken := token
  demoRunId := some "demo-7"

def laterClock : AttemptClock := ⟨epoch + 12, epoch + 13, 0, 1, AttemptClock.finite_of_second⟩

/-- The result of a request that the receiver answers with a status. -/
def answered (clock : AttemptClock) (status : ℤ) (webhook : OutboundWebhook) : AttemptResult :=
  (sendWebhook trial.transport settings.workerRetryAfterCapSeconds webhook
    (fun _ _ => outcome (.ok (ReceiverLab.plainResponse status))) clock).toOption.getD
      (unreachable epoch)

def registerOrders : Request :=
  .createEndpoint "http://receiver-lab:8080/webhooks"
    ⟨"Orders", "http://receiver-lab:8080/webhooks/orders"⟩
    { id := 1, secret := [1], createdAt := epoch, updatedAt := epoch }

def publishPaid : Request :=
  .publish paid "order-7"
    { eventId := 2, deliveryId := 3, createdAt := epoch, transactionNow := epoch }

/-- The order is published and sent until it is delivered. -/
def trialMoves : List Trial.Move :=
  (Sys.alone 0 registerOrders 2 ++ Sys.alone 1 publishPaid 9 ++
    Sys.alone 2 (claim "a" (epoch + 1) 4 5) 12).map .act ++
  [.send (orderWebhook 5 4 1) (worker "a") clock (epoch + 2)] ++
  (Sys.alone 3 (finalize "a" (orderWebhook 5 4 1) (answered clock 503 (orderWebhook 5 4 1))
      (epoch + 4)) 11 ++
    Sys.alone 4 (claim "a" (epoch + 11) 6 7) 12).map .act ++
  [.send (orderWebhook 7 6 2) (worker "a") laterClock (epoch + 12)] ++
  (Sys.alone 5 (finalize "a" (orderWebhook 7 6 2) (answered laterClock 200 (orderWebhook 7 6 2))
      (epoch + 14)) 11).map .act

theorem trial_starts : trial.Starts trialStart where
  reaches := .nil
  unclaimed := fun d hd => absurd hd (Table.not_mem_empty d)
  configured := ⟨[], rfl⟩
  sent := rfl
  results := rfl

end Sample

/-- The order fails once and is delivered at its second attempt. -/
theorem seeded_failures_of_recovery : ∃ j d, Sample.trial.Leads True Sample.trialStart j ∧
    d ∈ j.system.db.deliveries ∧ d.attemptCount = 2 ∧ Sample.trial.Recovered d
      (j.system.db.attemptsAt 3) ∧
    ∃ σ : ℕ → Joint, σ 0 = Sample.trialStart ∧ Sample.trial.Fair σ := by
  have hplay : (Sample.trial.performAll Sample.trialStart Sample.trialMoves).any (fun j =>
      j.system.db.deliveries.rows.any fun d => d.id = 3 && d.status = .delivered &&
        d.attemptCount = 2) = true := by
    decide +kernel
  obtain ⟨j, hleads, hany⟩ := Trial.exists_leads hplay
  obtain ⟨d, hd, h⟩ := List.any_eq_true.mp hany
  simp only [Bool.and_eq_true, decide_eq_true_eq] at h
  obtain ⟨-, hmore⟩ := seeded_failures Sample.trial Sample.trialStart Sample.trial_starts
  obtain ⟨hsafe, hlive⟩ := hmore (by decide)
  have hrecovered := (hsafe j hleads d hd h.1.1).2 h.1.2
  obtain ⟨σ, n, hzero, hend, hsteps⟩ := Trial.Leads.execution hleads
  refine ⟨j, d, hleads, hd, h.2, hrecovered, σ, hzero, (hlive σ hzero hsteps).mpr ⟨n, fun u hu => ?_⟩⟩
  rw [hend u hu]
  exact ⟨d, hd, h.1.1, hrecovered⟩

end EventHarbor
