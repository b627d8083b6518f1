import EventHarbor.Refinement.Rules

/-!
# Claiming refines its step
-/

namespace EventHarbor

open Relational Txn Contract DeliveryWorker

variable {lib : Lib} {cleanup : Prop} {L : List Lock} {db db' : Db} {w : DeliveryWorker}
  {draw : ClaimDraw} {d : Delivery} {ep : Endpoint} {b : Db}

/-- What a claim knows about the delivery it has locked. -/
structure Held (lib : Lib) (cleanup : Prop) (draw : ClaimDraw) (L : List Lock) (db : Db)
    (d : Delivery) : Prop where
  inv : ¬cleanup → Inv lib db
  mem : d ∈ db.deliveries
  lock : Lock.delivery d.id .update ∈ L
  due : claimable (draw.clock d.id) d = true ∨ claimable (draw.reclock d.id) d = true
  endpointLock : ¬cleanup → Lock.endpoint d.endpointId .update ∈ L

theorem Held.relies (h : Held lib cleanup draw L db d)
    (hr : (contract lib cleanup).Relies [] L db db') : Held lib cleanup draw L db' d where
  inv := relies_inv hr h.inv
  mem := (relies_delivery hr h.lock).1 d h.mem rfl
  lock := h.lock
  due := h.due
  endpointLock := h.endpointLock

theorem Held.subset {L' : List Lock} (h : Held lib cleanup draw L db d) (hsub : L ⊆ L') :
    Held lib cleanup draw L' db d where
  inv := h.inv
  mem := h.mem
  lock := hsub h.lock
  due := h.due
  endpointLock := fun hno => hsub (h.endpointLock hno)

/-- The endpoint a claim has read, as locked as its delivery. -/
structure Reads (cleanup : Prop) (db : Db) (d : Delivery) (ep : Endpoint) : Prop where
  id : ep.id = d.endpointId
  mem : ¬cleanup → ep ∈ db.endpoints

theorem Reads.relies (h : Reads cleanup db d ep) (hh : Held lib cleanup draw L db d)
    (hr : (contract lib cleanup).Relies [] L db db') : Reads cleanup db' d ep where
  id := h.id
  mem := fun hno => relies_endpoint hr (m := .update) rfl (h.id ▸ hh.endpointLock hno) (h.mem hno)

/-- The attempt that a claim closes. -/
structure Closes (db : Db) (d : Delivery) (closed : Option DeliveryAttempt) : Prop where
  old : ∀ a', closed = some a' → ∃ a ∈ db.attemptsAt d.id, SameAttempt a a'
  valid : ∀ a', closed = some a' → violation a'.checks = none

theorem Closes.relies {closed : Option DeliveryAttempt} (h : Closes db d closed)
    (hh : Held lib cleanup draw L db d) (hr : (contract lib cleanup).Relies [] L db db') :
    Closes db' d closed where
  old := fun a' ha' => (relies_delivery hr hh.lock).2 ▸ h.old a' ha'
  valid := h.valid

/-- The unique checks of a new attempt, read against the committed attempts. -/
theorem opens_of_check {closed : Option DeliveryAttempt} {x : DeliveryAttempt} {v : Db}
    (hc : Closes db d closed) (hv : v.attempts = closed.elim db.attempts db.attempts.set)
    (hx : x.deliveryId = d.id) (h : violation (Write.checks (.insertAttempt x) v) = none) :
    db.attempts.Fresh x.id ∧ (∀ a ∈ db.attemptsAt d.id, a.leaseToken ≠ x.leaseToken) ∧
      violation x.checks = none := by
  obtain ⟨hvalid, hrest⟩ := violation_append.mp h
  simp only [violation_eq_none, Db.attemptUnique, List.mem_cons, List.not_mem_nil, or_false,
    forall_eq_or_imp, forall_eq, decide_eq_true_eq, List.all_eq_true, Bool.or_eq_true,
    Bool.not_eq_true', Bool.and_eq_false_iff, decide_eq_false_iff_not] at hrest
  obtain ⟨hfresh, -, htoken, -⟩ := hrest
  -- A committed attempt is seen with its id, its delivery and its token.
  have seen : ∀ a ∈ db.attempts, ∃ a' ∈ v.attempts, SameAttempt a a' := by
    intro a ha
    rw [hv]
    cases closed with
    | none => exact ⟨a, ha, .refl a⟩
    | some c' =>
      obtain ⟨c, hcm, hsame⟩ := hc.old c' rfl
      have hcm := (Db.mem_attemptsAt.mp hcm).1
      by_cases hac : a = c
      · exact ⟨c', (Table.mem_set_of_mem hcm hsame.id.symm).mpr (.inr rfl), hac ▸ hsame⟩
      · exact ⟨a, (Table.mem_set_of_mem hcm hsame.id.symm).mpr (.inl ⟨ha, hac⟩), .refl a⟩
  refine ⟨fun a ha hid => ?_, fun a ha hta => ?_, hvalid⟩
  · obtain ⟨a', ha', hs⟩ := seen a ha
    exact hfresh a' ha' (hs.id.trans hid)
  · obtain ⟨ha, had⟩ := Db.mem_attemptsAt.mp ha
    obtain ⟨a', ha', hs⟩ := seen a ha
    rcases htoken a' ha' with hid | hd | ht
    · exact hfresh a' ha' hid
    · exact hd (by rw [hs.deliveryId, had, hx])
    · exact ht (hs.leaseToken.trans hta)

/-- The lease and the new attempt, after the writes `ws` that close the old one. -/
theorem reserve_safe {ws : List Write} {d₀ : Delivery} {closed : Option DeliveryAttempt}
    (hh : Held lib cleanup draw L db d) (hep : Reads cleanup db d ep) (hcl : Closes db d closed)
    (hid : d₀.id = d.id) (hev : d₀.eventId = d.eventId)
    (hview : ∀ x : Db, view (ws ++ [Write.updateDelivery (w.leased d₀ draw)]) x =
      x.move (w.leased d₀ draw) closed none)
    (hclaimed : ∀ {x ev}, Held lib cleanup draw L x d → x.attemptsAt d.id = db.attemptsAt d.id →
      ev.id = d.eventId → (¬cleanup → ev ∈ x.events) →
      Claimed cleanup w draw x ep d (.webhook (outboundWebhook (w.leased d₀ draw) ep ev draw))
        (w.leased d₀ draw) closed (some (reserved (w.leased d₀ draw) draw))) :
    (contract lib cleanup).Safe ((contract lib cleanup).fails (.claimOne w draw) b)
      (fun c _ ws L db => Step lib cleanup L db (.claimOne w draw) (.claimed (some c))
        (view ws db))
      (w.reserve d₀ ep draw) [] ws L db := by
  unfold reserve
  refine safe_updateDelivery fun db₁ hr₁ => ⟨fun c _ db' _ _ => ⟨c, rfl⟩, fun hok₁ => ?_⟩
  have hh₁ := hh.relies hr₁
  have hd' : violation (w.leased d₀ draw).checks = none := (violation_append.mp hok₁).1
  refine Safe.query fun db₂ hr₂ o ho => ?_
  have hr₂' := hr₂.subset (List.subset_cons_self _ L)
  have hh₂ := hh₁.relies hr₂'
  rw [hview] at ho
  cases o with
  | none =>
    intro db' hr' hno
    obtain ⟨e, he, hide⟩ := (hh₂.inv hno).event d hh₂.mem
    exact absurd (hide.trans hev.symm) (Table.get?_eq_none.mp ho e he)
  | some ev =>
    obtain ⟨hevm, hevid⟩ := Table.get?_eq_some.mp ho
    have hevid : ev.id = d.eventId := hevid.trans hev
    refine Safe.exec fun db₃ hr₃ => ⟨fun e he db' _ _ => check_eq_some he, fun hok₂ => ⟨trivial, ?_⟩⟩
    have hr₃' := hr₃.subset (List.subset_cons_self _ L)
    have hh₃ := hh₂.relies hr₃'
    have hcl₃ := hcl.relies hh ((hr₁.trans hr₂').trans hr₃')
    rw [hview] at hok₂
    obtain ⟨hfresh, htoken, hvalid⟩ := opens_of_check hcl₃ (by cases closed <;> rfl)
      (show (reserved (w.leased d₀ draw) draw).deliveryId = d.id from hid) (check_eq_none.mp hok₂)
    refine safe_foreignKey fun db₄ hr₄ => ⟨fun _ => ?_, fun _ db' _ _ => ⟨_, rfl⟩⟩
    intro db₅ hr₅
    have hr₅' : (contract lib cleanup).Relies [] L db₃ db₅ :=
      (hr₄.subset fun i hi => by simp [hi]).trans (hr₅.subset fun i hi => by simp [hi])
    have hh₅ : Held lib cleanup draw L db₅ d := hh₃.relies hr₅'
    have hr : (contract lib cleanup).Relies [] L db db₅ := ((hr₁.trans hr₂').trans hr₃').trans hr₅'
    have hat := (relies_delivery hr hh.lock).2
    have hkey : Lock.unique (.attemptId (reserved (w.leased d₀ draw) draw).id) ∈
        Engine.keys Db (Write.insertAttempt (reserved (w.leased d₀ draw) draw)) :=
      List.mem_cons_self
    rw [view_append, hview]
    refine .claim hh₅.mem (by simp [hh.lock]) hh.due (hep.relies hh hr).mem hep.id
      (hclaimed hh₅ hat hevid fun hno => ?_) hd' hcl.valid ?_
    · exact (relies_persist (hr₃'.trans hr₅') fun hc => absurd hc hno).events ev hevm
    · rintro _ ⟨⟩
      refine ⟨?_, fun a ha => ?_, by simp [hkey], hvalid⟩
      · refine relies_fresh_attempt (hr₄.trans (hr₅.subset (List.subset_cons_self _ _))) ?_ hfresh
        exact List.mem_append_left _ hkey
      · rw [(relies_delivery hr₅' hh.lock).2] at ha
        exact htoken a ha

/-- An expired lease has exactly one attempt in progress. -/
theorem Inv.leasedAttempts_singleton (h : Inv lib db) (hd : d ∈ db.deliveries)
    (hs : d.status = .inProgress) : ∃ a, leasedAttempts d db = [a] := by
  have hl := h.ledger d hd
  obtain ⟨a, ha, hn, hp⟩ := hl.progress.mp hs
  obtain ⟨ham, hid⟩ := Db.mem_attemptsAt.mp ha
  have hmem : a ∈ leasedAttempts d db :=
    mem_leasedAttempts.mpr ⟨ham, hid, hn, ((hl.leased hs).2.2 a ha hn).symm, hp⟩
  have hall : ∀ x ∈ leasedAttempts d db, x = a := by
    intro x hx
    obtain ⟨hxm, hxd, hxn, -, -⟩ := mem_leasedAttempts.mp hx
    exact hl.eq_of_number (Db.mem_attemptsAt.mpr ⟨hxm, hxd⟩) ha (hxn.trans hn.symm)
  have hnodup : (leasedAttempts d db).Nodup := (List.Nodup.of_map _ db.attempts.nodup).filter _
  exact ⟨a, List.perm_singleton.mp ((List.perm_ext_iff_of_nodup hnodup (List.nodup_singleton a)).mpr
    fun x => ⟨fun hx => by simp [hall x hx], fun hx => List.mem_singleton.mp hx ▸ hmem⟩)⟩

theorem leasedAttempts_of_attemptsAt {x : Db}
    (hat : x.attemptsAt d.id = db.attemptsAt d.id) {a : DeliveryAttempt}
    (ha : a ∈ leasedAttempts d db) : a ∈ leasedAttempts d x := by
  obtain ⟨hm, hid, hrest⟩ := mem_leasedAttempts.mp ha
  have : a ∈ x.attemptsAt d.id := hat ▸ Db.mem_attemptsAt.mpr ⟨hm, hid⟩
  exact mem_leasedAttempts.mpr ⟨(Db.mem_attemptsAt.mp this).1, hid, hrest⟩

/-- What follows once the expired attempt `a` is locked. -/
theorem expired_safe {a : DeliveryAttempt} (hh : Held lib cleanup draw L db d)
    (hep : Reads cleanup db d ep) (hs : d.status = .inProgress) (ha : a ∈ leasedAttempts d db) :
    (contract lib cleanup).Safe ((contract lib cleanup).fails (.claimOne w draw) b)
      (fun o => (contract lib cleanup).Safe ((contract lib cleanup).fails (.claimOne w draw) b)
        (fun c _ ws L db => Step lib cleanup L db (.claimOne w draw) (.claimed (some c))
          (view ws db)) (w.afterExpiry ep draw o))
      (w.resolveLocked d ep.enabled draw a) [] [] L db := by
  obtain ⟨hm, hid, -, -, -⟩ := mem_leasedAttempts.mp ha
  have hsame : ∀ reason, SameAttempt a (indeterminate a reason draw.now) := fun _ =>
    ⟨rfl, rfl, rfl, rfl⟩
  unfold resolveLocked
  by_cases hr : (ep.enabled && w.retryPolicy.hasAttemptRemaining d.attemptCount) = true
  · rw [if_pos hr]
    obtain ⟨he, hrem⟩ := Bool.and_eq_true_iff.mp hr
    refine safe_updateDelivery fun db₁ hr₁ => ⟨fun c _ db' _ _ => ⟨c, rfl⟩, fun _ => ?_⟩
    refine safe_updateAttempt fun db₂ hr₂ => ⟨fun c _ db' _ _ => ⟨c, rfl⟩, fun hok => ?_⟩
    intro db₃ hr₃
    have hr : (contract lib cleanup).Relies [] L db db₃ := (hr₁.trans
      (hr₂.subset fun i hi => by simp [hi])).trans (hr₃.subset fun i hi => by simp [hi])
    have hat := (relies_delivery hr hh.lock).2
    have hcl : Closes db₃ d (some (indeterminate a (w.expiryReason d ep.enabled) draw.now)) := by
      constructor <;> rintro _ ⟨⟩
      · exact ⟨a, hat ▸ Db.mem_attemptsAt.mpr ⟨hm, hid⟩, hsame _⟩
      · exact (violation_append.mp hok).1
    refine reserve_safe ((hh.relies hr).subset fun i hi => by simp [hi]) (hep.relies hh hr)
      hcl rfl rfl ?_ ?_
    · intro x
      have hset : (x.deliveries.set (w.expired d ep.enabled draw)).set
          (w.leased (w.expired d ep.enabled draw) draw) =
          x.deliveries.set (w.leased (w.expired d ep.enabled draw) draw) := Table.set_set rfl
      change ({ x with
        deliveries := (x.deliveries.set (w.expired d ep.enabled draw)).set _
        attempts := x.attempts.set _ } : Db) = _
      rw [hset]
      rfl
    · intro x ev hx hatx hev hmem
      rw [he]
      exact .relet hev hmem hs (leasedAttempts_of_attemptsAt (hatx.trans hat) ha) he
        (of_decide_eq_true hrem)
  · rw [if_neg hr, hs, ensureTransition_ok (by decide), lift_ok_bind]
    have hx : ep.enabled = false ∨ w.settings.workerMaxAttempts ≤ d.attemptCount := by
      by_cases he : ep.enabled = true
      · simp only [he, Bool.true_and] at hr
        exact .inr (Nat.le_of_not_lt fun hlt => hr (decide_eq_true hlt))
      · exact .inl (by simpa using he)
    refine safe_updateDelivery fun db₁ hr₁ => ⟨fun c _ db' _ _ => ⟨c, rfl⟩, fun hok₁ => ?_⟩
    refine safe_updateAttempt fun db₂ hr₂ => ⟨fun c _ db' _ _ => ⟨c, rfl⟩, fun hok₂ => ?_⟩
    intro db₃ hr₃ db₄ hr₄
    have hr : (contract lib cleanup).Relies [] L db db₄ := ((hr₁.trans
      (hr₂.subset fun i hi => by simp [hi])).trans (hr₃.subset fun i hi => by simp [hi])).trans
      (hr₄.subset fun i hi => by simp [hi])
    refine .claim (hh.relies hr).mem (by simp [hh.lock]) hh.due (hep.relies hh hr).mem hep.id
      (.expire hs (leasedAttempts_of_attemptsAt (relies_delivery hr hh.lock).2 ha) hx)
      (violation_append.mp hok₁).1 ?_ (fun _ h => by cases h)
    rintro _ ⟨⟩
    exact (violation_append.mp hok₂).1

theorem claimable_cases {now : Time} (h : claimable now d = true) :
    ((d.status = .pending ∨ d.status = .retryWait) ∧ due d.nextAttemptAt now = true ∧
      d.leaseToken = none) ∨ (d.status = .inProgress ∧ due d.leaseExpiresAt now = true) := by
  simp only [claimable, Bool.or_eq_true, Bool.and_eq_true, decide_eq_true_eq,
    Option.isNone_iff_eq_none] at h
  rcases h with ⟨⟨hs, hn⟩, ht⟩ | h
  · exact .inl ⟨hs, hn, ht⟩
  · exact .inr h

theorem unclaimableDueReason_eq_none {enabled : Bool}
    (h : w.unclaimableDueReason d enabled = none) :
    enabled = true ∧ d.attemptCount < w.settings.workerMaxAttempts := by
  unfold unclaimableDueReason at h
  have hr : w.retryPolicy.hasAttemptRemaining d.attemptCount = true →
      d.attemptCount < w.settings.workerMaxAttempts := of_decide_eq_true
  cases enabled <;> cases hrem : w.retryPolicy.hasAttemptRemaining d.attemptCount <;>
    simp_all

/-- What a claim does with the delivery it locked. -/
theorem claimLocked_safe (hh : Held lib cleanup draw L db d) :
    (contract lib cleanup).Safe ((contract lib cleanup).fails (.claimOne w draw) b)
      (fun c _ ws L db => Step lib cleanup L db (.claimOne w draw) (.claimed (some c))
        (view ws db))
      (w.claimLocked draw d) [] [] L db := by
  unfold claimLocked
  refine Safe.query fun db₁ hr₁ o ho => ?_
  have hh₁ := hh.relies hr₁
  rw [view_nil] at ho
  cases o with
  | none =>
    intro db' hr' hno
    obtain ⟨e, he, hid⟩ := (hh₁.inv hno).endpoint d hh₁.mem
    exact absurd hid (Table.get?_eq_none.mp ho e he)
  | some ep =>
    obtain ⟨hepm, hepid⟩ := Table.get?_eq_some.mp ho
    have hep : Reads cleanup db₁ d ep := ⟨hepid, fun _ => hepm⟩
    dsimp only
    by_cases hs : d.status = .inProgress
    · rw [if_pos hs]
      refine Safe.bind (safe_selectForUpdate fun db₂ hr₂ => ?_)
      have hh₂ := hh₁.relies hr₂
      refine ⟨fun hnil db' _ hno => ?_, fun r hrow db₃ hr₃ o ho => ?_, fun r r' rs hrows db' _ hno => ?_⟩
      · obtain ⟨a, ha⟩ := (hh₂.inv hno).leasedAttempts_singleton hh₂.mem hs
        rw [view_nil, ha] at hnil
        cases hnil
      · cases o with
        | none =>
          -- The lock on the delivery has kept the attempt where it was found.
          rw [view_nil] at hrow
          have hr : r ∈ leasedAttempts d db₃ :=
            leasedAttempts_of_attemptsAt (relies_delivery hr₃ hh₂.lock).2 (hrow ▸ List.mem_singleton_self r)
          exact absurd (List.find?_eq_none.mp ho r hr) (by simp)
        | some a =>
          exact expired_safe ((hh₂.relies hr₃).subset (List.subset_cons_self _ L))
            ((hep.relies hh₁ hr₂).relies hh₂ hr₃) hs (List.mem_of_find?_eq_some ho)
      · obtain ⟨a, ha⟩ := (hh₂.inv hno).leasedAttempts_singleton hh₂.mem hs
        rw [view_nil, ha] at hrows
        cases hrows
    · rw [if_neg hs]
      have hwait : d.status = .pending ∨ d.status = .retryWait := by
        rcases hh.due with h | h <;> rcases claimable_cases h with ⟨h, -⟩ | ⟨h, -⟩
        · exact h
        · exact absurd h hs
        · exact h
        · exact absurd h hs
      cases hu : w.unclaimableDueReason d ep.enabled with
      | some reason =>
        have htrans : ensureTransition d.status .deadLettered = .ok () := by
          rcases hwait with h | h <;> rw [h] <;> rfl
        refine Safe.map ?_
        unfold deadLetterWithoutAttempt
        rw [htrans, lift_ok_bind]
        refine safe_updateDelivery fun db₂ hr₂ => ⟨fun c _ db' _ _ => ⟨c, rfl⟩, fun hok => ?_⟩
        intro db₃ hr₃
        have hr : (contract lib cleanup).Relies [] L db₁ db₃ :=
          hr₂.trans (hr₃.subset fun i hi => by simp [hi])
        exact .claim (hh₁.relies hr).mem (by simp [hh.lock]) hh.due (hep.relies hh₁ hr).mem hep.id
          (.drop hwait hu) (violation_append.mp hok).1 (fun _ h => by cases h) (fun _ h => by cases h)
      | none =>
        obtain ⟨he, hrem⟩ := unclaimableDueReason_eq_none hu
        have htrans : ensureTransition d.status .inProgress = .ok () := by
          rcases hwait with h | h <;> rw [h] <;> rfl
        dsimp only
        rw [htrans, lift_ok_bind]
        have hcl : Closes db₁ d none := by constructor <;> rintro _ ⟨⟩
        refine reserve_safe hh₁ hep hcl rfl rfl (fun x => rfl) ?_
        intro x ev hx hatx hev hmem
        exact .lease hev hmem hwait he hrem

/-- The selection locks a due delivery, or none. -/
theorem lockFirst_safe {F : Error → Db → Prop}
    {R : Option Delivery → List UUID → List Write → List Lock → Db → Prop} {ds : List Delivery}
    (hinv : ¬cleanup → Inv lib db)
    (hds : ∀ d ∈ ds, claimable (draw.clock d.id) d = true ∧
      (¬cleanup → ∃ d' ∈ db.deliveries, SameDelivery d d'))
    (hnone : ∀ {db' L'}, R none [] [] L' db')
    (hsome : ∀ {db' L' d}, Held lib cleanup draw L' db' d → R (some d) [] [] L' db') :
    (contract lib cleanup).Safe F R (lockFirst draw.reclock ds) [] [] L db := by
  induction ds generalizing L db with
  | nil => exact fun db' _ => hnone
  | cons d ds ih =>
    -- Whatever happens to `d`, the rest of the selection can be tried.
    have rest : ∀ {db' L'}, (contract lib cleanup).Relies [] L db db' →
        (contract lib cleanup).Safe F R (lockFirst draw.reclock ds) [] [] L' db' := by
      intro db' L' hr
      refine ih (relies_inv hr hinv) fun x hx => ?_
      obtain ⟨hcl, hold⟩ := hds x (List.mem_cons_of_mem d hx)
      refine ⟨hcl, fun hno => ?_⟩
      obtain ⟨x', hx', hsame⟩ := hold hno
      obtain ⟨x'', hx'', hsame', -⟩ :=
        (relies_persist hr fun hc => absurd hc hno).deliveries x' hx'
      exact ⟨x'', hx'', hsame.trans hsame'⟩
    obtain ⟨hcl, hold⟩ := hds d List.mem_cons_self
    unfold lockFirst
    refine Safe.tryAcquire fun db₁ hr₁ => ⟨?_, rest hr₁⟩
    refine Safe.tryAcquire fun db₂ hr₂ => ?_
    have hr₂' := hr₁.trans (hr₂.subset (List.subset_cons_self _ L))
    refine ⟨Safe.query fun db₃ hr₃ o ho => ?_, rest hr₂'⟩
    have hr₃' := hr₂'.trans (hr₃.subset fun i hi => by simp [hi])
    cases o with
    | none => exact rest hr₃'
    | some row =>
      obtain ⟨hm, hid⟩ := Table.get?_eq_some.mp ho
      dsimp only
      split
      · rename_i hdue
        intro db₄ hr₄
        refine hsome (Held.relies ⟨relies_inv hr₃' hinv, hm, by simp [hid], ?_, fun hno => ?_⟩ hr₄)
        · rcases Bool.or_eq_true_iff.mp hdue with h | h
          · exact .inl (of_decide_eq_true h ▸ hcl)
          · exact .inr (hid ▸ h)
        · obtain ⟨d', hd', hsame⟩ := hold hno
          obtain ⟨d'', hd'', hsame', -⟩ :=
            (relies_persist hr₃' fun hc => absurd hc hno).deliveries d' hd'
          have : row = d'' := Table.eq_of_key hm hd'' (hid.trans (hsame.trans hsame').id.symm)
          simp [this, (hsame.trans hsame').endpointId]
      · exact rest hr₃'

/-- `claim_one` keeps its part of the contract. -/
theorem claimOne_safe (hinv : ¬cleanup → Inv lib b) :
    (contract lib cleanup).Safe ((contract lib cleanup).fails (.claimOne w draw) b)
      (fun c _ ws L db => Step lib cleanup L db (.claimOne w draw) (.claimed c) (view ws db))
      (w.claimOne draw) [] [] [] b := by
  unfold claimOne
  refine Safe.query fun db₁ hr₁ ds hds => Safe.bind ?_
  rw [view_nil] at hds
  subst hds
  refine lockFirst_safe (relies_inv hr₁ hinv) (fun d hd => ?_) ?_ ?_
  · simp only [claimCandidates, List.mem_insertionSort, List.mem_filter, Bool.and_eq_true] at hd
    exact ⟨hd.2.1, fun _ => ⟨d, hd.1, .refl d⟩⟩
  · intro db' L' db'' _
    exact .idle
  · intro db' L' d hh
    exact Safe.map (claimLocked_safe hh)

end EventHarbor
