import EventHarbor.Refinement.Rules

/-!
# Finalizing refines its step
-/

namespace EventHarbor

open Relational Txn Contract DeliveryWorker

variable {lib : Lib} {cleanup : Prop} {g : List UUID} {L : List Lock} {db db' : Db}
  {webhook : OutboundWebhook} {w : DeliveryWorker} {d : Delivery}

/-- A row lock keeps a lease as it was found. -/
theorem relies_owned (h : (contract lib cleanup).Relies g L db db')
    (hL : Lock.delivery d.id .update ∈ L) (hd : d ∈ ownedDeliveries w webhook db) :
    d ∈ ownedDeliveries w webhook db' := by
  obtain ⟨hm, hrest⟩ := mem_ownedDeliveries.mp hd
  exact mem_ownedDeliveries.mpr ⟨(relies_delivery h hL).1 d hm rfl, hrest⟩

theorem relies_claimed (h : (contract lib cleanup).Relies g L db db')
    (hL : Lock.delivery webhook.deliveryId .update ∈ L) {a : DeliveryAttempt}
    (ha : a ∈ claimedAttempts webhook db) : a ∈ claimedAttempts webhook db' := by
  obtain ⟨hm, hid, hda, hrest⟩ := mem_claimedAttempts.mp ha
  have hmem : a ∈ db'.attemptsAt webhook.deliveryId :=
    (relies_delivery h hL).2 ▸ Db.mem_attemptsAt.mpr ⟨hm, hda⟩
  exact mem_claimedAttempts.mpr ⟨(Db.mem_attemptsAt.mp hmem).1, hid, hda, hrest⟩

theorem relies_issued (h : (contract lib cleanup).Relies g L db db') (hno : ¬cleanup)
    (hi : Issued webhook db) : Issued webhook db' :=
  hi.persist (relies_persist h fun hc => absurd hc hno)

/-- A webhook that no longer fits a lease never fits one again. -/
theorem relies_stale (h : (contract lib cleanup).Relies g L db db') (hno : ¬cleanup)
    (hi : Issued webhook db)
    (hs : ∀ d ∈ ownedDeliveries w webhook db, d.attemptCount ≠ webhook.attemptNumber) :
    ∀ d ∈ ownedDeliveries w webhook db', d.attemptCount ≠ webhook.attemptNumber := by
  have := relies_induction (P := fun x => Issued webhook x ∧
    ∀ d ∈ ownedDeliveries w webhook x, d.attemptCount ≠ webhook.attemptNumber) h ?_ ⟨hi, hs⟩
  · exact this.2
  · rintro x x' L' r a - - hstep ⟨hi, hs⟩
    exact ⟨hi.persist (hstep.effect.persist fun hc => absurd hc hno),
      fun d hd => hs d (hstep.owned hi hd)⟩

theorem owned_ne_pair {d₁ d₂ : Delivery} {ds : List Delivery} :
    ownedDeliveries w webhook db ≠ d₁ :: d₂ :: ds :=
  Table.filter_ne_pair (k := webhook.deliveryId) fun r hr => by
    simp only [Bool.and_eq_true, decide_eq_true_eq] at hr
    exact hr.1.1.1

theorem claimed_ne_pair {a₁ a₂ : DeliveryAttempt} {as : List DeliveryAttempt} :
    claimedAttempts webhook db ≠ a₁ :: a₂ :: as :=
  Table.filter_ne_pair (k := webhook.attemptId) fun r hr => by
    simp only [Bool.and_eq_true, decide_eq_true_eq] at hr
    exact hr.1.1.1.1

/-- The only errors of the retry computation. -/
theorem target_error {result : AttemptResult} {f : ℚ} {e : Error}
    (h : target w webhook result f = .error e) :
    (∃ m, e = .value m) ∧ (webhook.attemptNumber < 1 ∨ ¬(0 ≤ f ∧ f ≤ 1)) := by
  unfold target at h
  cases hd : result.disposition with
  | succeeded => simp [hd] at h
  | terminalFailure => simp [hd] at h
  | retry =>
    simp only [hd] at h
    split at h
    · unfold RetryPolicy.delaySeconds at h
      by_cases hn : webhook.attemptNumber < 1
      · simp only [if_pos hn, Except.error.injEq] at h
        exact ⟨⟨_, h.symm⟩, .inl hn⟩
      · by_cases hf : 0 ≤ f ∧ f ≤ 1
        · simp [hn, hf] at h
        · simp only [if_neg hn, hf, not_false_eq_true, if_true, Except.error.injEq] at h
          exact ⟨⟨_, h.symm⟩, .inr hf⟩
    · cases h

theorem foreseen_value (m : String) : (Error.value m).Foreseen := ⟨by simp, by simp, by simp⟩

/-- The writes of an accepted result violate nothing. -/
theorem Inv.settle_checks (h : Inv lib db) {result : AttemptResult} {f : ℚ}
    {status : DeliveryStatus} {delay : Option ℚ} {a : DeliveryAttempt} {now : Time}
    (hr : result.storable = true) (ht : target w webhook result f = .ok (status, delay))
    (hd : d ∈ ownedDeliveries w webhook db) (ha : a ∈ claimedAttempts webhook db)
    (hn : 1 ≤ webhook.attemptNumber) :
    violation (Write.checks (.updateDelivery (settled d result status (delay.map (now + ·)) now))
      db) = none ∧
    violation (Write.checks (.updateAttempt (completed a result (delay.map (now + ·)) now))
      (view [Write.updateDelivery (settled d result status (delay.map (now + ·)) now)] db)) = none := by
  obtain ⟨hm, -, hs, -, -⟩ := mem_ownedDeliveries.mp hd
  obtain ⟨ham, -, -, hnum, -, -⟩ := mem_claimedAttempts.mp ha
  have hstatus : status ≠ .inProgress := by
    rcases target_cases ht with ⟨rfl, -⟩ | ⟨rfl, -⟩ | ⟨rfl, -⟩ <;> simp
  constructor
  · exact violation_append.mpr ⟨settled_checks hr (h.deliveryChecks d hm) hstatus _ _,
      h.deliveryUnique hm ⟨rfl, rfl, rfl, rfl, rfl, rfl, rfl⟩ (active_of_inProgress hs)⟩
  · have hu : violation (db.attemptUnique (completed a result (delay.map (now + ·)) now)) = none :=
      h.attemptUnique ham ⟨rfl, rfl, rfl, rfl⟩ (by simp [completed])
    exact violation_append.mpr ⟨completed_checks hr (hnum ▸ hn) _ _, hu⟩

/-- The statements of `finalize` on a delivery it has locked. -/
theorem settle_safe {result : AttemptResult} {draw : FinalizeDraw} {b : Db}
    {status : DeliveryStatus} {delay : Option ℚ}
    (ht : target w webhook result draw.randomFraction = .ok (status, delay))
    (hd : d ∈ ownedDeliveries w webhook db) (hL : Lock.delivery webhook.deliveryId .update ∈ L)
    (hinv : ¬cleanup → Inv lib db) (hissued : ¬cleanup → Issued webhook db) :
    (contract lib cleanup).Safe
      ((contract lib cleanup).fails (.finalize w webhook result draw) b)
      (fun ok _ ws L db => Step lib cleanup L db (.finalize w webhook result draw)
        (.finalized ok) (view ws db))
      (finalizeLocked webhook result status delay draw.databaseNow d) [] [] L db := by
  unfold finalizeLocked
  obtain ⟨-, hdid, hs, -, -⟩ := mem_ownedDeliveries.mp hd
  have hLd : Lock.delivery d.id .update ∈ L := hdid ▸ hL
  split
  · rename_i hne
    intro db₁ hr₁
    refine .stale fun hno => relies_stale hr₁ hno (hissued hno) fun d' hd' => ?_
    obtain ⟨hm', hid', -⟩ := mem_ownedDeliveries.mp hd'
    rw [Table.eq_of_key hm' (mem_ownedDeliveries.mp hd).1 (hid'.trans hdid.symm)]
    exact hne
  · rename_i hcount
    have hcount : d.attemptCount = webhook.attemptNumber := by simpa using hcount
    -- The evidence of the lease is there whenever it is looked up.
    have evidence : ∀ {db'}, (contract lib cleanup).Relies [] L db db' → ¬cleanup →
        ∃ a, a ∈ claimedAttempts webhook db' := by
      intro db' hr hno
      obtain ⟨a, ha, -⟩ := (relies_inv hr hinv hno).claimed_of_owned
        (relies_issued hr hno (hissued hno)) (relies_owned hr hLd hd)
      exact ⟨a, ha⟩
    refine safe_selectForUpdate fun db₁ hr₁ => ⟨fun hnil => ?_, fun r hrow db₂ hr₂ o ho => ?_, ?_⟩
    · intro db' hr' hno
      obtain ⟨a, ha⟩ := evidence hr₁ hno
      rw [view_nil] at hnil
      rw [hnil] at ha
      cases ha
    · have hrid : r.id = webhook.attemptId := by
        rw [view_nil] at hrow
        exact (mem_claimedAttempts.mp (hrow ▸ List.mem_singleton_self r)).2.1
      cases o with
      | none =>
        intro db' hr' hno
        obtain ⟨a, ha⟩ := evidence (hr₁.trans hr₂) hno
        have := List.find?_eq_none.mp ho a ha
        rw [hrid] at this
        exact absurd (mem_claimedAttempts.mp ha).2.1 (by simpa using this)
      | some a =>
        have ha : a ∈ claimedAttempts webhook db₂ := List.mem_of_find?_eq_some ho
        dsimp only
        rw [hs, ensureTransition_ok (target_allowed ht), lift_ok_bind]
        have hn : ¬cleanup → 1 ≤ webhook.attemptNumber := fun hno =>
          (hinv hno).issued_number (hissued hno)
        -- Neither row can change any more before the commit.
        have keeps : ∀ {db'}, (contract lib cleanup).Relies [] L db₂ db' →
            d ∈ ownedDeliveries w webhook db' ∧ a ∈ claimedAttempts webhook db' ∧
              (¬cleanup → Inv lib db') := by
          intro db' hr
          exact ⟨relies_owned ((hr₁.trans hr₂).trans hr) hLd hd, relies_claimed hr hL ha,
            relies_inv ((hr₁.trans hr₂).trans hr) hinv⟩
        -- What can be stored can be sent, so a refusal by the driver says it cannot.
        have refused : ∀ {text e},
            bindText text = .error e → (result.storable = true → bindText text = .ok ()) →
            e.Foreseen ∧ ¬(result.storable = true ∧ FinalizeDraw.Fair draw) := by
          intro text e he hsent
          obtain ⟨c, rfl⟩ := bindText_error he
          exact ⟨foreseen_database c, fun hacc => by rw [hsent hacc.1] at he; cases he⟩
        cases hbind : bindText (lastError result) with
        | error e => exact fun _ _ _ => refused hbind fun hstore => (AttemptResult.storable_bind hstore).1
        | ok u =>
        rw [lift_ok_bind]
        refine safe_updateDelivery fun db₃ hr₃ => ⟨fun c hc db' hr' hno => ?_, fun hok₁ => ?_⟩
        · refine ⟨foreseen_database c, fun hacc => ?_⟩
          obtain ⟨hd₃, ha₃, hinv₃⟩ := keeps (hr₃.subset fun i hi => by simp [hi])
          rw [view_nil, ((hinv₃ hno).settle_checks hacc.1 ht hd₃ ha₃ (hn hno)).1] at hc
          cases hc
        have hp₃ := hr₃.subset (List.subset_cons_self _ L)
        cases hbind' : bindText result.errorMessage with
        | error e => exact fun _ _ _ => refused hbind' fun hstore => (AttemptResult.storable_bind hstore).2
        | ok u =>
        rw [lift_ok_bind]
        refine safe_updateAttempt fun db₄ hr₄ => ⟨fun c hc db' hr' hno => ?_, fun hok₂ => ?_⟩
        · refine ⟨foreseen_database c, fun hacc => ?_⟩
          obtain ⟨hd₄, ha₄, hinv₄⟩ := keeps (hp₃.trans (hr₄.subset fun i hi => by simp [hi]))
          rw [List.nil_append, ((hinv₄ hno).settle_checks hacc.1 ht hd₄ ha₄ (hn hno)).2] at hc
          cases hc
        intro db₅ hr₅
        have hp₄ := hp₃.trans (hr₄.subset fun i hi => by simp [hi])
        obtain ⟨hd₅, ha₅, -⟩ := keeps (hp₄.trans (hr₅.subset fun i hi => by simp [hi]))
        exact .settle ht hd₅ hcount ha₅ (by simp [hLd]) (violation_append.mp hok₁).1
          (violation_append.mp hok₂).1
    · intro r r' rs hrows
      exact absurd hrows claimed_ne_pair

/-- `finalize` keeps its part of the contract. -/
theorem finalize_safe {result : AttemptResult} {draw : FinalizeDraw} {b : Db}
    (hinv : ¬cleanup → Inv lib b) (hissued : ¬cleanup → Issued webhook b) :
    (contract lib cleanup).Safe
      ((contract lib cleanup).fails (.finalize w webhook result draw) b)
      (fun ok _ ws L db => Step lib cleanup L db (.finalize w webhook result draw)
        (.finalized ok) (view ws db))
      (w.finalize webhook result draw) [] [] [] b := by
  unfold finalize
  cases ht : target w webhook result draw.randomFraction with
  | error e =>
    rw [lift_error_bind]
    intro db hr hno
    obtain ⟨⟨m, rfl⟩, hbad⟩ := target_error ht
    refine ⟨foreseen_value m, fun hok => ?_⟩
    have := (hinv hno).issued_number (hissued hno)
    rcases hbad with hbad | hbad
    · omega
    · exact hbad hok.2
  | ok t =>
    obtain ⟨status, delay⟩ := t
    rw [lift_ok_bind]
    refine safe_selectForUpdate fun db₁ hr₁ => ⟨fun hnil => ?_, fun r hrow db₂ hr₂ o ho => ?_, ?_⟩
    · -- No lease fits: nothing is changed.
      intro db₂ hr₂
      refine .stale fun hno => relies_stale hr₂ hno (relies_issued hr₁ hno (hissued hno)) ?_
      rw [view_nil] at hnil
      simp [hnil]
    · have hrid : r.id = webhook.deliveryId := by
        rw [view_nil] at hrow
        exact (mem_ownedDeliveries.mp (hrow ▸ List.mem_singleton_self r)).2.1
      have hi₂ : ¬cleanup → Issued webhook db₂ := fun hno =>
        relies_issued (hr₁.trans hr₂) hno (hissued hno)
      rw [hrid] at ho ⊢
      cases o with
      | none =>
        intro db₃ hr₃
        refine .stale fun hno => relies_stale hr₃ hno (hi₂ hno) fun d hd => ?_
        exact absurd (mem_ownedDeliveries.mp hd).2.1 (by simpa using List.find?_eq_none.mp ho d hd)
      | some d =>
        exact settle_safe ht (List.mem_of_find?_eq_some ho) (by simp)
          (relies_inv (hr₁.trans hr₂) hinv) hi₂
    · intro r r' rs hrows
      exact absurd hrows owned_ne_pair

end EventHarbor
