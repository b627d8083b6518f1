import EventHarbor.Refinement.Discipline

/-!
# Every transaction keeps its locking discipline
-/

namespace EventHarbor

open Relational Txn EventService ReplayService DeliveryWorker Maintenance

/-! ## Repositories -/

section Repositories

variable {α : Type} {D : Discipline Db Write Lock UUID} {K : Set UUID} {L : List Lock}

theorem guarded_scalarOneOrNone {rows : Db → List α} {Q : Option α → Set UUID → List Lock → Prop}
    (h : ∀ o K', K ⊆ K' → Q o K' L) : (scalarOneOrNone rows).Guarded D Q K L := by
  refine Guarded.bind (guarded_query fun db => ?_)
  generalize rows db = found
  rcases found with _ | ⟨r, _ | ⟨r', rest⟩⟩
  · exact h none _ Set.subset_union_left
  · exact h (some r) _ Set.subset_union_left
  · trivial

theorem guarded_selectForUpdate {key : α → UUID} {rowLock : UUID → Lock} {rows : Db → List α}
    {Q : Option α → Set UUID → List Lock → Prop} (hnone : ∀ K', K ⊆ K' → Q none K' L)
    (hsome : ∀ db r, r ∈ rows db → D.locks (K ∪ D.learns L db) L (rowLock (key r)) ∧
      ∀ o K', K ⊆ K' → (∀ r' ∈ o, key r' = key r ∧ ∃ db', r' ∈ rows db') →
        Q o K' (rowLock (key r) :: L)) :
    (selectForUpdate key rowLock rows).Guarded D Q K L := by
  refine Guarded.bind (guarded_query fun db => ?_)
  generalize hrows : rows db = found
  rcases found with _ | ⟨r, _ | ⟨r', rest⟩⟩
  · exact hnone _ Set.subset_union_left
  · obtain ⟨hlock, hnext⟩ := hsome db r (hrows ▸ List.mem_singleton_self r)
    refine Guarded.bind (guarded_acquire hlock (guarded_query fun db' => ?_))
    refine hnext _ _ (Set.subset_union_left.trans Set.subset_union_left) fun r' hr' => ?_
    exact ⟨by simpa using List.find?_some hr', db', List.mem_of_find?_eq_some hr'⟩
  · trivial

theorem guarded_foreignKey {i : Lock} {present : Db → Bool} {c : Constraint}
    {Q : Unit → Set UUID → List Lock → Prop} (hi : D.locks K L i)
    (h : ∀ K', K ⊆ K' → Q () K' (i :: L)) : (foreignKey i present c).Guarded D Q K L := by
  refine Guarded.bind (guarded_acquire hi (Guarded.bind fun db => ?_))
  show Guarded D Q (if present db = true then _ else _) _ _
  split
  · exact h _ Set.subset_union_left
  · trivial

theorem guarded_getByReplayRequest {loaded : IdentityMap} {i : UUID} {key : String}
    {Q : Option Delivery → Set UUID → List Lock → Prop} (h : ∀ o K', K ⊆ K' → Q o K' L) :
    (DeliveryRepository.getByReplayRequest loaded i key).Guarded D Q K L :=
  Guarded.bind (guarded_scalarOneOrNone fun _ => h _)

theorem guarded_getActive {loaded : IdentityMap} {i j : UUID}
    {Q : Option Delivery → Set UUID → List Lock → Prop} (h : ∀ o K', K ⊆ K' → Q o K' L) :
    (DeliveryRepository.getActive loaded i j).Guarded D Q K L :=
  Guarded.bind (guarded_scalarOneOrNone fun _ => h _)

theorem guarded_getLatest {loaded : IdentityMap} {i j : UUID}
    {Q : Option Delivery → Set UUID → List Lock → Prop} (h : ∀ o K', K ⊆ K' → Q o K' L) :
    (DeliveryRepository.getLatest loaded i j).Guarded D Q K L :=
  Guarded.bind (guarded_query fun _ => h _ _ Set.subset_union_left)

end Repositories

/-! ## Operations -/

section Operations

variable {α : Type} {replay : Bool} {K : Set UUID} {L : List Lock}

/-- A lock that is neither on an event nor on a delivery. -/
theorem Granted.ranked {i : Lock} (hrank : ∀ j ∈ L, j.rank < i.rank)
    (hi : i.rank ≠ 1 ∧ i.rank ≠ 2 ∧ i.rank ≠ 7) : Granted replay K L i :=
  .above hrank (fun _ _ h => absurd rfl (h ▸ hi).1) (fun _ _ h => absurd rfl (h ▸ hi).2.1)
    fun _ h => absurd rfl (h ▸ hi).2.2

theorem rank_insertDelivery {d : Delivery} {i : Lock} (h : i ∈ (Write.insertDelivery d).keys) :
    i.rank = 3 := by
  simp only [Write.keys, List.mem_cons, List.mem_append] at h
  rcases h with rfl | rfl | h | h
  · rfl
  · rfl
  · split at h
    · rw [List.mem_singleton.mp h]
      rfl
    · cases h
  · split at h
    · rw [List.mem_singleton.mp h]
      rfl
    · cases h

theorem rank_insertAttempt {a : DeliveryAttempt} {i : Lock}
    (h : i ∈ (Write.insertAttempt a).keys) : i.rank = 6 := by
  simp only [Write.keys, List.mem_cons] at h
  rcases h with rfl | rfl | rfl | h
  · rfl
  · rfl
  · rfl
  · split at h
    · rw [List.mem_singleton.mp h]
      rfl
    · cases h

/-- A write that reserves nothing. -/
theorem writes_of_keys {w : Write} (hkeys : w.keys = []) (hdelete : ∀ ids, w ≠ .deleteEvents ids)
    (hinsert : ∀ e, w ≠ .insertEvent e) : (operation replay).writes K L w :=
  ⟨fun _ hi => absurd (hkeys ▸ hi) List.not_mem_nil, hdelete, fun _ => hinsert⟩

theorem locks_covered {i j : Lock} (hj : j ∈ L) (h : j.Covers i) (hi : ∀ k, i ≠ .unique k) :
    (operation replay).locks K L i := ⟨.covered hj h, hi⟩

/-- Inserting a delivery, whose event is locked or one's own. -/
theorem guarded_create {d : Delivery} {Q : Unit → Set UUID → List Lock → Prop}
    (hL : ∀ j ∈ L, j.rank < 3)
    (hevent : .unique (.eventId d.eventId) ∈ L ∨ .event d.eventId .update ∈ L)
    (hsource : ∀ i, d.replayedFromDeliveryId = some i → .delivery i .update ∈ L)
    (hQ : ∀ K' L', Q () K' L') :
    (DeliveryRepository.create d).Guarded (operation replay) Q K L := by
  have hle : ∀ {j}, j ∈ Engine.keys Db (Write.insertDelivery d) ++ L → j.rank ≤ 3 := fun hj =>
    (List.mem_append.mp hj).elim (fun hj => (rank_insertDelivery hj).le) fun hj => (hL _ hj).le
  refine Guarded.bind (guarded_exec ⟨fun i hi => .ranked (fun j hj => ?_) ?_, fun _ h => ?_,
    fun _ _ h => ?_⟩ ?_)
  · exact (rank_insertDelivery hi).symm ▸ hL j hj
  · simp [rank_insertDelivery hi]
  · cases h
  · cases h
  refine Guarded.bind (guarded_foreignKey ⟨?_, by simp⟩ fun K₁ _ => ?_)
  · rcases hevent with hown | hlocked
    · exact .own (List.mem_append_right _ hown)
    · exact .covered (List.mem_append_right _ hlocked) (covers_event _ _)
  refine Guarded.bind (guarded_foreignKey ⟨.ranked (fun j hj => ?_) (by simp [Lock.rank]),
    by simp⟩ fun K₂ _ => ?_)
  · rcases List.mem_cons.mp hj with rfl | hj
    · simp [Lock.rank]
    · exact Nat.lt_succ_of_le (hle hj)
  split
  · exact hQ _ _
  · rename_i source hsome
    refine guarded_foreignKey (locks_covered (j := .delivery source .update) ?_
      (covers_delivery _ _) (by simp)) fun K₃ _ => hQ _ _
    exact List.mem_cons_of_mem _ (List.mem_cons_of_mem _
      (List.mem_append_right _ (hsource source hsome)))

theorem guarded_updateDelivery {d : Delivery} {Q : Unit → Set UUID → List Lock → Prop}
    (hd : .delivery d.id .update ∈ L) (hQ : Q () K (.delivery d.id .noKeyUpdate :: L)) :
    (updateDelivery d).Guarded (operation replay) Q K L :=
  Guarded.bind (guarded_acquire (locks_covered hd (covers_delivery _ _) (by simp))
    (guarded_exec (writes_of_keys rfl (by simp) (by simp)) hQ))

theorem guarded_updateAttempt {a : DeliveryAttempt} {Q : Unit → Set UUID → List Lock → Prop}
    (ha : .attempt a.id .update ∈ L) (hQ : Q () K (.attempt a.id .noKeyUpdate :: L)) :
    (updateAttempt a).Guarded (operation replay) Q K L :=
  Guarded.bind (guarded_acquire (locks_covered ha (covers_attempt _ _) (by simp))
    (guarded_exec (writes_of_keys rfl (by simp) (by simp)) hQ))

end Operations

/-! ## Programs -/

/-- The rest of a program may do as it likes. -/
abbrev Disciplined {α : Type} (r : Bool) (p : Tx α) (K : Set UUID) (L : List Lock) : Prop :=
  p.Guarded (operation r) (fun _ _ _ => True) K L

section Programs

variable {lib : Lib} {K : Set UUID} {L : List Lock}

theorem guarded_acceptInserted {request : EventPublishRequest} {draw : PublishDraw}
    {endpoint : Endpoint} {event : Event} (hL : ∀ j ∈ L, j.rank < 3)
    (hown : .unique (.eventId draw.eventId) ∈ L) :
    Disciplined false (acceptInserted request draw endpoint event) K L := by
  unfold Disciplined acceptInserted
  split
  · trivial
  · refine Guarded.bind (guarded_create hL (.inl hown) (fun i h => by cases h) fun K' L' => ?_)
    refine Guarded.bind (guarded_query fun db => ?_)
    generalize db.events.get? event.id = found
    cases found <;> trivial

theorem guarded_resolve (endpointId : UUID) (key digest : String) :
    Disciplined false (resolveIdempotentReplay endpointId key digest) K L := by
  refine Guarded.bind (guarded_scalarOneOrNone fun o K' _ => ?_)
  cases o with
  | none => trivial
  | some event =>
    dsimp only
    split
    · trivial
    · refine Guarded.bind (guarded_scalarOneOrNone fun o K' _ => ?_)
      cases o <;> trivial

theorem guarded_accept (request : EventPublishRequest) {draw : PublishDraw} (endpoint : Endpoint)
    {event : Event} (hid : event.id = draw.eventId) :
    Disciplined false (accept request draw endpoint event) K [] := by
  refine Guarded.bind ⟨⟨fun i hi => ?_, by simp, by simp⟩, fun e => ?_, ?_⟩
  · refine .ranked (fun j hj => absurd hj List.not_mem_nil) ?_
    simp only [Write.keys, List.mem_cons, List.not_mem_nil, or_false] at hi
    rcases hi with rfl | rfl <;> simp [Lock.rank, UniqueKey.rank]
  · dsimp only
    split
    · rename_i heq
      cases heq
    · exact guarded_resolve _ _ _
    · trivial
  · refine guarded_acceptInserted (fun j hj => ?_) (by simp [Engine.keys, Write.keys, hid])
    simp only [Engine.keys, Write.keys, List.append_nil, List.mem_cons, List.not_mem_nil,
      or_false] at hj
    rcases hj with rfl | rfl <;> simp [Lock.rank, UniqueKey.rank]

theorem guarded_publish (request : EventPublishRequest) (key : String) (draw : PublishDraw) :
    Disciplined false (publish lib request key draw) K [] := by
  refine Guarded.bind (guarded_query fun db => ?_)
  generalize db.endpoints.get? request.endpointId = found
  cases found with
  | none => trivial
  | some endpoint =>
    dsimp only
    cases fingerprint lib request with
    | error e => cases e <;> trivial
    | ok digest =>
      cases canonicalJsonBytes lib.floatRepr (bodyDocument lib request draw) with
      | error e => cases e <;> trivial
      | ok bytes => exact guarded_accept request endpoint rfl

/-- The successor is inserted under the locks on its event and its source. -/
theorem guarded_supersede (loaded : IdentityMap) {source : Delivery} (key : String)
    (draw : ReplayDraw) (hL : ∀ j ∈ L, j.rank < 3)
    (hevent : .event source.eventId .update ∈ L) (hsource : .delivery source.id .update ∈ L) :
    Disciplined true (supersede lib loaded source key draw) K L := by
  refine Guarded.bind (guarded_getLatest fun o K₁ _ => ?_)
  cases o with
  | none => trivial
  | some latest =>
    dsimp only
    split
    · trivial
    split
    · trivial
    refine Guarded.bind (guarded_query fun db => ?_)
    generalize DeliveryRepository.attemptsOf source.id db = attempts
    split
    · trivial
    refine Guarded.bind (guarded_getActive fun o K₃ _ => ?_)
    cases o with
    | some active => trivial
    | none =>
      refine Guarded.bind (guarded_query fun db => ?_)
      generalize db.endpoints.get? source.endpointId = found
      cases found with
      | none => trivial
      | some endpoint =>
        dsimp only
        split
        · trivial
        · refine Guarded.bind (guarded_create hL (.inr hevent) (fun i hi => ?_) fun _ _ => trivial)
          obtain rfl := Option.some.inj hi
          exact hsource

theorem guarded_replay (i : UUID) (key : String) (draw : ReplayDraw) :
    Disciplined true (replay lib i key draw) K [] := by
  refine Guarded.bind (guarded_query fun db => ?_)
  generalize hfound : db.deliveries.get? i = found
  cases found with
  | none => trivial
  | some candidate =>
    obtain ⟨-, hid⟩ := Table.get?_eq_some.mp hfound
    refine Guarded.bind (guarded_selectForUpdate (fun _ _ => trivial) fun db e he => ⟨⟨?_, by simp⟩,
      fun o K₂ _ _ => ?_⟩)
    · -- The event is seen in the statement that locks it.
      refine .above (fun j hj => absurd hj List.not_mem_nil) (fun e' m h => ?_) (by simp) (by simp)
      obtain ⟨rfl, -⟩ := Lock.event.inj h
      exact ⟨rfl, .inr ⟨rfl, fun hfresh => hfresh e (List.mem_filter.mp he).1 rfl⟩⟩
    have heid : e.id = candidate.eventId := by simpa using (List.mem_filter.mp he).2
    rw [heid]
    cases o with
    | none => trivial
    | some e' =>
      refine Guarded.bind (Guarded.bind (guarded_selectForUpdate (fun _ _ => trivial)
        fun db row hrow => ⟨⟨.above (fun j hj => ?_) (by simp) (by simp) (by simp), by simp⟩,
          fun o K₄ _ ho => ?_⟩))
      · rw [List.mem_singleton.mp hj]
        simp [Lock.rank]
      have hrid : row.id = i := by simpa using (List.mem_filter.mp hrow).2
      cases o with
      | none => trivial
      | some row' =>
        -- The row is answered by the object that was loaded first.
        have hrow' : row'.id = candidate.id := ((ho row' rfl).1.trans hrid).trans hid.symm
        have hsource : IdentityMap.resolve [candidate] row' = candidate := by
          simp [IdentityMap.resolve, hrow']
        show Disciplined true
          (replayLocked lib [candidate] (IdentityMap.resolve [candidate] row') key draw) _ _
        rw [hsource]
        refine Guarded.bind (guarded_getByReplayRequest fun o K₅ _ => ?_)
        cases o with
        | some existing => trivial
        | none =>
          refine guarded_supersede _ _ _ (fun j hj => ?_) (by simp) (by simp [hrid, hid])
          simp only [List.mem_cons, List.not_mem_nil, or_false] at hj
          rcases hj with rfl | rfl <;> simp [Lock.rank]

/-- What a claim skips stays locked, like what it finds. -/
theorem guarded_lockFirst {reclock : UUID → Time} {ds : List Delivery}
    {Q : Option Delivery → Set UUID → List Lock → Prop} (hL : ∀ j ∈ L, j.rank ≤ 4)
    (hQ : ∀ o K' L', (∀ j ∈ L', j.rank ≤ 4) → (∀ d ∈ o, .delivery d.id .update ∈ L') → Q o K' L') :
    (lockFirst reclock ds).Guarded (operation false) Q K L := by
  induction ds generalizing K L with
  | nil => exact hQ none K L hL (by simp)
  | cons d ds ih =>
    refine Guarded.bind ⟨.inl ⟨_, _, rfl⟩, ?_, ih hL⟩
    have hL₁ : ∀ j ∈ Lock.delivery d.id .update :: L, j.rank ≤ 4 := by
      simpa [Lock.rank] using hL
    refine Guarded.bind ⟨.inr ⟨_, _, rfl⟩, ?_, ih hL₁⟩
    have hL₂ : ∀ j ∈ Lock.endpoint d.endpointId .update :: Lock.delivery d.id .update :: L,
        j.rank ≤ 4 := by
      simpa [Lock.rank] using hL
    refine Guarded.bind (guarded_query fun db => ?_)
    generalize hfound : db.deliveries.get? d.id = found
    cases found with
    | none => exact ih hL₂
    | some row =>
      dsimp only
      split
      · refine hQ (some row) _ _ hL₂ fun row' hrow' => ?_
        obtain rfl := Option.some.inj hrow'
        simp [(Table.get?_eq_some.mp hfound).2]
      · exact ih hL₂

theorem guarded_reserve (w : DeliveryWorker) (d : Delivery) (endpoint : Endpoint)
    (draw : ClaimDraw) (hL : ∀ j ∈ L, j.rank ≤ 5) (hd : .delivery d.id .update ∈ L) :
    Disciplined false (w.reserve d endpoint draw) K L := by
  refine Guarded.bind (guarded_updateDelivery (d := w.leased d draw) hd ?_)
  refine Guarded.bind (guarded_query fun db => ?_)
  generalize db.events.get? (w.leased d draw).eventId = found
  cases found with
  | none => trivial
  | some event =>
    refine Guarded.bind (guarded_exec ⟨fun i hi => .ranked (fun j hj => ?_) ?_, by simp, by simp⟩ ?_)
    · rw [rank_insertAttempt hi]
      rcases List.mem_cons.mp hj with rfl | hj
      · simp [Lock.rank]
      · exact Nat.lt_succ_of_le (hL j hj)
    · simp [rank_insertAttempt hi]
    · refine Guarded.bind (guarded_foreignKey (locks_covered (j := .delivery d.id .update) ?_
        (covers_delivery _ _) (by simp)) fun _ _ => trivial)
      exact List.mem_append_right _ (List.mem_cons_of_mem _ hd)

theorem guarded_resolveExpired (w : DeliveryWorker) (d : Delivery) (enabled : Bool)
    (draw : ClaimDraw) {Q : Delivery ⊕ DeliveryResolution → Set UUID → List Lock → Prop}
    (hL : ∀ j ∈ L, j.rank ≤ 4) (hd : .delivery d.id .update ∈ L)
    (hresolution : ∀ r K' L', Q (.inr r) K' L')
    (hQ : ∀ d' K' L', d'.id = d.id → (∀ j ∈ L', j.rank ≤ 5) → .delivery d.id .update ∈ L' →
      Q (.inl d') K' L') :
    (w.resolveExpiredAttempt d enabled draw).Guarded (operation false) Q K L := by
  refine Guarded.bind (guarded_selectForUpdate (fun _ _ => trivial) fun db a _ =>
    ⟨⟨.ranked (fun j hj => Nat.lt_succ_of_le (hL j hj)) (by simp [Lock.rank]), by simp⟩,
      fun o K₁ _ ho => ?_⟩)
  cases o with
  | none => trivial
  | some attempt =>
    have hid := (ho attempt rfl).1
    show Guarded _ _ (w.resolveLocked d enabled draw attempt) _ _
    unfold resolveLocked
    dsimp only
    split
    · refine Guarded.bind (guarded_updateDelivery (d := w.expired d enabled draw)
        (List.mem_cons_of_mem _ hd) ?_)
      refine Guarded.bind (guarded_updateAttempt (by simp [indeterminate, hid]) ?_)
      refine hQ _ _ _ rfl (fun j hj => ?_) (by simp [hd])
      simp only [List.mem_cons] at hj
      rcases hj with rfl | rfl | rfl | hj
      · simp [Lock.rank]
      · simp [Lock.rank]
      · simp [Lock.rank]
      · exact (hL j hj).trans (by decide)
    · refine Guarded.bind (guarded_lift fun _ => ?_)
      refine Guarded.bind (guarded_updateDelivery (d := deadLettered d _ _)
        (List.mem_cons_of_mem _ hd) ?_)
      exact Guarded.bind (guarded_updateAttempt (by simp [indeterminate, hid]) (hresolution _ _ _))

theorem guarded_claimOne (w : DeliveryWorker) (draw : ClaimDraw) :
    Disciplined false (w.claimOne draw) K [] := by
  refine Guarded.bind (guarded_query fun db => ?_)
  refine Guarded.bind (guarded_lockFirst (by simp) fun o K₁ L₁ hL₁ hlocked => ?_)
  cases o with
  | none => trivial
  | some d =>
    have hd := hlocked d rfl
    have hL₁' : ∀ j ∈ L₁, j.rank ≤ 5 := fun j hj => (hL₁ j hj).trans (by decide)
    refine Guarded.bind (Guarded.bind (guarded_query fun db => ?_))
    generalize db.endpoints.get? d.endpointId = found
    cases found with
    | none => trivial
    | some endpoint =>
      dsimp only
      split
      · refine Guarded.bind (guarded_resolveExpired w d endpoint.enabled draw hL₁ hd
          (fun r K' L' => trivial) fun d' K' L' hid hL' hd' => ?_)
        exact (guarded_reserve w d' endpoint draw hL' (hid ▸ hd')).imp fun _ _ _ _ _ _ => trivial
      · split
        · exact Guarded.bind (Guarded.bind (guarded_lift fun _ =>
            Guarded.bind (guarded_updateDelivery (d := deadLettered d _ _) hd trivial)))
        · exact Guarded.bind (guarded_lift fun _ =>
            (guarded_reserve w d endpoint draw hL₁' hd).imp fun _ _ _ _ _ _ => trivial)

theorem guarded_finalize (w : DeliveryWorker) (webhook : OutboundWebhook) (result : AttemptResult)
    (draw : FinalizeDraw) : Disciplined false (w.finalize webhook result draw) K [] := by
  refine Guarded.bind (guarded_lift fun target => ?_)
  obtain ⟨status, delay⟩ := target
  refine Guarded.bind (guarded_selectForUpdate (fun _ _ => trivial) fun db d _ =>
    ⟨⟨.above (by simp) (by simp) (by simp) (by simp), by simp⟩, fun o K₁ _ ho => ?_⟩)
  cases o with
  | none => trivial
  | some d' =>
    have hid := (ho d' rfl).1
    show Disciplined false (finalizeLocked webhook result status delay draw.databaseNow d') _ _
    unfold Disciplined finalizeLocked
    split
    · trivial
    refine Guarded.bind (guarded_selectForUpdate (fun _ _ => trivial) fun db a _ =>
      ⟨⟨.ranked (by simp [Lock.rank]) (by simp [Lock.rank]), by simp⟩, fun o K₂ _ ho' => ?_⟩)
    cases o with
    | none => trivial
    | some attempt =>
      refine Guarded.bind (guarded_lift fun _ => Guarded.bind (guarded_lift fun _ => ?_))
      refine Guarded.bind (guarded_updateDelivery (by simp [settled, hid]) ?_)
      refine Guarded.bind (guarded_lift fun _ => ?_)
      exact Guarded.bind (guarded_updateAttempt (by simp [completed, (ho' attempt rfl).1]) trivial)

end Programs

/-! ## Cleanup -/

section Cleanup

variable {K : Set UUID} {L : List Lock}

theorem guarded_lockAll {D : Discipline Db Write Lock UUID} {rowLock : UUID → Lock}
    {ids : List UUID} {Q : Unit → Set UUID → List Lock → Prop}
    (hids : ∀ i ∈ ids, ∀ L', L ⊆ L' → D.locks K L' (rowLock i))
    (hQ : ∀ L', L ⊆ L' → (∀ i ∈ ids, rowLock i ∈ L') → Q () K L') :
    (lockAll rowLock ids).Guarded D Q K L := by
  induction ids generalizing L with
  | nil => exact hQ L (List.Subset.refl L) (by simp)
  | cons i ids ih =>
    have hsub := List.subset_cons_self (rowLock i) L
    refine Guarded.bind (guarded_acquire (hids i List.mem_cons_self L (List.Subset.refl L)) ?_)
    refine ih (fun j hj L' hL' => hids j (List.mem_cons_of_mem i hj) L' (List.Subset.trans hsub hL'))
      fun L' hL' hall => hQ L' (List.Subset.trans hsub hL') fun j hj => ?_
    rcases List.mem_cons.mp hj with rfl | hj
    · exact hL' List.mem_cons_self
    · exact hall j hj

theorem guarded_deleteDeliveries {eventIds : List UUID} {Q : Unit → Set UUID → List Lock → Prop}
    (hm : maintenanceLock ∈ L) (hQ : ∀ K' L', maintenanceLock ∈ L' → Q () K' L') :
    (deleteDeliveries eventIds).Guarded cleaning Q K L := by
  refine Guarded.bind fun db => ?_
  refine Guarded.bind (guarded_lockAll (fun i _ L' hL' => ⟨hL' hm, .inl ⟨_, _, rfl⟩⟩)
    fun L' hL' _ => ?_)
  exact Guarded.bind (guarded_query fun db' => guarded_exec ⟨hL' hm, .inl ⟨_, rfl⟩⟩
    (hQ _ _ (hL' hm)))

theorem guarded_deleteEvents {eventIds : List UUID} {Q : ℕ → Set UUID → List Lock → Prop}
    (hm : maintenanceLock ∈ L) (hQ : ∀ n K' L', maintenanceLock ∈ L' → Q n K' L') :
    (deleteEvents eventIds).Guarded cleaning Q K L := by
  refine Guarded.bind (guarded_query fun db => ?_)
  refine Guarded.bind (guarded_lockAll (fun i hi L' hL' => ⟨hL' hm, .inr ⟨_, _, rfl, .inr ⟨hm, ?_⟩⟩⟩)
    fun L' hL' hall => ?_)
  · obtain ⟨e, he⟩ := Option.isSome_iff_exists.mp (List.mem_filter.mp hi).2
    obtain ⟨hmem, hid⟩ := Table.get?_eq_some.mp he
    exact fun hfresh => hfresh e hmem hid
  · refine Guarded.bind (guarded_query fun db' => Guarded.bind (guarded_exec ⟨hL' hm,
      .inr ⟨_, rfl, fun i hi => hall i (List.mem_filter.mp hi).1⟩⟩ (hQ _ _ _ (hL' hm))))

theorem guarded_purgeLoop (cutoff : Time) (batchSize maxEvents fuel : ℕ) :
    ∀ deleted batches K L, maintenanceLock ∈ L →
      (purgeLoop cutoff batchSize maxEvents fuel deleted batches).Guarded cleaning
        (fun _ _ _ => True) K L := by
  induction fuel with
  | zero => exact fun _ _ _ _ _ => trivial
  | succ fuel ih =>
    intro deleted batches K L hm
    unfold purgeLoop
    split
    · refine Guarded.bind (Guarded.bind fun db => ?_)
      show Guarded _ _ (if _ then _ else _) _ _
      split
      · exact trivial
      · refine Guarded.bind (guarded_deleteDeliveries hm fun K₁ L₁ hm₁ =>
          guarded_deleteEvents hm₁ fun n K₂ L₂ hm₂ => ?_)
        split
        · trivial
        · exact ih _ _ _ _ hm₂
    · trivial

theorem guarded_purge (cutoff : Time) (batchSize maxEvents : ℕ) :
    (purgeExpiredDemoEvents cutoff batchSize maxEvents).Guarded cleaning
      (fun _ _ _ => True) K [] := by
  unfold purgeExpiredDemoEvents
  split
  · trivial
  split
  · trivial
  · exact Guarded.bind ⟨rfl, guarded_purgeLoop _ _ _ _ _ _ _ _ List.mem_cons_self, trivial⟩

end Cleanup

/-- Every request keeps its discipline. -/
theorem guarded_code (lib : Lib) (r : Request) :
    (r.code lib).Guarded (discipline r) (fun _ _ _ => True) ∅ [] := by
  cases r with
  | createEndpoint url request draw =>
    refine Guarded.bind ?_
    unfold EndpointService.create
    dsimp only
    split
    · trivial
    · refine Guarded.bind (guarded_exec ⟨fun i hi => .ranked (by simp) ?_, by simp, by simp⟩
        trivial)
      rw [List.mem_singleton.mp hi]
      simp [Lock.rank, UniqueKey.rank]
  | setEnabled i b now =>
    refine Guarded.bind (Guarded.bind (guarded_query fun db => ?_))
    generalize db.endpoints.get? i = found
    cases found with
    | none => trivial
    | some _ =>
      refine Guarded.bind (guarded_acquire ⟨.ranked (by simp) (by simp [Lock.rank]), by simp⟩ ?_)
      refine Guarded.bind (guarded_query fun db' => ?_)
      generalize db'.endpoints.get? i = found
      cases found with
      | none => trivial
      | some row =>
        exact Guarded.bind (guarded_exec (writes_of_keys rfl (by simp) (by simp)) trivial)
  | publish request key draw =>
    exact Guarded.bind ((guarded_publish request key draw).imp fun _ _ _ _ _ _ => trivial)
  | replay i key draw =>
    exact Guarded.bind ((guarded_replay i key draw).imp fun _ _ _ _ _ _ => trivial)
  | claimOne w draw => exact Guarded.bind ((guarded_claimOne w draw).imp fun _ _ _ _ _ _ => trivial)
  | finalize w webhook result draw =>
    exact Guarded.bind ((guarded_finalize w webhook result draw).imp fun _ _ _ _ _ _ => trivial)
  | purge cutoff batchSize maxEvents =>
    exact Guarded.bind ((guarded_purge cutoff batchSize maxEvents).imp fun _ _ _ _ _ _ => trivial)

end EventHarbor
