import EventHarbor.Refinement.Rules

/-!
# Manual replay refines its steps

The event lock keeps the chain of the source from growing; a dead-lettered
source never changes again, so the copy that was read before any lock is still
the row.
-/

namespace EventHarbor

open Relational Txn Contract ReplayService

variable {lib : Lib} {cleanup : Prop} {b db db' : Db} {i : UUID} {key : String} {draw : ReplayDraw}
  {source : Delivery}

/-! ## Reads -/

/-- The newest generation found has the largest number. -/
theorem latestOf_max {e ep : UUID} {d : Delivery}
    (h : DeliveryRepository.latestOf e ep db = some d) :
    ∀ x ∈ db.deliveries, x.eventId = e → x.endpointId = ep →
      x.replayGeneration ≤ d.replayGeneration := by
  intro x hx he hep
  unfold DeliveryRepository.latestOf at h
  have hsorted := List.pairwise_insertionSort
    (fun a b : Delivery => b.replayGeneration ≤ a.replayGeneration)
    (db.deliveries.rows.filter fun d => d.eventId = e && d.endpointId = ep)
  have hx' : x ∈ (db.deliveries.rows.filter fun d => d.eventId = e && d.endpointId = ep).insertionSort
      fun a b => b.replayGeneration ≤ a.replayGeneration :=
    (List.mem_insertionSort _).mpr (List.mem_filter.mpr ⟨hx, by simp [he, hep]⟩)
  obtain ⟨rest, hrest⟩ := List.head?_eq_some_iff.mp h
  rw [hrest] at hsorted hx'
  rcases List.mem_cons.mp hx' with rfl | hx'
  · exact le_refl _
  · exact List.rel_of_pairwise_cons hsorted hx'

theorem latestOf_mem {e ep : UUID} {d : Delivery}
    (h : DeliveryRepository.latestOf e ep db = some d) :
    d ∈ db.deliveries ∧ d.eventId = e ∧ d.endpointId = ep := by
  obtain ⟨hd, hcond⟩ := List.mem_filter.mp
    ((List.mem_insertionSort _).mp (List.mem_of_mem_head? h))
  simp only [Bool.and_eq_true, decide_eq_true_eq] at hcond
  exact ⟨hd, hcond⟩

theorem latestOf_none {e ep : UUID} (h : DeliveryRepository.latestOf e ep db = none) :
    ∀ x ∈ db.deliveries, x.eventId = e → x.endpointId ≠ ep := by
  intro x hx he hep
  unfold DeliveryRepository.latestOf at h
  have hmem : x ∈ (db.deliveries.rows.filter fun d => d.eventId = e && d.endpointId = ep).insertionSort
      fun a b => b.replayGeneration ≤ a.replayGeneration :=
    (List.mem_insertionSort _).mpr (List.mem_filter.mpr ⟨hx, by simp [he, hep]⟩)
  rw [List.head?_eq_none_iff.mp h] at hmem
  cases hmem

/-! ## The source -/

/-- The stored row of a delivery that was read earlier. -/
structure Stored (source : Delivery) (db : Db) : Prop where
  row : ∃ row ∈ db.deliveries, SameDelivery source row ∧ (source.status.active = false → row = source)

theorem Stored.persist (h : Stored source db) (hp : Persist db db') : Stored source db' := by
  obtain ⟨row, hrow, hsame, hend⟩ := h.row
  obtain ⟨row', hrow', hsame', hend', -⟩ := hp.deliveries row hrow
  refine ⟨row', hrow', hsame.trans hsame', fun hf => ?_⟩
  have := hend hf
  subst this
  exact hend' hf

/-- A row with the id of the source has its identity. -/
theorem Stored.same (h : Stored source db) {d : Delivery} (hd : d ∈ db.deliveries)
    (hid : d.id = source.id) : SameDelivery source d := by
  obtain ⟨row, hrow, hsame, -⟩ := h.row
  exact Table.eq_of_key hd hrow (hid.trans hsame.id.symm) ▸ hsame

theorem Stored.mem (h : Stored source db) (hs : source.status = .deadLettered) :
    source ∈ db.deliveries := by
  obtain ⟨row, hrow, -, hend⟩ := h.row
  exact hend (by rw [hs]; rfl) ▸ hrow

/-- An object answered from the identity map has the identity of its row. -/
theorem Stored.resolve (h : Stored source db) {d : Delivery} (hd : d ∈ db.deliveries) :
    SameDelivery (IdentityMap.resolve [source] d) d := by
  unfold IdentityMap.resolve
  by_cases hid : source.id = d.id
  · simpa [hid] using h.same hd hid.symm
  · simpa [hid] using SameDelivery.refl d

/-- The source is the newest generation of its event. -/
def Newest (source : Delivery) (db : Db) : Prop :=
  ∀ d ∈ db.deliveries, d.eventId = source.eventId → d.replayGeneration ≤ source.replayGeneration

/-- The newest generation has no successor. -/
theorem Newest.no_successor (h : Newest source db) (hinv : Inv lib db) (hs : Stored source db)
    {d : Delivery} (hd : d ∈ db.deliveries) : d.replayedFromDeliveryId ≠ some source.id := by
  intro hf
  obtain ⟨p, hp, hpid, hpe, hg⟩ := hinv.source_of hd hf
  have hsame := hs.same hp hpid
  have := h d hd (hpe.symm.trans hsame.eventId)
  rw [hg, hsame.replayGeneration] at this
  omega

/-- The chain of a dead-lettered newest generation has no active one. -/
theorem Newest.no_active (h : Newest source db) (hinv : Inv lib db) (hs : Stored source db)
    (hdead : source.status = .deadLettered) {d : Delivery} (hd : d ∈ db.deliveries)
    (he : d.eventId = source.eventId) : d.status.active = false := by
  have hm := hs.mem hdead
  have hmem : d ∈ db.deliveriesAt source.eventId := Db.mem_deliveriesAt.mpr ⟨hd, he⟩
  have hmem' : source ∈ db.deliveriesAt source.eventId := Db.mem_deliveriesAt.mpr ⟨hm, rfl⟩
  rcases Nat.lt_or_eq_of_le (h d hd he) with hlt | heq
  · rw [(hinv.chain_of hm).dead_of_lt hmem hmem' hlt]
    rfl
  · rw [(hinv.chain_of hm).eq_of_generation hmem hmem' heq, hdead]
    rfl

/-- Under the event lock the newest generation stays the newest. -/
theorem Newest.relies {g : List UUID} {L : List Lock} (h : Newest source db)
    (hr : (contract lib cleanup).Relies g L db db') (hL : Lock.event source.eventId .update ∈ L) :
    Newest source db' := by
  intro d hd he
  obtain ⟨d₀, hd₀, hsame⟩ := relies_event hr hL d hd he
  rw [hsame.replayGeneration]
  exact h d₀ hd₀ (hsame.eventId.symm.trans he)

/-- An error about a source that is still the newest. -/
theorem raises_of_newest {e : Error} (he : e.Foreseen) (hne : ∀ j, e ≠ activeDeliveryExists j)
    (hid : source.id = i) (hpast : Persist b db) (hinv : Inv lib db) (hs : Stored source db)
    (h : Newest source db) : Raises lib (.replay i key draw) b e db' := by
  subst hid
  refine ⟨he, hne, fun d hd hf => ?_⟩
  obtain ⟨d', hd', hsame, -⟩ := hpast.deliveries d hd
  exact absurd (hsame.replayedFrom.trans hf) (h.no_successor hinv hs hd')

/-! ## The transaction -/

/-- The statements on a locked source that has no successor under this key. -/
theorem supersede_safe {L : List Lock} (hid : source.id = i)
    (hinv : ¬cleanup → Inv lib db) (hpast : ¬cleanup → Persist b db)
    (hs : ¬cleanup → Stored source db)
    (hkey : ¬cleanup → ∀ d ∈ db.deliveries, d.replayedFromDeliveryId = some i →
      d.replayIdempotencyKey ≠ some key)
    (hL : Lock.event source.eventId .update ∈ L) :
    (contract lib cleanup).Safe ((contract lib cleanup).fails (.replay i key draw) b)
      (fun r _ ws L db => Step lib cleanup L db (.replay i key draw) (.replayed r) (view ws db))
      (supersede lib [source] source key draw) [] [] L db := by
  subst hid
  unfold supersede
  refine Safe.query fun db₁ hr₁ o ho => ?_
  have hinv₁ := relies_inv hr₁ hinv
  have hs₁ : ¬cleanup → Stored source db₁ := fun hno =>
    (hs hno).persist (relies_persist hr₁ fun hc => absurd hc hno)
  have hpast₁ : ¬cleanup → Persist b db₁ := fun hno =>
    (hpast hno).trans (relies_persist hr₁ fun hc => absurd hc hno)
  cases o with
  | none =>
    intro db' _ hno
    obtain ⟨row, hrow, hsame, -⟩ := (hs₁ hno).row
    exact absurd hsame.endpointId
      (latestOf_none (Option.map_eq_none_iff.mp ho) row hrow hsame.eventId)
  | some latest =>
    obtain ⟨row, hrow, rfl⟩ := Option.map_eq_some_iff.mp ho
    dsimp only
    split
    · -- Superseded: nothing under this key was found before.
      intro db' _ hno
      refine ⟨⟨by simp [replaySourceSuperseded], by simp [replaySourceSuperseded],
        by simp [replaySourceSuperseded]⟩,
        by simp [replaySourceSuperseded, activeDeliveryExists], fun d hd hf => ⟨?_, _, rfl⟩⟩
      obtain ⟨d', hd', hsame, -⟩ := (hpast hno).deliveries d hd
      rw [← hsame.replayKey]
      exact hkey hno d' hd' (hsame.replayedFrom.trans hf)
    rename_i hlatest
    have hnewest : ¬cleanup → Newest source db₁ := by
      intro hno d hd he
      obtain ⟨hm, hme, hmep⟩ := latestOf_mem hrow
      have hgen : row.replayGeneration = source.replayGeneration := by
        have hid : row.id = source.id :=
          ((hs₁ hno).resolve hm).id.trans (not_not.mp hlatest)
        exact ((hs₁ hno).same hm hid).replayGeneration
      rw [← hgen]
      refine latestOf_max hrow d hd he ?_
      exact ((hinv₁ hno).chain_of hm).endpoint_eq d
        (Db.mem_deliveriesAt.mpr ⟨hd, he.trans hme.symm⟩) row (Db.mem_deliveriesAt.mpr ⟨hm, rfl⟩)
        |>.trans hmep
    have raises : ∀ {e : Error}, e.Foreseen → (∀ j, e ≠ activeDeliveryExists j) → ∀ db',
        (contract lib cleanup).fails (.replay source.id key draw) b e db' := fun he hne db' hno =>
      raises_of_newest he hne rfl (hpast₁ hno) (hinv₁ hno) (hs₁ hno) (hnewest hno)
    split
    · exact fun db' _ => raises ⟨by simp [deliveryNotReplayable], by simp [deliveryNotReplayable],
        by simp [deliveryNotReplayable]⟩ (by simp [deliveryNotReplayable, activeDeliveryExists]) db'
    rename_i hdead
    have hdead : source.status = .deadLettered := not_not.mp hdead
    refine Safe.query fun db₂ hr₂ attempts _ => ?_
    cases lastBlockCode lib attempts with
    | some code =>
      exact fun db' _ => raises ⟨by simp [payloadCorrectionRequired],
        by simp [payloadCorrectionRequired], by simp [payloadCorrectionRequired]⟩
        (by simp [payloadCorrectionRequired, activeDeliveryExists]) db'
    | none =>
      -- Under the event lock no generation can have become active.
      have hidle : ¬cleanup → ∀ db₃, (contract lib cleanup).Relies [] L db₂ db₃ →
          ∀ d ∈ db₃.deliveries, d.eventId = source.eventId → d.status.active = false := by
        intro hno db₃ hr₃ d hd he
        have hr := hr₂.trans hr₃
        exact ((hnewest hno).relies hr hL).no_active (relies_inv hr hinv₁ hno)
          ((hs₁ hno).persist (relies_persist hr fun hc => absurd hc hno)) hdead hd he
      have hnone : ¬cleanup → ∀ db₃, (contract lib cleanup).Relies [] L db₂ db₃ →
          (db₃.deliveries.rows.filter fun d => d.eventId = source.eventId &&
            d.endpointId = source.endpointId && d.status.active) = [] := by
        intro hno db₃ hr₃
        refine List.filter_eq_nil_iff.mpr fun d hd hcond => ?_
        simp only [Bool.and_eq_true, decide_eq_true_eq] at hcond
        rw [hidle hno db₃ hr₃ d hd hcond.1.1] at hcond
        cases hcond.2
      refine Safe.bind (safe_scalarOneOrNone fun db₃ hr₃ => ⟨fun _ db₄ hr₄ => ?_,
        fun d hrow db₄ hr₄ db' _ hno => ?_, fun d d' ds hrows db' _ hno => ?_⟩)
      · refine Safe.query fun db₅ hr₅ o ho => ?_
        have hr₅' := ((hr₂.trans hr₃).trans hr₄).trans hr₅
        cases o with
        | none =>
          intro db' _ hno
          obtain ⟨row, hrow, hsame, -⟩ := ((hs₁ hno).persist
            (relies_persist hr₅' fun hc => absurd hc hno)).row
          obtain ⟨e, he, hide⟩ := (relies_inv hr₅' hinv₁ hno).endpoint row hrow
          exact absurd (hide.trans hsame.endpointId) (Table.get?_eq_none.mp ho e he)
        | some endpoint =>
          dsimp only
          split
          · exact fun db' _ => raises ⟨by simp [endpointDisabled], by simp [endpointDisabled],
              by simp [endpointDisabled]⟩ (by simp [endpointDisabled, activeDeliveryExists]) db'
          refine safe_create (fun c => raises (foreseen_database c) (by simp [activeDeliveryExists]))
            fun db₆ hr₆ hok db₇ hr₇ L' hL' hLs db₈ hr₈ => ?_
          obtain ⟨hvalid, hun⟩ := violation_append.mp hok
          have hfresh : db₆.deliveries.Fresh draw.id :=
            of_decide_eq_true (violation_eq_none.mp hun _ List.mem_cons_self)
          have hr₈' := hr₇.trans (hr₈.subset hL')
          have hr := (hr₅'.trans hr₆).trans (Relies.subset hr₈' (List.subset_append_right _ L))
          refine .supersede rfl (relies_fresh_delivery hr₈' List.mem_cons_self hfresh) hvalid
            (hL' List.mem_cons_self) hLs fun hno => ⟨?_, hdead, ?_⟩
          · exact ((hs₁ hno).persist (relies_persist hr fun hc => absurd hc hno)).mem hdead
          · exact (hnewest hno).relies hr hL
      · cases hrow.symm.trans (hnone hno db₃ hr₃)
      · cases hrows.symm.trans (hnone hno db₃ hr₃)

/-- The statements on a locked source. -/
theorem replayLocked_safe {L : List Lock} (hid : source.id = i)
    (hinv : ¬cleanup → Inv lib db) (hpast : ¬cleanup → Persist b db)
    (hs : ¬cleanup → Stored source db) (hL : Lock.event source.eventId .update ∈ L) :
    (contract lib cleanup).Safe ((contract lib cleanup).fails (.replay i key draw) b)
      (fun r _ ws L db => Step lib cleanup L db (.replay i key draw) (.replayed r) (view ws db))
      (replayLocked lib [source] source key draw) [] [] L db := by
  subst hid
  have persist : ¬cleanup → ∀ {db db'}, (contract lib cleanup).Relies [] L db db' →
      Persist db db' := fun hno db db' hr => relies_persist hr fun hc => absurd hc hno
  refine Safe.bind (safe_scalarOneOrNone fun db₁ hr₁ => ⟨fun hnil db₂ hr₂ => ?_,
    fun d hrow db₂ hr₂ db₃ hr₃ => ?_, fun d d' ds hrows db' _ hno => ?_⟩)
  · have hr := hr₁.trans hr₂
    refine supersede_safe rfl (relies_inv hr hinv) (fun hno => (hpast hno).trans (persist hno hr))
      (fun hno => (hs hno).persist (persist hno hr)) (fun hno d hd hf hk => ?_) hL
    -- A successor found now was there when the query ran.
    obtain ⟨p, hp, hpid, hpe, -⟩ := (relies_inv hr hinv hno).source_of hd hf
    have he : p.eventId = source.eventId :=
      (((hs hno).persist (persist hno hr)).same hp hpid).eventId
    obtain ⟨d₀, hd₀, hsame⟩ := relies_event hr₂ hL d hd (hpe.symm.trans he)
    have hcond := List.filter_eq_nil_iff.mp hnil d₀ hd₀
    simp [← hsame.replayedFrom, ← hsame.replayKey, hf, hk] at hcond
  · obtain ⟨hd, hcond⟩ := List.mem_filter.mp (hrow ▸ List.mem_singleton_self d)
    simp only [Bool.and_eq_true, decide_eq_true_eq] at hcond
    refine .repeated rfl fun hno => ?_
    obtain ⟨row, hrow, hsame, -⟩ := (persist hno (hr₂.trans hr₃)).deliveries d hd
    refine ⟨row, hrow, (((hs hno).persist (persist hno hr₁)).resolve hd).trans hsame, ?_, ?_⟩
    · exact hsame.replayedFrom.trans hcond.1
    · exact hsame.replayKey.trans hcond.2
  · have hall : ∀ x ∈ d :: d' :: ds, x ∈ db₁.deliveries ∧
        x.replayedFromDeliveryId = some source.id := by
      intro x hx
      obtain ⟨hx, hcond⟩ := List.mem_filter.mp (hrows ▸ hx)
      simp only [Bool.and_eq_true, decide_eq_true_eq] at hcond
      exact ⟨hx, hcond.1⟩
    obtain ⟨hd, hdf⟩ := hall d (by simp)
    obtain ⟨hd', hdf'⟩ := hall d' (by simp)
    exact absurd ((relies_inv hr₁ hinv hno).successor_unique hd hd' hdf hdf')
      (Table.filter_pair_ne hrows)

theorem replay_safe (hinv : ¬cleanup → Inv lib b) :
    (contract lib cleanup).Safe ((contract lib cleanup).fails (.replay i key draw) b)
      (fun r _ ws L db => Step lib cleanup L db (.replay i key draw) (.replayed r) (view ws db))
      (replay lib i key draw) [] [] [] b := by
  have persist : ¬cleanup → ∀ {L db db'}, (contract lib cleanup).Relies [] L db db' →
      Persist db db' := fun hno L db db' hr => relies_persist hr fun hc => absurd hc hno
  unfold replay
  refine Safe.query fun db₁ hr₁ o ho => ?_
  cases o with
  | none =>
    intro db' _ hno
    refine ⟨⟨by simp [deliveryNotFound], by simp [deliveryNotFound], by simp [deliveryNotFound]⟩,
      by simp [deliveryNotFound, activeDeliveryExists], fun d hd hf => ?_⟩
    obtain ⟨p, hp, hpid, -⟩ := (hinv hno).source_of hd hf
    obtain ⟨p', hp', hsame, -⟩ := (persist hno hr₁).deliveries p hp
    exact absurd (hsame.id.trans hpid) (Table.get?_eq_none.mp ho p' hp')
  | some source =>
    obtain ⟨hm, hid⟩ := Table.get?_eq_some.mp ho
    subst hid
    have hinv₁ := relies_inv hr₁ hinv
    have hs₁ : Stored source db₁ := ⟨source, hm, .refl source, fun _ => rfl⟩
    have event : ∀ {db₂}, Persist db₁ db₂ → ¬cleanup →
        ∃ e ∈ db₂.events, e.id = source.eventId := by
      intro db₂ hp hno
      obtain ⟨e, he, hide⟩ := (hinv₁ hno).event source hm
      exact ⟨e, hp.events e he, hide⟩
    refine safe_selectForUpdate fun db₂ hr₂ => ⟨fun hnil db' hr' hno => ?_, fun e he db₃ hr₃ o ho => ?_,
      fun r r' rs hrows => absurd hrows (Table.filter_ne_pair fun r hr => by simpa using hr)⟩
    · obtain ⟨e, he, hide⟩ := event (persist hno hr₂) hno
      have := List.filter_eq_nil_iff.mp hnil e he
      simp [hide] at this
    have hide : e.id = source.eventId := by
      have := (List.mem_filter.mp (he ▸ List.mem_singleton_self e)).2
      simpa using this
    rw [hide] at ho ⊢
    have hr₃' := hr₂.trans hr₃
    cases o with
    | none =>
      intro db' _ hno
      obtain ⟨e', he', hide'⟩ := event (persist hno hr₃') hno
      have := List.find?_eq_none.mp ho e' (List.mem_filter.mpr ⟨he', by simp [hide']⟩)
      simp [hide'] at this
    | some _ =>
      refine Safe.bind (safe_selectForUpdate fun db₄ hr₄ => ⟨fun hnil db₅ hr₅ db' _ hno => ?_,
        fun d hd db₅ hr₅ o ho db₆ hr₆ => ?_,
        fun r r' rs hrows => absurd hrows (Table.filter_ne_pair fun r hr => by simpa using hr)⟩)
      · obtain ⟨row, hrow, hsame, -⟩ :=
          (hs₁.persist ((persist hno hr₃').trans (persist hno hr₄))).row
        have := List.filter_eq_nil_iff.mp hnil row hrow
        simp [hsame.id] at this
      have hdid : d.id = source.id := by
        have := (List.mem_filter.mp (hd ▸ List.mem_singleton_self d)).2
        simpa using this
      rw [hdid] at ho hr₆ ⊢
      have hr₅' := hr₄.trans hr₅
      have past : ¬cleanup → Persist db₁ db₅ := fun hno =>
        (persist hno hr₃').trans (persist hno hr₅')
      cases o with
      | none =>
        intro db' _ hno
        obtain ⟨row, hrow, hsame, -⟩ := (hs₁.persist (past hno)).row
        have := List.find?_eq_none.mp ho row (List.mem_filter.mpr ⟨hrow, by simp [hsame.id]⟩)
        simp [hsame.id] at this
      | some row =>
        -- The row is answered by the object that was loaded first.
        have hresolve : IdentityMap.resolve [source] row = source := by
          have : row.id = source.id := by simpa using List.find?_some ho
          simp [IdentityMap.resolve, this]
        simp only [Option.map_some, hresolve]
        refine replayLocked_safe rfl (relies_inv hr₆ (relies_inv hr₅' (relies_inv hr₃' hinv₁)))
          (fun hno => (persist hno hr₁).trans ((past hno).trans (persist hno hr₆)))
          (fun hno => hs₁.persist ((past hno).trans (persist hno hr₆))) (by simp)

end EventHarbor
