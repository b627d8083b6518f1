import EventHarbor.Refinement.Rules

/-!
# Retention cleanup refines its step

The advisory lock keeps a second cleanup out, so rows persist while this one
runs. As long as nobody adds a delivery to a selected event, all deliveries of
the batch are terminal when they are deleted, and terminal rows never change.
-/

namespace EventHarbor

open Relational Txn Contract Maintenance

variable {lib : Lib} {cleanup : Prop} {db db' : Db} {g eventIds : List UUID} {ws : List Write}
  {L : List Lock}

/-- What a cleanup has done so far: the rows it deleted are locked and terminal. -/
structure Purging (ws : List Write) (L : List Lock) (db : Db) : Prop where
  advisory : Lock.advisory maintenanceLockId ∈ L
  purged : ∃ ids eventIds, (∀ db : Db, view ws db = db.purged ids eventIds) ∧
    ∀ i ∈ ids, Lock.delivery i .update ∈ L ∧ ∃ d ∈ db.deliveries, d.id = i ∧ d.status.active = false

theorem Purging.relies {L' : List Lock} (h : Purging ws L db) (hL : L ⊆ L')
    (hr : (contract lib cleanup).Relies g L db db') : Purging ws L' db' := by
  obtain ⟨ids, evs, hview, hids⟩ := h.purged
  refine ⟨hL h.advisory, ids, evs, hview, fun i hi => ?_⟩
  obtain ⟨hlock, d, hd, hid, hend⟩ := hids i hi
  obtain ⟨d', hd', -, hsame, -⟩ := (relies_persist hr fun _ => h.advisory).deliveries d hd
  exact ⟨hL hlock, d, hsame hend ▸ hd', hid, hend⟩

theorem Purging.deleteDeliveries (h : Purging ws L db) {ids : List UUID}
    (hids : ∀ i ∈ ids, Lock.delivery i .update ∈ L ∧
      ∃ d ∈ db.deliveries, d.id = i ∧ d.status.active = false) :
    Purging (ws ++ [Write.deleteDeliveries ids]) L db := by
  obtain ⟨old, evs, hview, hold⟩ := h.purged
  refine ⟨h.advisory, old ++ ids, evs, fun db => ?_, fun i hi => ?_⟩
  · rw [view_append, hview]
    simp [Engine.apply, Write.apply, Db.purged, Table.filter, List.filter_filter, Bool.and_comm]
  · exact (List.mem_append.mp hi).elim (hold i) (hids i)

theorem Purging.deleteEvents (h : Purging ws L db) (ids : List UUID) :
    Purging (ws ++ [Write.deleteEvents ids]) L db := by
  obtain ⟨old, evs, hview, hold⟩ := h.purged
  refine ⟨h.advisory, old, evs ++ ids, fun db => ?_, hold⟩
  rw [view_append, hview]
  simp [Engine.apply, Write.apply, Db.purged, Table.filter, List.filter_filter, Bool.and_comm]

/-- What a transaction sees is stored. -/
theorem Purging.stored (h : Purging ws L db) {db₁ : Db} {d : Delivery}
    (hd : d ∈ (view ws db₁).deliveries) : d ∈ db₁.deliveries := by
  obtain ⟨ids, evs, hview, -⟩ := h.purged
  rw [hview] at hd
  exact (Table.mem_filter.mp hd).1

/-- What a transaction that is purging sees persists with the rows. -/
theorem Purging.persist {db₀ : Db} (h : Purging ws L db₀) (hp : Persist db db') {d : Delivery}
    (hd : d ∈ (view ws db).deliveries) : ∃ d' ∈ (view ws db').deliveries,
      SameDelivery d d' ∧ (d.status.active = false → d' = d) := by
  obtain ⟨ids, evs, hview, -⟩ := h.purged
  rw [hview] at hd ⊢
  obtain ⟨hd, hout⟩ := Table.mem_filter.mp hd
  obtain ⟨d', hd', hsame, hend, -⟩ := hp.deliveries d hd
  exact ⟨d', Table.mem_filter.mpr ⟨hd', by rw [hsame.id]; exact hout⟩, hsame, hend⟩

/-- The deliveries of some events that the transaction sees are terminal. -/
def Idle (eventIds : List UUID) (ws : List Write) (db : Db) : Prop :=
  ∀ d ∈ (view ws db).deliveries, d.eventId ∈ eventIds → d.status.active = false

/-- Selected events stay idle while nobody adds a delivery to them. -/
theorem Idle.relies {db₀ : Db} (hc : cleanup) (hp : Purging ws L db₀) (h : Idle g ws db)
    (hr : (contract lib cleanup).Relies g L db db') : Idle g ws db' := by
  refine relies_induction (P := Idle g ws) hr ?_ h
  intro x x' L' r a hcompat hundisturbed hs hx d hd hg
  have hpersist := hs.effect.persist fun _ =>
    not_mem_of_compatible hcompat hp.advisory (by simp [Lock.conflict])
  obtain ⟨ids, evs, hview, -⟩ := hp.purged
  have hd' := hd
  rw [hview] at hd'
  obtain ⟨hd', hout⟩ := Table.mem_filter.mp hd'
  obtain ⟨d₀, hd₀, hid⟩ := hundisturbed hc d hd' hg
  have hd₀' : d₀ ∈ (view ws x).deliveries := by
    rw [hview]
    exact Table.mem_filter.mpr ⟨hd₀, by rw [hid]; exact hout⟩
  obtain ⟨d', hd', hsame, hend⟩ := hp.persist hpersist hd₀'
  have : d' = d := Table.eq_of_key hd' hd (hsame.id.trans hid)
  subst this
  have hinactive := hx d₀ hd₀' (hsame.eventId ▸ hg)
  rw [hend hinactive]
  exact hinactive

theorem candidateEventIds_idle {cutoff : Time} {limit : ℕ} :
    Idle (candidateEventIds cutoff limit (view ws db)) ws db := by
  intro d hd he
  obtain ⟨e, he, hid⟩ := List.mem_map.mp he
  have hmem := (List.mem_insertionSort _).mp (List.mem_of_mem_take he)
  obtain ⟨-, hcond⟩ := List.mem_filter.mp hmem
  simp only [Bool.and_eq_true, Bool.not_eq_true', hasActiveDelivery, List.any_eq_false] at hcond
  have := hcond.2 d hd
  simpa [hid] using this

/-! ## The statements -/

section Statements

variable {F : Error → Db → Prop} {τ : Type} {R : τ → List UUID → List Write → List Lock → Db → Prop}

theorem safe_lockAll {rowLock : UUID → Lock} {is : List UUID} {f : Unit → Tx τ}
    (h : ∀ db', (contract lib cleanup).Relies g L db db' → ∀ L', L ⊆ L' →
      (∀ i ∈ is, rowLock i ∈ L') → (contract lib cleanup).Safe F R (f ()) g ws L' db') :
    (contract lib cleanup).Safe F R (lockAll rowLock is >>= f) g ws L db := by
  induction is generalizing L db with
  | nil => exact h db .refl L (fun _ h => h) (by simp)
  | cons i is ih =>
    intro db₁ hr₁
    refine ih fun db' hr' L' hsub hmem => ?_
    refine h db' (hr₁.trans (hr'.subset (List.subset_cons_self _ L))) L'
      (fun j hj => hsub (List.mem_cons_of_mem _ hj)) fun j hj => ?_
    rcases List.mem_cons.mp hj with rfl | hj
    · exact hsub List.mem_cons_self
    · exact hmem j hj

end Statements

/-- The promise of the statements of a cleanup. -/
abbrev PurgeSafe (lib : Lib) (cleanup : Prop) {α : Type} (p : Tx α) (g : List UUID) (ws : List Write)
    (L : List Lock) (db : Db) : Prop :=
  (contract lib cleanup).Safe (fun _ _ => True) (fun _ _ ws L db => Purging ws L db) p g ws L db

theorem deleteDeliveries_safe (hc : cleanup) (hp : Purging ws L db) (h : Idle eventIds ws db) :
    PurgeSafe lib cleanup (deleteDeliveries eventIds) eventIds ws L db := by
  refine Safe.queryNoting fun db₁ hr₁ ids hids => ?_
  have hidle := h.relies hc hp hr₁
  have hp₁ := hp.relies (fun _ h => h) hr₁
  refine safe_lockAll fun db₂ hr₂ L' hL' hlocks => Safe.query fun db₃ hr₃ remaining hrem => ?_
  intro db₄ hr₄
  have hr := (hr₂.trans (hr₃.subset hL')).trans (hr₄.subset hL')
  have hp₄ := hp₁.relies hL' hr
  have hsub : ∀ i ∈ remaining, i ∈ ids := by
    intro i hi
    exact List.mem_of_mem_filter (hrem ▸ hi)
  -- A row found by the statement's snapshot was terminal and persists.
  have hrow : ∀ i ∈ remaining, ∃ d ∈ (view ws db₄).deliveries, d.id = i ∧ d.status.active = false := by
    intro i hi
    have hmem : i ∈ deliveriesOf eventIds (view ws db₁) := hids ▸ hsub _ hi
    obtain ⟨d₀, hd₀, hid⟩ := List.mem_map.mp hmem
    obtain ⟨hd₀, he₀⟩ := List.mem_filter.mp hd₀
    have hinactive := hidle d₀ hd₀ (of_decide_eq_true he₀)
    obtain ⟨d', hd', hsame, hend⟩ :=
      hp₁.persist (relies_persist hr fun _ => hp.advisory) hd₀
    exact ⟨d₀, hend hinactive ▸ hd', hid, hinactive⟩
  refine ⟨fun e _ _ _ => trivial, fun _ => ⟨fun d hd hdr => ?_, fun db₅ hr₅ => ?_⟩⟩
  · obtain ⟨d', hd', hid, hinactive⟩ := hrow _ hdr
    exact Table.eq_of_key hd' hd hid ▸ hinactive
  · refine (hp₄.deleteDeliveries fun i hi => ⟨hlocks i (hsub i hi), ?_⟩).relies (fun _ h => h) hr₅
    obtain ⟨d, hd, hid, hinactive⟩ := hrow i hi
    exact ⟨d, hp₄.stored hd, hid, hinactive⟩

theorem deleteEvents_safe (hp : Purging ws L db) :
    PurgeSafe lib cleanup (deleteEvents eventIds) g ws L db := by
  refine Safe.query fun db₁ hr₁ ids hids => ?_
  refine safe_lockAll fun db₂ hr₂ L' hL' hlocks => Safe.query fun db₃ hr₃ remaining hrem => ?_
  refine Safe.exec fun db₄ hr₄ => ⟨fun e _ _ _ => trivial, fun _ => ⟨trivial, fun db₅ hr₅ => ?_⟩⟩
  have hr := ((hr₁.trans hr₂).trans (hr₃.subset hL')).trans (hr₄.subset hL')
  exact ((hp.relies hL' hr).deleteEvents remaining).relies (fun _ h => h) hr₅

theorem deleteTerminalEventBatch_safe (hc : cleanup) (hp : Purging ws L db) {cutoff : Time}
    {limit : ℕ} : PurgeSafe lib cleanup (deleteTerminalEventBatch cutoff limit) g ws L db := by
  refine Safe.queryNoting fun db₁ hr₁ eventIds hids => ?_
  subst hids
  have hp₁ := hp.relies (fun _ h => h) hr₁
  split
  · exact fun db₂ hr₂ => hp₁.relies (fun _ h => h) hr₂
  · refine Safe.bind ((deleteDeliveries_safe hc hp₁ candidateEventIds_idle).mono
      (fun _ _ _ => trivial) ?_)
    exact fun _ g' ws' L' db' hp' => deleteEvents_safe hp'

theorem purgeLoop_safe (hc : cleanup) {cutoff : Time} {batchSize maxEvents fuel deleted batches : ℕ}
    (hp : Purging ws L db) :
    PurgeSafe lib cleanup (purgeLoop cutoff batchSize maxEvents fuel deleted batches) g ws L db := by
  induction fuel generalizing g ws L db deleted batches with
  | zero => exact fun db' hr => hp.relies (fun _ h => h) hr
  | succ fuel ih =>
    unfold purgeLoop
    split
    · refine Safe.bind ((deleteTerminalEventBatch_safe hc hp).mono (fun _ _ _ => trivial) ?_)
      intro n g' ws' L' db' hp'
      split
      · exact fun db'' hr => hp'.relies (fun _ h => h) hr
      · exact ih hp'
    · exact fun db' hr => hp.relies (fun _ h => h) hr

theorem purge_safe (hc : cleanup) {b : Db} {cutoff : Time} {batchSize maxEvents : ℕ} :
    (contract lib cleanup).Safe
      ((contract lib cleanup).fails (.purge cutoff batchSize maxEvents) b)
      (fun r _ ws L db => Step lib cleanup L db (.purge cutoff batchSize maxEvents) (.purged r)
        (view ws db))
      (purgeExpiredDemoEvents cutoff batchSize maxEvents) [] [] [] b := by
  have nofail : ∀ e db, (contract lib cleanup).fails (.purge cutoff batchSize maxEvents) b e db :=
    fun _ _ hno => absurd hc hno
  unfold purgeExpiredDemoEvents
  split
  · exact fun db' _ => nofail _ db'
  split
  · exact fun db' _ => nofail _ db'
  refine Safe.tryAcquire fun db₁ _ => ⟨?_, fun db₂ _ => .locked⟩
  have hp : Purging [] [Lock.advisory maintenanceLockId] db₁ :=
    ⟨List.mem_cons_self, [], [], fun db => by simp [Db.purged, Table.filter], by simp⟩
  refine (purgeLoop_safe hc hp).mono (fun e db _ => nofail e db) ?_
  intro r g' ws' L' db' hp'
  obtain ⟨ids, evs, hview, hids⟩ := hp'.purged
  rw [hview]
  refine .purge hc hp'.advisory (fun i hi => (hids i hi).1) fun d hd hi => ?_
  obtain ⟨-, d', hd', hid, hend⟩ := hids _ hi
  exact Table.eq_of_key hd' hd hid ▸ hend

end EventHarbor
