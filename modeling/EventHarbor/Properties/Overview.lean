import EventHarbor.Properties.DeadLetters

/-!
# What the overview shows

The counts of the overview come from separate statements, and between two of
them other transactions commit. Each count is a number of commits made before
its own statement, so the counts agree exactly when the commits in between
cancel out.
-/

namespace EventHarbor

open Relational Txn ControlRoom DeliveryWorker

/-! ## Commits that change the counts -/

/-- A publication that created an event. -/
def acceptsEvent : Request × Response → Bool
  | (.publish _ _ _, .published p) => !p.idempotentReplay
  | _ => false

/-- A replay that created a delivery. -/
def supersedes : Request × Response → Bool
  | (.replay _ _ _, .replayed r) => !r.idempotentReplay
  | _ => false

/-- A claim that gave a delivery up, or a result that ended one in failure. -/
def deadLetters : Request × Response → Bool
  | (.claimOne _ _, .claimed (some (.resolution _))) => true
  | (.finalize w webhook result draw, .finalized true) =>
    target w webhook result draw.randomFraction = .ok (.deadLettered, none)
  | _ => false

section Counts

variable {lib : Lib} {L : List Lock} {db db' : Db} {r : Request} {a : Response}
  {h : List (Request × Response)}

def deadCount (db : Db) : ℕ := db.deliveries.rows.countP fun d => d.status = .deadLettered

theorem countP_eq_sum {α : Type} (p : α → Bool) (l : List α) :
    l.countP p = (l.map fun x => if p x then 1 else 0).sum := by
  induction l with
  | nil => rfl
  | cons x l ih => by_cases hx : p x = true <;> simp [hx, ih, Nat.add_comm]

/-- Moving an active delivery counts it when it ends dead-lettered. -/
theorem deadCount_move {d d' : Delivery} {closed opened : Option DeliveryAttempt}
    (hm : Moves db d d' closed opened) : deadCount (db.move d' closed opened) =
      deadCount db + if d'.status = .deadLettered then 1 else 0 := by
  have hsum := Table.sum_map_set hm.mem hm.same.id.symm fun x : Delivery =>
    if decide (x.status = .deadLettered) = true then 1 else 0
  have hd : d.status ≠ .deadLettered := by
    intro hs
    have := hm.active
    rw [hs] at this
    cases this
  have hmoved : (db.move d' closed opened).deliveries = db.deliveries.set d' := rfl
  rw [deadCount, deadCount, countP_eq_sum, countP_eq_sum, hmoved]
  simpa [hd] using hsum

/-- Each commit changes the sizes of the tables as its kind says. -/
theorem Step.counts (hs : Step lib False L db r a db') :
    db'.events.rows.length = db.events.rows.length + [(r, a)].countP acceptsEvent ∧
    db'.deliveries.rows.length = db.deliveries.rows.length + [(r, a)].countP acceptsEvent +
      [(r, a)].countP supersedes ∧
    deadCount db' = deadCount db + [(r, a)].countP deadLetters := by
  cases hs with
  | accept hid hep hdigest hbytes hvalid hevent hkey hdelivery hLe hLk hLd hLs =>
    refine ⟨Table.length_insert hevent, Table.length_insert hdelivery, ?_⟩
    exact (Table.countP_insert hdelivery _).trans (by simp [EventService.initialDelivery, deadLetters]; rfl)
  | supersede hid hfresh hvalid hLd hLs hsource =>
    refine ⟨rfl, Table.length_insert hfresh, ?_⟩
    exact (Table.countP_insert hfresh _).trans (by simp [ReplayService.successor, deadLetters]; rfl)
  | @claim w draw c ep d d' closed opened hd hL hdue hep hepid hc hvalid hclose hopen =>
    refine ⟨rfl, by simp [Db.move, Table.set, acceptsEvent, supersedes], ?_⟩
    rw [deadCount_move (hc.moves hd)]
    cases hc with
    | lease => simp [deadLetters, leased]
    | relet => simp [deadLetters, leased]
    | expire => simp [deadLetters, deadLettered]
    | drop => simp [deadLetters, deadLettered]
  | @settle w webhook result draw status delay d x htarget hd hcount hx hL hvalid hclose =>
    refine ⟨rfl, by simp [Db.move, Table.set, acceptsEvent, supersedes], ?_⟩
    rw [deadCount_move (settle_moves hd hx _ _ _ _)]
    rcases target_cases htarget with ⟨rfl, rfl, -⟩ | ⟨rfl, rfl, -⟩ | ⟨rfl, -, -⟩
    · simp [deadLetters, htarget, settled]
    · simp [deadLetters, htarget, settled]
    · simp [deadLetters, htarget, settled]
  | purge hc hL hids hend => exact hc.elim
  | stale => exact ⟨rfl, rfl, by simp [deadLetters]⟩
  | _ => exact ⟨rfl, rfl, rfl⟩

/-- The tables have grown by the commits of the run. -/
theorem trace_counts (ht : (contract lib False).Trace [] Db.empty h db) :
    db.events.rows.length = h.countP acceptsEvent ∧
    db.deliveries.rows.length = h.countP acceptsEvent + h.countP supersedes ∧
    deadCount db = h.countP deadLetters := by
  induction ht with
  | nil => exact ⟨rfl, rfl, rfl⟩
  | snoc ht ha hinv hc ih =>
    obtain ⟨hevents, hdeliveries, hdead⟩ := hc.counts
    rw [List.countP_append, List.countP_append, List.countP_append]
    omega

/-! ## Latest generations -/

/-- Every event has one latest delivery. -/
theorem Inv.countP_latest (hinv : Inv lib db) :
    db.deliveries.rows.countP (latestGenerationCondition db) = db.events.rows.length := by
  have hlatest : ∀ {d}, d ∈ db.deliveries.rows.filter (latestGenerationCondition db) →
      d ∈ db.deliveries ∧ Newest d db := by
    intro d hd
    obtain ⟨hm, hl⟩ := List.mem_filter.mp hd
    exact ⟨hm, hinv.newest_of_latest hm hl⟩
  have hnodup : ((db.deliveries.rows.filter (latestGenerationCondition db)).map
      (·.eventId)).Nodup := by
    refine List.Nodup.map_on (fun d hd e he heq => ?_)
      ((List.Nodup.of_map _ db.deliveries.nodup).filter _)
    obtain ⟨hdm, hdn⟩ := hlatest hd
    obtain ⟨hem, hen⟩ := hlatest he
    exact (hinv.chain_of hdm).eq_of_generation (Db.mem_deliveriesAt.mpr ⟨hdm, rfl⟩)
      (Db.mem_deliveriesAt.mpr ⟨hem, heq.symm⟩)
      (le_antisymm (hen d hdm heq) (hdn e hem heq.symm))
  have hperm : ((db.deliveries.rows.filter (latestGenerationCondition db)).map (·.eventId)).Perm
      (db.events.rows.map Event.id) := by
    refine (List.perm_ext_iff_of_nodup hnodup db.events.nodup).mpr fun i => ?_
    simp only [List.mem_map]
    constructor
    · rintro ⟨d, hd, rfl⟩
      exact hinv.event d (hlatest hd).1
    · rintro ⟨e, he, rfl⟩
      obtain ⟨init, d, hds, -⟩ := (hinv.chain e he).exists_last
      obtain ⟨hd, hde⟩ := Db.mem_deliveriesAt.mp (show d ∈ db.deliveriesAt e.id by simp [hds])
      refine ⟨d, List.mem_filter.mpr ⟨hd, ?_⟩, hde⟩
      have hgen := (hds ▸ hinv.chain e he).last_generation
      simp only [latestGenerationCondition, Bool.not_eq_true', List.any_eq_false, Bool.and_eq_true,
        decide_eq_true_eq]
      rintro x hx ⟨⟨hxe, -⟩, hlt⟩
      have hmem : x ∈ db.deliveriesAt e.id := Db.mem_deliveriesAt.mpr ⟨hx, hxe.trans hde⟩
      have := (hinv.chain e he).generation_lt hmem
      rw [hds, List.length_append, List.length_singleton] at this
      omega
  simpa [List.countP_eq_length_filter] using hperm.length_eq

/-- Only dead letters have been followed by a newer generation. -/
theorem Inv.dead_of_not_latest (hinv : Inv lib db) {d : Delivery} (hd : d ∈ db.deliveries)
    (hl : latestGenerationCondition db d = false) : d.status = .deadLettered := by
  simp only [latestGenerationCondition, Bool.not_eq_false', List.any_eq_true, Bool.and_eq_true,
    decide_eq_true_eq] at hl
  obtain ⟨x, hx, ⟨hxe, -⟩, hlt⟩ := hl
  exact (hinv.chain_of hd).dead_of_lt (Db.mem_deliveriesAt.mpr ⟨hd, rfl⟩)
    (Db.mem_deliveriesAt.mpr ⟨hx, hxe⟩) hlt

/-- A dead letter is actionable or has been replayed. -/
theorem Inv.latestCount_dead (hinv : Inv lib db) :
    latestCount .deadLettered db + db.deliveries.rows.length =
      deadCount db + db.events.rows.length := by
  have hcount : ∀ l : List Delivery, (∀ d ∈ l, d ∈ db.deliveries) →
      (l.countP fun d => d.status = .deadLettered && latestGenerationCondition db d) + l.length =
        (l.countP fun d => d.status = .deadLettered) + l.countP (latestGenerationCondition db) := by
    intro l hl
    induction l with
    | nil => rfl
    | cons d l ih =>
      have ih := ih fun x hx => hl x (List.mem_cons_of_mem d hx)
      rw [List.countP_cons, List.countP_cons, List.countP_cons, List.length_cons]
      cases hlatest : latestGenerationCondition db d with
      | true =>
        simp only [Bool.and_true, if_true]
        omega
      | false =>
        have hdead := hinv.dead_of_not_latest (hl d List.mem_cons_self) hlatest
        simp only [hdead, Bool.and_false, decide_true, if_true, Bool.false_eq_true, if_false]
        omega
  rw [← hinv.countP_latest]
  exact hcount db.deliveries.rows fun d hd => hd

/-- Every delivery has one of the statuses. -/
theorem sum_latestCount (db : Db) : (statuses.map fun s => latestCount s db).sum =
    db.deliveries.rows.countP (latestGenerationCondition db) := by
  have hcount : ∀ l : List Delivery, (statuses.map fun s =>
      l.countP fun d => d.status = s && latestGenerationCondition db d).sum =
      l.countP (latestGenerationCondition db) := by
    intro l
    induction l with
    | nil => rfl
    | cons d l ih =>
      simp only [statuses, List.map_cons, List.map_nil, List.sum_cons, List.sum_nil,
        List.countP_cons] at ih ⊢
      cases d.status <;> simp <;> omega
  exact hcount db.deliveries.rows

/-! ## The overview -/

theorem find_statusRows (db : Db) (s : DeliveryStatus) :
    (((statusRows db).find? (·.1 = s)).map Prod.snd).getD 0 = latestCount s db := by
  have hmem : s ∈ statuses := by cases s <;> decide
  cases hf : (statusRows db).find? (·.1 = s) with
  | none =>
    by_contra hne
    have hrow : (s, latestCount s db) ∈ statusRows db := by
      refine List.mem_filter.mpr ⟨List.mem_map.mpr ⟨s, hmem, rfl⟩, decide_eq_true ?_⟩
      exact Nat.pos_of_ne_zero (Ne.symm hne)
    simpa using List.find?_eq_none.mp hf _ hrow
  | some row =>
    obtain ⟨x, -, rfl⟩ := List.mem_map.mp (List.mem_filter.mp (List.mem_of_find?_eq_some hf)).1
    have hx : x = s := by simpa using List.find?_some hf
    rw [hx]
    rfl

/-- The statements of an overview, each on its own database. -/
theorem reads_overview {clock : Time} {db₁ db₂ db₃ db₄ db₅ : Db} {o : OverviewSnapshot}
    (h : (overview (some clock)).reads [db₁, db₂, db₃, db₄, db₅] = some (.ok o)) :
    o.eventsTotal = db₂.events.rows.length ∧ (∀ s, o.count s = latestCount s db₄) ∧
      o.actionableDeadLetters = latestCount .deadLettered db₅ := by
  obtain rfl := Except.ok.inj (Option.some.inj h)
  exact ⟨rfl, fun s => find_statusRows db₄ s, rfl⟩

end Counts

/-- An overview whose statements run at five points of a run: its counts agree
exactly when no event was accepted between the second and the fourth, and as
many deliveries were dead-lettered as replayed between the fourth and the fifth. -/
theorem overview_consistent_iff {lib : Lib} {ls₁ ls₂ ls₃ ls₄ ls₅ : List Shown}
    {s₁ s₂ s₃ s₄ s₅ : System} (h₁ : Reaches lib ls₁ s₁) (h₂ : Continues lib ls₁ s₁ ls₂ s₂)
    (h₃ : Continues lib ls₂ s₂ ls₃ s₃) (h₄ : Continues lib ls₃ s₃ ls₄ s₄)
    (h₅ : Continues lib ls₄ s₄ ls₅ s₅) {clock : Time} {o : OverviewSnapshot}
    (ho : (overview (some clock)).reads [s₁.db, s₂.db, s₃.db, s₄.db, s₅.db] = some (.ok o)) :
    (o.actionableDeadLetters = o.count .deadLettered ∧
      (statuses.map o.count).sum = o.eventsTotal) ↔
    ((history ls₄).countP acceptsEvent = (history ls₂).countP acceptsEvent ∧
      (history ls₅).countP deadLetters + (history ls₄).countP supersedes =
        (history ls₄).countP deadLetters + (history ls₅).countP supersedes) := by
  have hr₂ : Reaches lib ls₂ s₂ := Sys.Run.trans h₁ h₂
  have hr₄ : Reaches lib ls₄ s₄ := Sys.Run.trans (Sys.Run.trans hr₂ h₃) h₄
  have hr₅ : Reaches lib ls₅ s₅ := Sys.Run.trans hr₄ h₅
  obtain ⟨htotal, hcount, hactionable⟩ := reads_overview ho
  have hcounts : o.count = fun s => latestCount s s₄.db := funext hcount
  have hsum := sum_latestCount s₄.db
  rw [(reaches_inv hr₄).countP_latest] at hsum
  obtain ⟨he₂, -, -⟩ := trace_counts (reaches_sound hr₂).trace
  obtain ⟨he₄, hd₄, hdead₄⟩ := trace_counts (reaches_sound hr₄).trace
  obtain ⟨he₅, hd₅, hdead₅⟩ := trace_counts (reaches_sound hr₅).trace
  have hl₄ := (reaches_inv hr₄).latestCount_dead
  have hl₅ := (reaches_inv hr₅).latestCount_dead
  rw [hcounts, hsum, htotal, hactionable]
  dsimp only
  omega

namespace Sample

/-- The overview that a run shows when its first three statements see `db` and
the other two `db'`. -/
theorem overview_reads (db db' : Db) : ∃ o,
    (overview (some epoch)).reads [db, db, db, db', db'] = some (.ok o) ∧
      o.eventsTotal = db.events.rows.length ∧
      ∀ s, o.count s = latestCount s db' :=
  ⟨_, rfl, rfl, fun s => find_statusRows db' s⟩

end Sample

/-- A publication between the statements is missing from the total. -/
theorem overview_contradicts_itself : ∃ ls s ls' s' o, Reaches Sample.lib ls s ∧
    Continues Sample.lib ls s ls' s' ∧
    (overview (some Sample.epoch)).reads [s.db, s.db, s.db, s'.db, s'.db] = some (.ok o) ∧
    o.eventsTotal = 0 ∧ (statuses.map o.count).sum = 1 := by
  have hplay : (Sys.play (Request.code Sample.lib) Ordinary [] (.idle Db.empty)
      (Sys.alone 0 Sample.register 2)).any (fun p =>
        p.2.db.events.rows.length = 0 &&
        (Sys.play (Request.code Sample.lib) Ordinary p.1 p.2
          (Sys.alone 1 (Sample.publish 2 3) 9)).any fun q =>
            (statuses.map fun s => latestCount s q.2.db).sum = 1) = true := by decide +kernel
  obtain ⟨ls, s, hr, h⟩ := Sys.exists_run hplay
  rw [Bool.and_eq_true] at h
  obtain ⟨ls', s', hc, h'⟩ := Sys.exists_run h.2
  obtain ⟨o, ho, htotal, hcount⟩ := Sample.overview_reads s.db s'.db
  refine ⟨ls, s, ls', s', o, hr, hc, ho, htotal.trans (of_decide_eq_true h.1), ?_⟩
  rw [funext hcount]
  exact of_decide_eq_true h'

/-- A claim between the statements does not disturb them. -/
theorem overview_consistent_iff_of_claim : ∃ ls s ls' s' o, Reaches Sample.lib ls s ∧
    Continues Sample.lib ls s ls' s' ∧ 0 < (history ls').length - (history ls).length ∧
    (overview (some Sample.epoch)).reads [s.db, s.db, s.db, s'.db, s'.db] = some (.ok o) ∧
    o.actionableDeadLetters = o.count .deadLettered ∧
      (statuses.map o.count).sum = o.eventsTotal := by
  have hplay : (Sys.play (Request.code Sample.lib) Ordinary [] (.idle Db.empty)
      (Sys.alone 0 Sample.register 2 ++ Sys.alone 1 (Sample.publish 2 3) 9)).any (fun p =>
        (Sys.play (Request.code Sample.lib) Ordinary p.1 p.2
          (Sys.alone 2 (Sample.claim "a" (Sample.epoch + 1) 4 5) 12)).any fun q =>
            0 < (history q.1).length - (history p.1).length &&
            (history q.1).countP acceptsEvent = (history p.1).countP acceptsEvent) = true := by
    decide +kernel
  obtain ⟨ls, s, hr, h⟩ := Sys.exists_run hplay
  obtain ⟨ls', s', hc, h'⟩ := Sys.exists_run h
  rw [Bool.and_eq_true] at h'
  obtain ⟨o, ho, -⟩ := Sample.overview_reads s.db s'.db
  refine ⟨ls, s, ls', s', o, hr, hc, of_decide_eq_true h'.1, ho, ?_⟩
  exact (overview_consistent_iff hr .nil .nil hc .nil ho).mpr ⟨of_decide_eq_true h'.2, rfl⟩

end EventHarbor
