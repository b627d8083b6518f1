import EventHarbor.Properties.Chains

/-!
# The dead-letter view predicts the replay command

The view reads eligibility from its own query; a replay checks it again, in
its own order, on the rows it has locked. On every reachable store the two
agree.
-/

namespace EventHarbor

open Relational Txn ControlRoom ReplayService

section Predict

variable {lib : Lib} {db : Db} {d : Delivery}

/-! ## Statements of a transaction that runs alone -/

theorem run_scalarOneOrNone {α β : Type} {rows : Db → List α} {f : Option α → Tx β}
    (h : rows db = []) : (scalarOneOrNone rows >>= f).run db = (f none).run db := by
  rw [run_bind, scalarOneOrNone, run_query_bind, h]
  rfl

theorem run_selectForUpdate {α β : Type} {key : α → UUID} {rowLock : UUID → Lock}
    {rows : Db → List α} {f : Option α → Tx β} {r : α} (h : rows db = [r]) :
    (selectForUpdate key rowLock rows >>= f).run db = (f (some r)).run db := by
  have hfind : (rows db).find? (fun r' => key r' = key r) = some r := by simp [h]
  rw [run_bind, selectForUpdate, run_query_bind, h]
  show (match (query fun db => (rows db).find? fun r' => key r' = key r : Tx (Option α)).run db with
    | .ok (a, db') => (f a).run db'
    | .error e => .error e) = _
  simp only [query, Txn.run, hfind]

/-! ## Reading the last attempt -/

/-- The two orders agree on the last attempt. -/
theorem Inv.lastAttempt_eq (h : Inv lib db) (hd : d ∈ db.deliveries) :
    lastAttempt d.id db = (DeliveryRepository.attemptsOf d.id db).getLast? := by
  have hnumbers : (db.attemptsAt d.id).Pairwise fun a b => a.attemptNumber < b.attemptNumber := by
    refine List.pairwise_map.mp (?_ : ((db.attemptsAt d.id).map (·.attemptNumber)).Pairwise (· < ·))
    rw [(h.ledger d hd).numbered]
    exact List.pairwise_lt_range'
  have hasc : DeliveryRepository.attemptsOf d.id db = db.attemptsAt d.id :=
    (hnumbers.imp le_of_lt).insertionSort_eq
  have hdesc : (db.attemptsAt d.id).insertionSort (fun a b => b.attemptNumber ≤ a.attemptNumber) =
      (db.attemptsAt d.id).reverse := by
    refine List.Perm.eq_of_pairwise (fun a b ha hb hab hba => ?_)
      (List.pairwise_insertionSort _ _) (List.pairwise_reverse.mpr (hnumbers.imp le_of_lt))
      ((List.perm_insertionSort _ _).trans (List.reverse_perm _).symm)
    exact (h.ledger d hd).eq_of_number ((List.mem_insertionSort _).mp ha) (List.mem_reverse.mp hb)
      (le_antisymm hba hab)
  show ((db.attemptsAt d.id).insertionSort fun a b => b.attemptNumber ≤ a.attemptNumber).head? = _
  rw [hasc, hdesc, List.head?_reverse]

/-! ## Replaying a dead letter -/

theorem Newest.latestOf_eq (h : Newest d db) (hinv : Inv lib db) (hd : d ∈ db.deliveries) :
    DeliveryRepository.latestOf d.eventId d.endpointId db = some d := by
  cases hl : DeliveryRepository.latestOf d.eventId d.endpointId db with
  | none => exact absurd rfl (latestOf_none hl d hd rfl)
  | some x =>
    obtain ⟨hx, hxe, -⟩ := latestOf_mem hl
    have hgen : x.replayGeneration = d.replayGeneration :=
      le_antisymm (h x hx hxe) (latestOf_max hl d hd rfl rfl)
    rw [(hinv.chain_of hd).eq_of_generation (Db.mem_deliveriesAt.mpr ⟨hx, hxe⟩)
      (Db.mem_deliveriesAt.mpr ⟨hd, rfl⟩) hgen]

variable {key : String} {draw : ReplayDraw}

variable (key draw) in
/-- What a replay of the newest generation comes to. -/
theorem run_replay (hinv : Inv lib db) (hd : d ∈ db.deliveries) (hdead : d.status = .deadLettered)
    (hnewest : Newest d db) {ep : Endpoint} (hep : ep ∈ db.endpoints) (hid : ep.id = d.endpointId) :
    (replay lib d.id key draw).run db =
      match lastBlockCode lib (DeliveryRepository.attemptsOf d.id db) with
      | some code => .error (payloadCorrectionRequired code)
      | none =>
        if ep.enabled then
          (DeliveryRepository.create (successor d key draw) >>= fun _ =>
            (pure ⟨d, successor d key draw, false⟩ : Tx ReplayedDelivery)).run db
        else .error (ReplayService.endpointDisabled ep.id) := by
  have hstored : Stored d db := ⟨d, hd, .refl d, fun _ => rfl⟩
  obtain ⟨ev, hev, hevid⟩ := hinv.event d hd
  have hresolve : IdentityMap.resolve [d] d = d := by simp [IdentityMap.resolve]
  have hevents : (db.events.rows.filter fun e => e.id = d.eventId) = [ev] :=
    hevid ▸ Table.filter_key hev
  have hnew : (db.deliveries.rows.filter fun x => x.replayedFromDeliveryId = some d.id &&
      x.replayIdempotencyKey = some key) = [] := by
    refine List.filter_eq_nil_iff.mpr fun x hx hcond => ?_
    simp only [Bool.and_eq_true, decide_eq_true_eq] at hcond
    exact hnewest.no_successor hinv hstored hx hcond.1
  have hidle : (db.deliveries.rows.filter fun x => x.eventId = d.eventId &&
      x.endpointId = d.endpointId && x.status.active) = [] := by
    refine List.filter_eq_nil_iff.mpr fun x hx hcond => ?_
    simp only [Bool.and_eq_true, decide_eq_true_eq] at hcond
    rw [hnewest.no_active hinv hstored hdead hx hcond.1.1] at hcond
    cases hcond.2
  have hget : db.endpoints.get? d.endpointId = some ep := hid ▸ Table.get?_key hep
  rw [replay, DeliveryRepository.get, run_query_bind, Table.get?_key hd]
  dsimp only
  rw [EventRepository.getForUpdate, run_selectForUpdate hevents]
  dsimp only
  rw [DeliveryRepository.getForUpdate, run_bind, run_selectForUpdate (Table.filter_key hd)]
  simp only [run_pure, Option.map_some, hresolve]
  rw [replayLocked, DeliveryRepository.getByReplayRequest, run_bind, run_scalarOneOrNone hnew]
  simp only [run_pure, Option.map_none]
  rw [supersede, DeliveryRepository.getLatest, run_bind, run_query_bind,
    hnewest.latestOf_eq hinv hd]
  simp only [run_pure, Option.map_some, hresolve, ne_eq, not_true_eq_false, if_false, hdead]
  rw [DeliveryRepository.listAttempts, run_query_bind]
  cases lastBlockCode lib (DeliveryRepository.attemptsOf d.id db) with
  | some code => rfl
  | none =>
    dsimp only
    rw [DeliveryRepository.getActive, run_bind, run_scalarOneOrNone hidle]
    simp only [run_pure, Option.map_none]
    rw [EndpointRepository.get, run_query_bind, hget]
    dsimp only
    by_cases he : ep.enabled = true
    · rw [if_neg (not_not.mpr he), if_pos he]
    · rw [if_pos he, if_neg he]
      rfl

/-- A key as the `Idempotency-Key` header admits it. -/
structure HeaderKey (key : String) : Prop where
  nonempty : 0 < key.toList.length
  short : key.toList.length ≤ 255
  text : isText key = true

theorem run_foreignKey {rowLock : Lock} {present : Db → Bool} {c : Constraint}
    (h : present db = true) : (foreignKey rowLock present c).run db = .ok ((), db) := by
  show ((query present : Tx Bool) >>= fun b =>
    if b then (pure () : Tx Unit) else fail (.database c)).run db = _
  rw [run_query_bind, h]
  rfl

theorem noOther_of_forall {same : Delivery → Bool} (h : ∀ e ∈ db.deliveries, same e = false) :
    db.noOther d same = true := by
  refine List.all_eq_true.mpr fun e he => ?_
  rw [h e he]
  simp

theorem run_exec {w : Write} (h : violation (w.checks db) = none) :
    (exec w : Tx Unit).run db = .ok ((), w.apply db) := by
  simp only [exec, Txn.run, check_eq_none.mpr h]
  rfl

theorem run_exec_bind {β : Type} {w : Write} {f : Unit → Tx β}
    (h : violation (w.checks db) = none) :
    (exec w >>= f).run db = (f ()).run (w.apply db) := by
  rw [run_bind, run_exec h]

theorem successor_checks (hkey : HeaderKey key) : violation (successor d key draw).checks = none := by
  have h₁ : isVarchar 255 key = true := decide_eq_true hkey.short
  simp [violation, Delivery.checks, successor, nullOr, h₁, hkey.text, hkey.nonempty]

/-- The successor of a newest dead letter can be stored. -/
theorem run_create (hinv : Inv lib db) (hd : d ∈ db.deliveries) (hdead : d.status = .deadLettered)
    (hnewest : Newest d db) (hkey : HeaderKey key) (hfresh : db.deliveries.Fresh draw.id) {β : Type}
    (v : β) : ∃ db', (DeliveryRepository.create (successor d key draw) >>= fun _ =>
      (pure v : Tx β)).run db = .ok (v, db') := by
  have hstored : Stored d db := ⟨d, hd, .refl d, fun _ => rfl⟩
  have hunique : violation (db.deliveryUnique (successor d key draw)) = none := by
    refine violation_eq_none.mpr fun c hc => ?_
    simp only [Db.deliveryUnique, List.mem_cons, List.not_mem_nil, or_false] at hc
    -- No other generation follows, replays or is active.
    rcases hc with rfl | rfl | rfl
    · refine noOther_of_forall fun x hx => ?_
      by_cases he : x.eventId = d.eventId
      · have hle := hnewest x hx he
        have hne : x.replayGeneration ≠ d.replayGeneration + 1 := by omega
        simp [successor, hne]
      · simp [successor, he]
    · dsimp only
      rw [Bool.or_eq_true]
      refine .inr (noOther_of_forall fun x hx => ?_)
      simp [successor, hnewest.no_successor hinv hstored hx]
    · dsimp only
      rw [Bool.or_eq_true]
      refine .inr (noOther_of_forall fun x hx => ?_)
      by_cases he : x.eventId = d.eventId
      · simp [hnewest.no_active hinv hstored hdead hx he]
      · simp [successor, he]
  have hchecks : violation (Write.checks (.insertDelivery (successor d key draw)) db) = none := by
    refine violation_append.mpr ⟨successor_checks hkey, violation_eq_none.mpr ?_⟩
    exact List.forall_mem_cons.mpr ⟨decide_eq_true hfresh, violation_eq_none.mp hunique⟩
  obtain ⟨ev, hev, hevid⟩ := hinv.event d hd
  obtain ⟨ep, hep, hepid⟩ := hinv.endpoint d hd
  have hevent : (db.events.get? d.eventId).isSome = true := by
    rw [← hevid, Table.get?_key hev]
    rfl
  have hendpoint : (db.endpoints.get? d.endpointId).isSome = true := by
    rw [← hepid, Table.get?_key hep]
    rfl
  have hsource : ((db.deliveries.insert (successor d key draw)).get? d.id).isSome = true := by
    rw [Table.get?_key (Table.mem_insert_of_mem hd)]
    rfl
  refine ⟨Write.apply (.insertDelivery (successor d key draw)) db, ?_⟩
  have hcreate : (DeliveryRepository.create (successor d key draw)).run db =
      .ok ((), Write.apply (.insertDelivery (successor d key draw)) db) := by
    rw [DeliveryRepository.create, run_exec_bind hchecks, run_bind, run_foreignKey hevent]
    dsimp only
    rw [run_bind, run_foreignKey hendpoint]
    exact run_foreignKey hsource
  rw [run_bind, hcreate]
  rfl

/-! ## The view -/

/-- The rows behind a listed dead letter. -/
theorem mem_deadLetterRows {endpointId : Option UUID} {item : DeadLetterRecord}
    (h : item ∈ deadLetterRows endpointId db) :
    item.delivery ∈ db.deliveries ∧ item.delivery.status = .deadLettered ∧
    latestGenerationCondition db item.delivery = true ∧
    item.endpoint ∈ db.endpoints ∧ item.endpoint.id = item.delivery.endpointId ∧
    item.lastHttpStatusCode = (lastAttempt item.delivery.id db).bind (·.httpStatusCode) ∧
    item.lastResponseBodyExcerpt =
      (lastAttempt item.delivery.id db).bind (·.responseBodyExcerpt) := by
  obtain ⟨d, hd, h⟩ := List.mem_flatMap.mp h
  obtain ⟨e, -, h⟩ := List.mem_flatMap.mp h
  obtain ⟨ep, hep, rfl⟩ := List.mem_map.mp h
  obtain ⟨hd, hcond⟩ := List.mem_filter.mp hd
  obtain ⟨hep, hid⟩ := List.mem_filter.mp hep
  simp only [Bool.and_eq_true, decide_eq_true_eq] at hcond
  exact ⟨hd, hcond.1.1, hcond.1.2, hep, of_decide_eq_true hid, rfl, rfl⟩

theorem Inv.newest_of_latest (h : Inv lib db) (hd : d ∈ db.deliveries)
    (hlatest : latestGenerationCondition db d = true) : Newest d db := by
  intro x hx he
  have hep := (h.chain_of hd).endpoint_eq x (Db.mem_deliveriesAt.mpr ⟨hx, he⟩) d
    (Db.mem_deliveriesAt.mpr ⟨hd, rfl⟩)
  simp only [latestGenerationCondition, Bool.not_eq_true', List.any_eq_false] at hlatest
  have := hlatest x hx
  simp only [he, hep, decide_true, Bool.true_and, decide_eq_true_eq] at this
  omega

/-- The view and the command ask the same attempt. -/
theorem Inv.blockCode_eq (h : Inv lib db) {endpointId : Option UUID} {item : DeadLetterRecord}
    (hitem : item ∈ deadLetterRows endpointId db) :
    replayBlockCode lib.jsonLoads item.lastHttpStatusCode item.lastResponseBodyExcerpt =
      lastBlockCode lib (DeliveryRepository.attemptsOf item.delivery.id db) := by
  obtain ⟨hd, -, -, -, -, hstatus, hexcerpt⟩ := mem_deadLetterRows hitem
  rw [hstatus, hexcerpt, lastBlockCode, ← h.lastAttempt_eq hd]
  cases lastAttempt item.delivery.id db <;> rfl

end Predict

/-- Every listed dead letter is replayable exactly when its replay would be
accepted, and otherwise names the error the replay raises. -/
theorem dead_letters_predict_replay {lib : Lib} {ls : List Shown} {s : System}
    (hr : Reaches lib ls s) {limit : ℕ} {cursor : Option PageCursor} {endpointId : Option UUID}
    {item : DeadLetterRecord} (hitem : item ∈ (listDeadLetters limit cursor endpointId s.db).items)
    {key : String} (hkey : HeaderKey key) {draw : ReplayDraw}
    (hfresh : s.db.deliveries.Fresh draw.id) :
    ((deadLetterResponse lib item).replayable = true ↔
      ∃ v db', (replay lib item.delivery.id key draw).run s.db = .ok (v, db')) ∧
    ((deadLetterResponse lib item).replayable = false →
      ∃ code e, (deadLetterResponse lib item).blockedCode = some code ∧
        (replay lib item.delivery.id key draw).run s.db = .error (.domain e) ∧
        e.code = code.value) := by
  have hinv := reaches_inv hr
  have hrow : item ∈ deadLetterRows endpointId s.db :=
    (Keyset.mem_rest.mp (Keyset.slice_sublist.subset hitem)).1
  obtain ⟨hd, hdead, hlatest, hep, hid, -⟩ := mem_deadLetterRows hrow
  have hnewest := hinv.newest_of_latest hd hlatest
  have hrun := run_replay key draw hinv hd hdead hnewest hep hid
  simp only [deadLetterResponse, DeadLetterRecord.blockCode, hinv.blockCode_eq hrow]
  cases hcode : lastBlockCode lib (DeliveryRepository.attemptsOf item.delivery.id s.db) with
  | some code =>
    simp only [hcode] at hrun
    rw [hrun]
    simp [payloadCorrectionRequired]
  | none =>
    simp only [hcode] at hrun
    by_cases he : item.endpoint.enabled = true
    · obtain ⟨db', hcreate⟩ := run_create hinv hd hdead hnewest hkey hfresh
        (⟨item.delivery, successor item.delivery key draw, false⟩ : ReplayedDelivery)
      rw [if_pos he, hcreate] at hrun
      rw [hrun]
      simp [he]
    · rw [if_neg he] at hrun
      rw [hrun]
      simp [he, ReplayService.endpointDisabled, ReplayBlockCode.value]

namespace Sample

/-- The endpoint of the dead letter is disabled again. -/
def blockedLetter : List (Action ℕ Request) :=
  deadLetter ++ Sys.alone 5 (setEnabled false (epoch + 4)) 5

def letterDraw : ReplayDraw := { id := 6, now := epoch + 5, transactionNow := epoch + 5 }

/-- The list shows one dead letter, blocked as given, and the drawn id is unused. -/
def showsLetter (code : Option ReplayBlockCode) (db : Db) : Bool :=
  ((listDeadLetters 25 none none db).items.map fun i => (deadLetterResponse lib i).blockedCode) =
    [code] && decide (db.deliveries.Fresh letterDraw.id)

theorem letter_reaches (xs : List (Action ℕ Request)) (code : Option ReplayBlockCode)
    (h : (Sys.play (Request.code lib) Ordinary [] (.idle Db.empty) xs).any
      (fun p => showsLetter code p.2.db) = true) :
    ∃ ls s item, Reaches lib ls s ∧ item ∈ (listDeadLetters 25 none none s.db).items ∧
      (deadLetterResponse lib item).blockedCode = code ∧
      s.db.deliveries.Fresh letterDraw.id := by
  obtain ⟨ls, s, hr, hs⟩ := Sys.exists_run h
  simp only [showsLetter, Bool.and_eq_true, decide_eq_true_eq] at hs
  obtain ⟨item, hitem⟩ := List.length_eq_one_iff.mp (by simpa using congrArg List.length hs.1)
  refine ⟨ls, s, item, hr, hitem ▸ List.mem_singleton_self item, ?_, hs.2⟩
  simpa [hitem] using hs.1

theorem headerKey : HeaderKey "again" where
  nonempty := by decide
  short := by decide
  text := by decide

end Sample

theorem dead_letters_predict_replay_of_letter :
    (∃ ls s item v db', Reaches Sample.lib ls s ∧
      item ∈ (listDeadLetters 25 none none s.db).items ∧
      (deadLetterResponse Sample.lib item).replayable = true ∧
      (replay Sample.lib item.delivery.id "again" Sample.letterDraw).run s.db =
        .ok (v, db')) ∧
    ∃ ls s item e, Reaches Sample.lib ls s ∧
      item ∈ (listDeadLetters 25 none none s.db).items ∧
      (deadLetterResponse Sample.lib item).blockedCode = some .endpointDisabled ∧
      (replay Sample.lib item.delivery.id "again" Sample.letterDraw).run s.db =
        .error (.domain e) ∧ e.code = "endpoint_disabled" := by
  constructor
  · obtain ⟨ls, s, item, hr, hitem, hcode, hfresh⟩ :=
      Sample.letter_reaches Sample.deadLetter none (by decide +kernel)
    have hreplayable : (deadLetterResponse Sample.lib item).replayable = true :=
      Option.isNone_iff_eq_none.mpr hcode
    obtain ⟨v, db', hrun⟩ :=
      (dead_letters_predict_replay hr hitem Sample.headerKey hfresh).1.mp hreplayable
    exact ⟨ls, s, item, v, db', hr, hitem, hreplayable, hrun⟩
  · obtain ⟨ls, s, item, hr, hitem, hcode, hfresh⟩ :=
      Sample.letter_reaches Sample.blockedLetter (some .endpointDisabled) (by decide +kernel)
    have hblocked : (deadLetterResponse Sample.lib item).replayable = false :=
      Option.isNone_eq_false_iff.mpr (Option.isSome_iff_exists.mpr ⟨_, hcode⟩)
    obtain ⟨code, e, hcode', hrun, he⟩ :=
      (dead_letters_predict_replay hr hitem Sample.headerKey hfresh).2 hblocked
    obtain rfl := Option.some.inj (hcode.symm.trans hcode')
    exact ⟨ls, s, item, e, hr, hitem, hcode, hrun, he⟩

end EventHarbor
