import EventHarbor.Properties.Batching
import EventHarbor.Properties.Ingestion

/-!
# No request ends in an internal inconsistency

While no cleanup runs beside them, transactions never miss a row that they have just
seen: whatever they raise is foreseen, in every interleaving.
-/

namespace EventHarbor

open Relational Txn Contract EventService

section Publish

variable {lib : Lib} {b db db' : Db} {g : List UUID} {ws : List Write} {L : List Lock}
  {request : EventPublishRequest} {key digest : String} {draw : PublishDraw}

/-- Every row that has to be there is, whatever is returned. -/
abbrev Finds {α : Type} (lib : Lib) (p : Tx α) (ws : List Write) (L : List Lock) (db : Db) : Prop :=
  (contract lib False).Safe (fun e _ => e ≠ .multipleResultsFound → e.Foreseen)
    (fun _ _ _ _ _ => True) p [] ws L db

theorem foreseen_domain (d : DomainError) : (Error.domain d).Foreseen :=
  ⟨by simp, by simp, by simp⟩

/-- A row with the key of an inserted row is there. -/
theorem get?_insert_ne_none {α κ : Type} [DecidableEq κ] {f : α → κ} (t : Table f) (r : α) :
    (t.insert r).get? (f r) ≠ none := by
  rw [ne_eq, Table.get?_eq_none]
  intro h
  by_cases hfresh : t.Fresh (f r)
  · exact h r ((Table.mem_insert hfresh).mpr (.inr rfl)) rfl
  · exact hfresh fun x hx => h x (Table.mem_insert_of_mem hx)

/-- The event that was inserted can be read. -/
theorem acceptInserted_finds {endpoint : Endpoint} {event : Event} :
    Finds lib (acceptInserted request draw endpoint event) [.insertEvent event] L db := by
  unfold acceptInserted
  split
  · exact fun db' _ _ => foreseen_domain _
  refine safe_create (fun c _ _ => foreseen_database c) fun db₁ _ _ db₂ _ L' _ _ => ?_
  refine Safe.query fun db₃ _ o ho => ?_
  cases o with
  | some event => exact fun db' _ => trivial
  | none => exact absurd ho (get?_insert_ne_none db₃.events event)

/-- An event with this key and this fingerprint has its initial delivery. -/
theorem initial_of_fingerprint (hhash : Function.Injective lib.sha256Hex)
    (hfloat : FloatRepr lib.floatRepr) (hinv : Inv lib db) {event : Event}
    (hevent : event ∈ db.events)
    (hdigest : fingerprint lib request = .ok event.requestFingerprintSha256) :
    ∃ d ∈ db.deliveries, d.eventId = event.id ∧ d.endpointId = request.endpointId ∧
      d.replayGeneration = 0 := by
  obtain ⟨request', haccepted⟩ := hinv.accepted event hevent
  obtain ⟨hendpoint, -⟩ := (fingerprint_iff hhash hfloat haccepted.fingerprint).mp hdigest
  obtain ⟨d, hd, hid, hg, -⟩ := hinv.initial hevent
  exact ⟨d, hd, hid, (haccepted.endpoint d (Db.mem_deliveriesAt.mpr ⟨hd, hid⟩)).trans
    hendpoint.symm, hg⟩

/-- What made the key conflict can be read. -/
theorem resolve_finds (hhash : Function.Injective lib.sha256Hex)
    (hfloat : FloatRepr lib.floatRepr) (hinv : Inv lib db)
    (hdigest : fingerprint lib request = .ok digest)
    (htaken : ∃ event ∈ db.events, event.source = localSource ∧ event.idempotencyKey = key) :
    Finds lib (resolveIdempotentReplay request.endpointId key digest) [] [] db := by
  obtain ⟨event, hevent, hsource, hkey⟩ := htaken
  have persists : ∀ {db db'}, (contract lib False).Relies [] [] db db' → Persist db db' :=
    fun hr => relies_persist hr False.elim
  unfold resolveIdempotentReplay
  refine safe_scalarOneOrNone fun db₁ hr₁ => ?_
  have hinv₁ : Inv lib db₁ := relies_inv hr₁ (fun _ => hinv) not_false
  have hevent₁ := (persists hr₁).events event hevent
  have hfound : event ∈ db₁.events.rows.filter fun e =>
      e.source = localSource && e.idempotencyKey = key :=
    List.mem_filter.mpr ⟨hevent₁, by simp [hsource, hkey]⟩
  refine ⟨fun hnil => ?_, fun row hrow => ?_, fun r r' rs hrows => ?_⟩
  · exact absurd (hnil ▸ hfound) List.not_mem_nil
  · obtain rfl : event = row := List.mem_singleton.mp (hrow ▸ hfound)
    dsimp only
    split
    · exact fun db' _ _ => foreseen_domain _
    rename_i hsame
    have hsame : event.requestFingerprintSha256 = digest := by simpa using hsame
    refine safe_scalarOneOrNone fun db₂ hr₂ => ?_
    have hinv₂ : Inv lib db₂ := relies_inv hr₂ (fun _ => hinv₁) not_false
    obtain ⟨d, hd, hid, hendpoint, hg⟩ := initial_of_fingerprint hhash hfloat hinv₂
      ((persists hr₂).events event hevent₁) (hsame ▸ hdigest)
    have hfound' : d ∈ db₂.deliveries.rows.filter fun d =>
        d.eventId = event.id && d.endpointId = request.endpointId && d.replayGeneration = 0 :=
      List.mem_filter.mpr ⟨hd, by simp [hid, hendpoint, hg]⟩
    refine ⟨fun hnil => ?_, fun row hrow' => ?_, fun r r' rs hrows => ?_⟩
    · exact absurd (hnil ▸ hfound') List.not_mem_nil
    · exact fun db' _ => trivial
    · exact fun db' _ hne => absurd rfl hne
  · exact fun db' _ hne => absurd rfl hne

theorem mem_of_violation {cs : List (Bool × Constraint)} {c : Constraint}
    (h : violation cs = some c) : (false, c) ∈ cs := by
  obtain ⟨⟨b, c'⟩, hfind, rfl⟩ := Option.map_eq_some_iff.mp h
  have hb : b = false := by simpa using List.find?_some hfind
  exact hb ▸ List.mem_of_find?_eq_some hfind

/-- A conflict on the key comes from an event with this key. -/
theorem exists_of_conflict {event : Event}
    (h : violation (Write.checks (.insertEvent event) db) = some .uqEventsSourceIdempotencyKey) :
    ∃ e ∈ db.events, e.source = event.source ∧ e.idempotencyKey = event.idempotencyKey := by
  have hmem := mem_of_violation h
  simp only [Write.checks, Event.checks, List.mem_append, List.mem_cons, Prod.mk.injEq,
    reduceCtorEq, and_false, or_false, false_or, and_true, List.not_mem_nil] at hmem
  obtain ⟨e, he, hsame⟩ := List.all_eq_false.mp hmem.symm
  refine ⟨e, he, ?_⟩
  simpa using hsame

theorem publish_finds (hhash : Function.Injective lib.sha256Hex)
    (hfloat : FloatRepr lib.floatRepr) (hinv : Inv lib db) :
    Finds lib (publish lib request key draw) [] [] db := by
  unfold publish
  refine Safe.query fun db₁ hr₁ o _ => ?_
  cases o with
  | none => exact fun db' _ _ => foreseen_domain _
  | some endpoint =>
    dsimp only
    cases hdigest : fingerprint lib request with
    | error err =>
      cases err <;> exact fun db' _ _ => ⟨by simp [invalidEventData], by simp [invalidEventData],
        by simp [invalidEventData]⟩
    | ok digest =>
      dsimp only
      cases hbytes : canonicalJsonBytes lib.floatRepr (bodyDocument lib request draw) with
      | error err => cases err <;> exact fun db' _ _ => ⟨by simp, by simp, by simp⟩
      | ok bytes =>
        refine safe_insertIfAbsent fun db₂ hr₂ => ⟨fun _ => acceptInserted_finds, fun htaken => ?_,
          fun c _ _ db' _ _ => foreseen_database c⟩
        have hinv₂ : Inv lib db₂ := relies_inv (hr₁.trans hr₂) (fun _ => hinv) not_false
        exact resolve_finds hhash hfloat hinv₂ hdigest (exists_of_conflict htaken)

theorem createEndpoint_finds {url : String} {request : EndpointCreateRequest} {draw : EndpointDraw} :
    Finds lib (EndpointService.create url request draw) [] [] db := by
  unfold EndpointService.create
  dsimp only
  split
  · exact fun db' _ _ => foreseen_domain _
  · refine Safe.exec fun db₁ _ => ⟨fun e he db' _ _ => ?_, fun _ => ⟨trivial, fun _ _ => trivial⟩⟩
    obtain ⟨c, rfl⟩ := check_eq_some he
    exact foreseen_database c

theorem setEnabled_finds {i : UUID} {enabled : Bool} {now : Time} :
    Finds lib (EndpointService.setEnabled i enabled now) [] [] db := by
  unfold EndpointService.setEnabled
  refine Safe.query fun db₁ _ o _ => ?_
  cases o with
  | none => exact fun _ _ => trivial
  | some _ =>
    refine Safe.acquire fun db₂ _ => Safe.query fun db₃ _ o _ => ?_
    cases o with
    | none => exact fun _ _ => trivial
    | some row =>
      refine Safe.exec fun db₄ _ =>
        ⟨fun e he db' _ _ => ?_, fun _ => ⟨trivial, fun _ _ => trivial⟩⟩
      obtain ⟨c, rfl⟩ := check_eq_some he
      exact foreseen_database c

end Publish

section Runs

variable {lib : Lib} {db₀ db : Db} {ls : List Shown} {s : System}

/-- The contract of ordinary operation from `db₀` on, with foreseen errors only. -/
def foreseeing (lib : Lib) (db₀ : Db) : Contract Request Db Write Lock (List UUID) Error Response :=
  (resumption lib db₀).failing fun _ _ e _ => e.Foreseen

/-- A request that finds its rows and raises what its contract allows. -/
theorem safe_foreseen {α : Type} {p : Tx α} {a : α → Response} {r : Request}
    (hsafe : (contract lib False).Safe ((contract lib False).fails r db)
      (fun x _ ws L db => Step lib False L db r (a x) (view ws db)) p [] [] [] db)
    (hfinds : Finds lib p [] [] db)
    (hsingle : ∀ e db', Raises lib r db e db' → e ≠ .multipleResultsFound) :
    (contract lib False).Safe (fun e _ => e.Foreseen)
      (fun x _ ws L db => Step lib False L db r x (view ws db)) (p >>= fun x => pure (a x))
      [] [] [] db :=
  Safe.map ((hsafe.and hfinds).mono (fun e db' h => h.2 (hsingle e db' (h.1 not_false)))
    fun _ _ _ _ _ h => h.1)

theorem foreseeing_kept (hhash : Function.Injective lib.sha256Hex)
    (hfloat : FloatRepr lib.floatRepr) (hinv : Inv lib db₀) :
    (foreseeing lib db₀).Kept (Request.code lib) db₀ where
  symm := lock_conflict_symm
  start := (resumption_kept hinv).start
  inv := (resumption_kept hinv).inv
  admits := (resumption_kept hinv).admits
  safe := by
    intro r h db ht ha hdb
    have hinv : ¬False → Inv lib db := hdb
    -- The contract asks for the same commits, and these errors are foreseen.
    have hkeep {α : Type} {p : Tx α} {a : α → Response}
        (hsafe : (contract lib False).Safe ((contract lib False).fails r db)
          (fun x _ ws L db => Step lib False L db r (a x) (view ws db)) p [] [] [] db)
        (hforeseen : ∀ e db', Raises lib r db e db' → e.Foreseen) :
        (foreseeing lib db₀).Safe ((foreseeing lib db₀).fails r db)
          (fun x _ ws L db' => (foreseeing lib db₀).commits r x L db' (view ws db'))
          (p >>= fun x => pure (a x)) [] [] [] db :=
      (Safe.map (hsafe.mono (fun e db' h => hforeseen e db' (h not_false))
        fun _ _ _ _ _ h => h)).admitting.failing
    have hfind {α : Type} {p : Tx α} {a : α → Response}
        (hsafe : (contract lib False).Safe ((contract lib False).fails r db)
          (fun x _ ws L db => Step lib False L db r (a x) (view ws db)) p [] [] [] db)
        (hfinds : Finds lib p [] [] db)
        (hsingle : ∀ e db', Raises lib r db e db' → e ≠ .multipleResultsFound) :
        (foreseeing lib db₀).Safe ((foreseeing lib db₀).fails r db)
          (fun x _ ws L db' => (foreseeing lib db₀).commits r x L db' (view ws db'))
          (p >>= fun x => pure (a x)) [] [] [] db :=
      (safe_foreseen hsafe hfinds hsingle).admitting.failing
    cases r with
    | createEndpoint url request draw =>
      exact hfind createEndpoint_safe createEndpoint_finds fun _ _ h => h
    | setEnabled i b now => exact hfind setEnabled_safe setEnabled_finds fun _ _ h => h
    | publish request key draw =>
      exact hfind (publish_safe hinv) (publish_finds hhash hfloat (hinv not_false)) fun _ _ h => h.1
    | replay i key draw => exact hkeep (replay_safe hinv) fun _ _ h => h.1
    | claimOne w draw =>
      refine hkeep (claimOne_safe hinv) fun e db' h => ?_
      obtain ⟨c, rfl⟩ := h
      exact foreseen_database c
    | finalize w webhook result draw =>
      exact hkeep (finalize_safe hinv fun _ => resumption_issued ht.of_failing ha) fun _ _ h => h.1
    | purge cutoff batchSize maxEvents => exact ha.elim

theorem Resumed.foreseeing {m : Shown} {s' : System} (hm : Resumed db₀ ls s m s') :
    (foreseeing lib db₀).Admissible (history ls) s m s' := by
  have hadmissible : (resumption lib db₀).Admissible (history ls) s m s' := hm.admissible
  exact hadmissible

/-- Ordinary operation, from any store that operation and cleanups left, fails no request
of any kind for a row that it has just seen, whatever runs beside it. -/
theorem failures_foreseen (hhash : Function.Injective lib.sha256Hex)
    (hfloat : FloatRepr lib.floatRepr) (hrests : Rests lib db₀)
    (hr : Sys.Run (Request.code lib) (Resumed db₀) [] (.idle db₀) ls s) :
    ∀ t r e, Label.fail t r e ∈ ls → e.Foreseen := by
  intro t r e hm
  have hk := foreseeing_kept hhash hfloat hrests.inv
  obtain ⟨ls₁, s₁, x, s₂, hr₁, hx, hp⟩ := hr.step_of_mem hm (by simp)
  have hsound := hr₁.sound Resumed.foreseeing hk (Sys.idle_sound hk)
  obtain ⟨-, c, -, -, -, hfail⟩ := (Sys.act_sound hsound hk hx hp.foreseeing).2
  exact hfail

end Runs

namespace Sample

/-- A key is used again, for an event of another type. -/
def reuse : List (Action ℕ Request) :=
  Sys.alone 0 register 2 ++ Sys.alone 1 (publish 2 3) 9 ++
    Sys.alone 2 (.publish { order with type := "order.paid" } "order-42"
      { eventId := 6, deliveryId := 7, createdAt := epoch, transactionNow := epoch }) 4

/-- The request that failed. -/
def failure : Shown → Option ℕ
  | .fail t _ _ => some t
  | _ => none

end Sample

theorem failures_foreseen_of_reuse : ∃ ls s,
    Sys.Run (Request.code Sample.lib) (Resumed Db.empty) [] (.idle Db.empty) ls s ∧
      ls.filterMap Sample.failure = [2] ∧ ∀ t r e, Label.fail t r e ∈ ls → e.Foreseen := by
  have hplay : (Sys.play (Request.code Sample.lib) Ordinary [] (.idle Db.empty)
      Sample.reuse).any (fun p => p.1.filterMap Sample.failure = [2]) = true := by
    decide +kernel
  obtain ⟨ls, s, hr, h⟩ := Sys.exists_run hplay
  have hr' : Sys.Run (Request.code Sample.lib) (Resumed Db.empty) [] (.idle Db.empty) ls s :=
    hr.mono Ordinary.resumed
  exact ⟨ls, s, hr', of_decide_eq_true h,
    failures_foreseen Sample.sha256Hex_injective Sample.floatRepr_repr .empty hr'⟩

end EventHarbor
