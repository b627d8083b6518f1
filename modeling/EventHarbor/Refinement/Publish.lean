import EventHarbor.Refinement.Rules

/-!
# Endpoint registration and ingestion refine their steps
-/

namespace EventHarbor

open Relational Txn Contract EventService

variable {lib : Lib} {cleanup : Prop} {b db db' : Db} {g : List UUID} {ws : List Write}
  {L : List Lock}

/-! ## Endpoints -/

theorem createEndpoint_safe {url : String} {request : EndpointCreateRequest} {draw : EndpointDraw} :
    (contract lib cleanup).Safe
      ((contract lib cleanup).fails (.createEndpoint url request draw) b)
      (fun e _ ws L db => Step lib cleanup L db (.createEndpoint url request draw) (.endpoint e)
        (view ws db))
      (EndpointService.create url request draw) [] [] [] b := by
  unfold EndpointService.create
  dsimp only
  split
  · exact fun db' _ _ => by simp [Raises]
  · refine Safe.exec fun db₁ _ => ⟨fun e he db' _ _ => ?_, fun hok => ⟨trivial, ?_⟩⟩
    · obtain ⟨c, rfl⟩ := check_eq_some he
      simp [Raises]
    intro db₂ hr₂
    obtain ⟨hvalid, hpk⟩ := violation_append.mp (check_eq_none.mp hok)
    have hfresh := violation_eq_none.mp hpk _ (List.mem_singleton_self _)
    exact .register (relies_fresh_endpoint hr₂ List.mem_cons_self (of_decide_eq_true hfresh))
      List.mem_cons_self rfl hvalid

theorem setEnabled_safe {i : UUID} {enabled : Bool} {now : Time} :
    (contract lib cleanup).Safe ((contract lib cleanup).fails (.setEnabled i enabled now) b)
      (fun ok _ ws L db => Step lib cleanup L db (.setEnabled i enabled now) (.enabled ok)
        (view ws db))
      (EndpointService.setEnabled i enabled now) [] [] [] b := by
  unfold EndpointService.setEnabled
  refine Safe.query fun db₁ _ o _ => ?_
  cases o with
  | none => exact fun db' _ => .absent
  | some _ =>
    refine Safe.acquire fun db₂ _ => Safe.query fun db₃ _ o ho => ?_
    cases o with
    | none => exact fun db' _ => .absent
    | some row =>
      obtain ⟨hm, hid⟩ := Table.get?_eq_some.mp ho
      subst hid
      refine Safe.exec fun db₄ hr₄ => ⟨fun e he db' _ _ => ?_, fun _ => ⟨trivial, ?_⟩⟩
      · obtain ⟨c, rfl⟩ := check_eq_some he
        simp [Raises]
      intro db₅ hr₅
      exact .enable (relies_endpoint (hr₄.trans hr₅) rfl List.mem_cons_self hm) rfl
        List.mem_cons_self

/-! ## Ingestion -/

theorem violation_append_some {cs cs' : List (Bool × Constraint)} {c : Constraint}
    (h : violation (cs ++ cs') = some c) :
    violation cs = some c ∨ (violation cs = none ∧ violation cs' = some c) := by
  simp only [violation, List.find?_append, Option.map_eq_some_iff, Option.map_eq_none_iff] at h ⊢
  obtain ⟨x, hx, rfl⟩ := h
  rcases Option.or_eq_some_iff.mp hx with h | ⟨h, h'⟩
  · exact .inl ⟨x, h, rfl⟩
  · exact .inr ⟨h, x, h', rfl⟩

theorem violation_cons_of_false {cs : List (Bool × Constraint)} {b : Bool} {c : Constraint}
    (h : b = false) : violation ((b, c) :: cs) = some c := by
  simp [violation, h]

theorem safe_insertIfAbsent {τ : Type} {F : Error → Db → Prop}
    {R : τ → List UUID → List Write → List Lock → Db → Prop} {event : Event} {f : Bool → Tx τ}
    (h : ∀ db', (contract lib cleanup).Relies g L db db' →
      (violation (Write.checks (.insertEvent event) (view ws db')) = none →
        (contract lib cleanup).Safe F R (f true) g (ws ++ [.insertEvent event])
          (Write.keys (.insertEvent event) ++ L) db') ∧
      (violation (Write.checks (.insertEvent event) (view ws db')) =
        some .uqEventsSourceIdempotencyKey →
        (contract lib cleanup).Safe F R (f false) g ws L db') ∧
      (∀ c, c ≠ .uqEventsSourceIdempotencyKey →
        violation (Write.checks (.insertEvent event) (view ws db')) = some c →
        ∀ db'', (contract lib cleanup).Relies g L db' db'' → F (.database c) db'')) :
    (contract lib cleanup).Safe F R (EventRepository.insertIfAbsent event >>= f) g ws L db := by
  intro db' hr
  obtain ⟨htrue, hfalse, herr⟩ := h db' hr
  refine ⟨fun e he => ?_, fun hn => ⟨trivial, htrue (check_eq_none.mp hn)⟩⟩
  obtain ⟨c, hc, rfl⟩ := Option.map_eq_some_iff.mp he
  by_cases huq : c = .uqEventsSourceIdempotencyKey
  · subst huq
    exact hfalse hc
  · cases c <;> first | exact absurd rfl huq | exact fun db'' hr' => herr _ huq hc db'' hr'

section Publish

variable {request : EventPublishRequest} {key digest : String} {draw : PublishDraw}

/-- A failure of a publication whose key no event had. -/
theorem raises_of_no_key {e : Error} (he : e ≠ .multipleResultsFound)
    (h : ¬cleanup → ∀ ev ∈ b.events, ev.source = localSource → ev.idempotencyKey ≠ key) :
    (contract lib cleanup).fails (.publish request key draw) b e db := by
  intro hno
  exact ⟨he, fun ev hev hs hk => absurd hk (h hno ev hev hs)⟩

/-- The statements after a new event row was inserted. -/
theorem accepted_safe {ep : Endpoint} {bytes : Bytes}
    (hid : ep.id = request.endpointId) (hep : ∃ e ∈ db.endpoints, e.id = ep.id)
    (hdigest : fingerprint lib request = .ok digest)
    (hbytes : canonicalJsonBytes lib.floatRepr (bodyDocument lib request draw) = .ok bytes)
    (hvalid : violation (candidate lib request key draw digest bytes).checks = none)
    (hfresh : db.events.Fresh draw.eventId)
    (hkey : ∀ e ∈ db.events, e.source = localSource → e.idempotencyKey ≠ key)
    (hnokey : ¬cleanup → ∀ ev ∈ b.events, ev.source = localSource → ev.idempotencyKey ≠ key)
    (hLe : Lock.unique (.eventId draw.eventId) ∈ L)
    (hLk : Lock.unique (.eventIdempotency localSource key) ∈ L) :
    (contract lib cleanup).Safe ((contract lib cleanup).fails (.publish request key draw) b)
      (fun p _ ws L db => Step lib cleanup L db (.publish request key draw) (.published p)
        (view ws db))
      (acceptInserted request draw ep (candidate lib request key draw digest bytes)) []
      [.insertEvent (candidate lib request key draw digest bytes)] L db := by
  unfold acceptInserted
  split
  · exact fun db' _ => raises_of_no_key (by simp [EventService.endpointDisabled]) hnokey
  refine safe_create (fun c db' => raises_of_no_key (by simp) hnokey)
    fun db₁ hr₁ hok db₂ hr₂ L' hL' hLs => ?_
  have hsub : L ⊆ L' := fun i hi => hL' (List.mem_append_right _ hi)
  have hLd : Lock.unique (.deliveryId draw.deliveryId) ∈ L' := hL' List.mem_cons_self
  have hr₂' := hr₁.trans (hr₂.subset (List.subset_append_right _ L))
  have hdelivery : db₁.deliveries.Fresh draw.deliveryId :=
    of_decide_eq_true (violation_eq_none.mp (violation_append.mp hok).2 _ List.mem_cons_self)
  refine Safe.query fun db₃ hr₃ o ho => ?_
  have hr₃' := hr₂'.trans (hr₃.subset hsub)
  cases o with
  | none => exact fun db' _ => raises_of_no_key (by simp) hnokey
  | some event =>
    -- The event read back is the row this transaction inserted.
    have hevent : event = candidate lib request key draw digest bytes := by
      obtain ⟨hm, hide⟩ := Table.get?_eq_some.mp ho
      rcases Table.mem_of_mem_insert (show event ∈ db₃.events.insert
        (candidate lib request key draw digest bytes) from hm) with hm | hm
      · exact absurd hide (relies_fresh_event hr₃' hLe hfresh event hm)
      · exact hm
    subst hevent
    intro db₄ hr₄
    have hr := hr₃'.trans (hr₄.subset hsub)
    have hrd := (hr₂.trans (hr₃.subset hL')).trans (hr₄.subset hL')
    exact .accept hid (relies_endpoints hr hep) hdigest hbytes hvalid (relies_fresh_event hr hLe hfresh)
      (relies_fresh_key hr hLk hkey) (relies_fresh_delivery hrd List.mem_cons_self hdelivery)
      (hsub hLe) (hsub hLk) hLd hLs

/-- An event whose first generation is elsewhere never gets one here. -/
theorem no_initial {ev : Event} {i : UUID} (h : Inv lib db) (h' : Inv lib db')
    (hp : Persist db db') (hev : ev ∈ db.events)
    (hnil : (db.deliveries.rows.filter fun d =>
      d.eventId = ev.id && d.endpointId = i && d.replayGeneration = 0) = []) :
    ¬∃ d ∈ db'.deliveries, d.eventId = ev.id ∧ d.endpointId = i ∧ d.replayGeneration = 0 := by
  rintro ⟨d, hd, hde, hdi, hdg⟩
  obtain ⟨d₀, hd₀, hg⟩ := (h.chain ev hev).exists_initial
  obtain ⟨hm₀, he₀⟩ := Db.mem_deliveriesAt.mp hd₀
  obtain ⟨d₁, hd₁, hsame, -⟩ := hp.deliveries d₀ hm₀
  have : d₁ = d := (h'.chain ev (hp.events ev hev)).eq_of_generation
    (Db.mem_deliveriesAt.mpr ⟨hd₁, hsame.eventId.trans he₀⟩) (Db.mem_deliveriesAt.mpr ⟨hd, hde⟩)
    (hsame.replayGeneration.trans (hg.trans hdg.symm))
  subst this
  have hmem := List.filter_eq_nil_iff.mp hnil d₀ hm₀
  simp [he₀, hg, ← hsame.endpointId, hdi] at hmem

/-- The statements after the key turned out to be taken. -/
theorem resolve_safe (hinv : ¬cleanup → Inv lib db) (hpast : ¬cleanup → Persist b db)
    (hdigest : fingerprint lib request = .ok digest) :
    (contract lib cleanup).Safe ((contract lib cleanup).fails (.publish request key draw) b)
      (fun p _ ws L db => Step lib cleanup L db (.publish request key draw) (.published p)
        (view ws db))
      (resolveIdempotentReplay request.endpointId key digest) [] [] [] db := by
  unfold resolveIdempotentReplay
  -- An event with this key that was there at the start is the one found now.
  have found : ∀ {db₁}, (contract lib cleanup).Relies [] [] db db₁ → ¬cleanup →
      ∀ ev ∈ b.events, ev ∈ db₁.events := by
    intro db₁ hr hno ev hev
    exact (relies_persist hr fun hc => absurd hc hno).events ev ((hpast hno).events ev hev)
  refine safe_scalarOneOrNone fun db₁ hr₁ => ⟨fun hnil db' hr' hno => ?_, fun event hrow => ?_,
    fun r r' rs hrows db' hr' hno => ?_⟩
  · refine ⟨by simp, fun ev hev hs hk _ _ => ?_⟩
    have hmem := List.filter_eq_nil_iff.mp hnil ev (found hr₁ hno ev hev)
    simp [hs, hk] at hmem
  · obtain ⟨hm, hsk⟩ := List.mem_filter.mp (hrow ▸ List.mem_singleton_self event)
    simp only [Bool.and_eq_true, decide_eq_true_eq] at hsk
    obtain ⟨hs, hk⟩ := hsk
    have hinv₁ := relies_inv hr₁ hinv
    have same : ¬cleanup → ∀ ev ∈ b.events, ev.source = localSource → ev.idempotencyKey = key →
        ev = event := fun hno ev hev hs' hk' =>
      (hinv₁ hno).keys ev (found hr₁ hno ev hev) event hm (hs'.trans hs.symm) (hk'.trans hk.symm)
    dsimp only
    split
    · rename_i hne
      intro db' hr' hno
      refine ⟨by simp [idempotencyKeyReused], fun ev hev hs' hk' _ hrep => hne ?_⟩
      have := hrep.digest
      rw [hdigest, Except.ok.injEq] at this
      rw [this, same hno ev hev hs' hk']
    · rename_i heq
      have heq : event.requestFingerprintSha256 = digest := by simpa using heq
      refine safe_scalarOneOrNone fun db₂ hr₂ => ⟨fun hnil db' hr' hno => ?_, fun d hrow' => ?_,
        fun r r' rs hrows db' hr' hno => ?_⟩
      · refine ⟨by simp, fun ev hev hs' hk' _ hrep => ?_⟩
        have hev := same hno ev hev hs' hk'
        subst hev
        exact no_initial (relies_inv hr₂ hinv₁ hno) (relies_inv hr' (relies_inv hr₂ hinv₁) hno)
          (relies_persist hr' fun hc => absurd hc hno)
          ((relies_persist hr₂ fun hc => absurd hc hno).events ev hm) hnil hrep.initial
      · obtain ⟨hd, hcond⟩ := List.mem_filter.mp (hrow' ▸ List.mem_singleton_self d)
        simp only [Bool.and_eq_true, decide_eq_true_eq] at hcond
        intro db₃ hr₃
        refine .duplicate (heq ▸ hdigest) fun hno => ?_
        have hp := relies_persist hr₃ fun hc => absurd hc hno
        obtain ⟨row, hrow, hsame, -⟩ := hp.deliveries d hd
        refine ⟨hp.events event ((relies_persist hr₂ fun hc => absurd hc hno).events event hm), hs, hk,
          row, hrow, hsame, ?_⟩
        rw [hsame.eventId, hsame.endpointId, hsame.replayGeneration]
        exact ⟨hcond.1.1, hcond.1.2, hcond.2⟩
      · -- Two first generations of one event.
        have hall : ∀ d ∈ r :: r' :: rs, d ∈ db₂.deliveriesAt event.id ∧ d.replayGeneration = 0 := by
          intro d hd
          obtain ⟨hd, hcond⟩ := List.mem_filter.mp (hrows ▸ hd)
          simp only [Bool.and_eq_true, decide_eq_true_eq] at hcond
          exact ⟨Db.mem_deliveriesAt.mpr ⟨hd, hcond.1.1⟩, hcond.2⟩
        obtain ⟨hr, hrg⟩ := hall r (by simp)
        obtain ⟨hr', hrg'⟩ := hall r' (by simp)
        have hchain := (relies_inv hr₂ hinv₁ hno).chain event
          ((relies_persist hr₂ fun hc => absurd hc hno).events event hm)
        exact absurd (hchain.eq_of_generation hr hr' (hrg.trans hrg'.symm))
          (Table.filter_pair_ne hrows)
  · -- Two events with this key.
    have hall : ∀ ev ∈ r :: r' :: rs, ev ∈ db₁.events ∧ ev.source = localSource ∧
        ev.idempotencyKey = key := by
      intro ev hev
      obtain ⟨hev, hcond⟩ := List.mem_filter.mp (hrows ▸ hev)
      simp only [Bool.and_eq_true, decide_eq_true_eq] at hcond
      exact ⟨hev, hcond⟩
    obtain ⟨hr, hrs, hrk⟩ := hall r (by simp)
    obtain ⟨hr', hrs', hrk'⟩ := hall r' (by simp)
    exact absurd ((relies_inv hr₁ hinv hno).keys r hr r' hr' (hrs.trans hrs'.symm)
      (hrk.trans hrk'.symm)) (Table.filter_pair_ne hrows)

theorem publish_safe (hinv : ¬cleanup → Inv lib b) :
    (contract lib cleanup).Safe ((contract lib cleanup).fails (.publish request key draw) b)
      (fun p _ ws L db => Step lib cleanup L db (.publish request key draw) (.published p)
        (view ws db))
      (publish lib request key draw) [] [] [] b := by
  unfold publish
  refine Safe.query fun db₁ hr₁ o ho => ?_
  cases o with
  | none =>
    intro db' _ hno
    refine ⟨by simp [endpointNotFound], fun ev _ _ _ hep => ?_⟩
    obtain ⟨e, he, hid⟩ := relies_endpoints hr₁ hep
    exact absurd hid (Table.get?_eq_none.mp ho e he)
  | some endpoint =>
    obtain ⟨hep, hepid⟩ := Table.get?_eq_some.mp ho
    dsimp only
    cases hdigest : fingerprint lib request with
    | error err =>
      have none_repeats : ∀ ev db, ¬Repeats lib request key draw ev db := fun ev db hrep => by
        cases hdigest.symm.trans hrep.digest
      cases err <;> exact fun db' _ _ => ⟨by simp [invalidEventData], fun ev _ _ _ _ =>
        none_repeats ev db'⟩
    | ok digest =>
      dsimp only
      cases hbytes : canonicalJsonBytes lib.floatRepr (bodyDocument lib request draw) with
      | error err =>
        have none_repeats : ∀ ev db, ¬Repeats lib request key draw ev db := fun ev db hrep => by
          obtain ⟨bytes, hb, -⟩ := hrep.body
          cases hbytes.symm.trans hb
        cases err <;> exact fun db' _ _ => ⟨by simp, fun ev _ _ _ _ => none_repeats ev db'⟩
      | ok bytes =>
        refine safe_insertIfAbsent fun db₂ hr₂ => ?_
        have hr := hr₁.trans hr₂
        have hpast : ¬cleanup → Persist b db₂ := fun hno => relies_persist hr fun hc => absurd hc hno
        refine ⟨fun hn => ?_, fun _ => ?_, fun c hc hv db' _ hno => ⟨by simp, ?_⟩⟩
        · obtain ⟨hvalid, hun⟩ := violation_append.mp hn
          have hkey : ∀ e ∈ db₂.events, e.source = localSource → e.idempotencyKey ≠ key := by
            intro e he hs hk
            have hall := violation_eq_none.mp hun _ List.mem_cons_self
            have := List.all_eq_true.mp hall e he
            simp [candidate, hs, hk] at this
          have hfresh : db₂.events.Fresh draw.eventId :=
            of_decide_eq_true (violation_eq_none.mp hun _ (List.mem_cons_of_mem _ List.mem_cons_self))
          exact accepted_safe hepid (relies_endpoints hr₂ ⟨endpoint, hep, rfl⟩) hdigest hbytes hvalid
            hfresh hkey (fun hno ev hev => hkey ev ((hpast hno).events ev hev)) List.mem_cons_self
            (by simp [Write.keys, candidate])
        · exact resolve_safe (relies_inv hr hinv) hpast hdigest
        · -- The row itself is at fault, or an id that is already taken.
          intro ev hev hs hk _ hrep
          obtain ⟨bytes', hb, hvalid⟩ := hrep.body
          have hb' : bytes = bytes' := Except.ok.inj (hbytes.symm.trans hb)
          have hd' : digest = ev.requestFingerprintSha256 :=
            Except.ok.inj (hdigest.symm.trans hrep.digest)
          subst hb' hd'
          rcases violation_append_some hv with hv | ⟨-, hv⟩
          · rw [hvalid] at hv
            cases hv
          · rw [violation_cons_of_false] at hv
            · exact hc (Option.some.inj hv).symm
            · rw [List.all_eq_false]
              exact ⟨ev, (hpast hno).events ev hev, by simp [candidate, hs, hk]⟩

end Publish

end EventHarbor
