import EventHarbor.Properties.Ledger
import EventHarbor.Serialization.Uuid

/-!
# Ingestion is idempotent

An idempotency key names one event, whose request is recognised by its
fingerprint. Two requests have one fingerprint exactly when they agree on the
endpoint, on the type and on the data up to the order of keys.
-/

namespace EventHarbor

open Relational EventService

/-! ## Fingerprints -/

/-- The requests that ask for the same event. -/
def SameRequest (r r' : EventPublishRequest) : Prop :=
  r.endpointId = r'.endpointId ∧ r.type = r'.type ∧
    (Json.obj r.data).sorted = (Json.obj r'.data).sorted

theorem PyStr.ofChars_inj {cs ds : List Char} (h : PyStr.ofChars cs = PyStr.ofChars ds) :
    cs = ds := by
  refine List.map_injective_iff.mpr (fun a b hab => ?_) h
  have hval : (CodePoint.ofChar a).val = (CodePoint.ofChar b).val := by rw [hab]
  exact Char.toNat_inj.mp hval

/-- In objects with distinct keys a key has one value. -/
theorem eq_of_sorted {ms ms' : List (PyStr × Json)}
    (h : (Json.obj ms).sorted = (Json.obj ms').sorted) (hms : (ms'.map Prod.fst).Nodup)
    {k : PyStr} {v v' : Json} (hv : (k, v) ∈ ms) (hv' : (k, v') ∈ ms') : v.sorted = v'.sorted := by
  have hmem : ∀ {ms : List (PyStr × Json)} {k v}, (k, v) ∈ ms →
      (k, v.sorted) ∈ Json.membersSorted ms := by
    intro ms k v hv
    induction ms with
    | nil => cases hv
    | cons m ms ih =>
      rcases List.mem_cons.mp hv with rfl | hv
      · exact List.mem_cons_self ..
      · exact List.mem_cons_of_mem _ (ih hv)
  have hperm : (Json.membersSorted ms).Perm (Json.membersSorted ms') := by
    have heq : sortKeys (Json.membersSorted ms) = sortKeys (Json.membersSorted ms') :=
      Json.obj.inj h
    exact (sortKeys_perm _).symm.trans (heq ▸ sortKeys_perm _)
  have hnodup : ((Json.membersSorted ms').map Prod.fst).Nodup := by
    rw [keys_membersSorted]
    exact hms
  have heq := List.inj_on_of_nodup_map hnodup (hperm.mem_iff.mp (hmem hv)) (hmem hv') rfl
  exact congrArg Prod.snd heq

theorem fingerprintDocument_distinct (r : EventPublishRequest) :
    (fingerprintDocument r).distinct = true := by
  have hkeys : ((([PyStr.ofString "endpoint_id", PyStr.ofString "type",
    PyStr.ofString "data"] : List PyStr))).Nodup := by decide
  refine (membersDistinct_iff _).mpr ⟨hkeys, ?_⟩
  simp only [List.forall_mem_cons]
  exact ⟨rfl, rfl, r.distinct, by simp⟩

/-- Documents are the same up to key order when the requests are. -/
theorem fingerprintDocument_sorted {r r' : EventPublishRequest} :
    (fingerprintDocument r).sorted = (fingerprintDocument r').sorted ↔ SameRequest r r' := by
  refine ⟨fun h => ?_, fun ⟨hep, htype, hdata⟩ => ?_⟩
  · have hkeys := keys_nodup (fingerprintDocument_distinct r')
    have hep := eq_of_sorted h hkeys (List.mem_cons_self ..) (List.mem_cons_self ..)
    have htype := eq_of_sorted h hkeys (List.mem_cons_of_mem _ (List.mem_cons_self ..))
      (List.mem_cons_of_mem _ (List.mem_cons_self ..))
    have hdata := eq_of_sorted h hkeys
      (List.mem_cons_of_mem _ (List.mem_cons_of_mem _ (List.mem_cons_self ..)))
      (List.mem_cons_of_mem _ (List.mem_cons_of_mem _ (List.mem_cons_self ..)))
    refine ⟨UUID.chars_inj (PyStr.ofChars_inj (Json.str.inj hep)), ?_, hdata⟩
    exact String.toList_inj.mp (PyStr.ofChars_inj (Json.str.inj htype))
  · simp only [fingerprintDocument, Json.sorted, Json.membersSorted] at hdata ⊢
    rw [hep, htype, hdata]

section Fingerprints

variable {lib : Lib} {request request' : EventPublishRequest} {digest : String}

theorem fingerprint_ok : fingerprint lib request = .ok digest ↔
    ∃ bytes, canonicalJsonBytes lib.floatRepr (fingerprintDocument request) = .ok bytes ∧
      lib.sha256Hex bytes = digest := by
  unfold fingerprint
  cases canonicalJsonBytes lib.floatRepr (fingerprintDocument request) <;> simp [Except.map]

/-- The fingerprint of a request that was accepted is that of the same requests. -/
theorem fingerprint_iff (hhash : Function.Injective lib.sha256Hex) (hfloat : FloatRepr lib.floatRepr)
    (h : fingerprint lib request' = .ok digest) :
    fingerprint lib request = .ok digest ↔ SameRequest request request' := by
  obtain ⟨bytes', hbytes', hdigest'⟩ := fingerprint_ok.mp h
  refine ⟨fun hsame => ?_, fun hsame => ?_⟩
  · obtain ⟨bytes, hbytes, hdigest⟩ := fingerprint_ok.mp hsame
    obtain rfl := hhash (hdigest.trans hdigest'.symm)
    exact fingerprintDocument_sorted.mp (canonicalJsonBytes_inj hfloat hbytes hbytes'
      (fingerprintDocument_distinct request) (fingerprintDocument_distinct request'))
  · refine fingerprint_ok.mpr ⟨bytes', ?_, hdigest'⟩
    rw [canonicalJsonBytes_congr (fingerprintDocument_sorted.mpr hsame), hbytes']

theorem plain_str {s : PyStr} : Plain ((Json.str s).text lib.floatRepr) ↔ Plain s := plain_quote

/-- A request with a fingerprint has a body. -/
theorem body_of_fingerprint (draw : PublishDraw) (h : fingerprint lib request = .ok digest) :
    ∃ bytes, canonicalJsonBytes lib.floatRepr (bodyDocument lib request draw) = .ok bytes ∧
      0 < bytes.length := by
  obtain ⟨bytes, hbytes, -⟩ := fingerprint_ok.mp h
  obtain ⟨hfinite, hencode⟩ := canonicalJsonBytes_ok.mp hbytes
  have hdata : (Json.obj request.data).finite = true :=
    membersFinite_of hfinite (List.mem_cons_of_mem _ (List.mem_cons_of_mem _ (List.mem_cons_self ..)))
  have hplain : Plain ((Json.obj request.data).text lib.floatRepr) :=
    (plain_obj.mp (encodeUtf8_eq_some.mp hencode).1 _
      (List.mem_cons_of_mem _ (List.mem_cons_of_mem _ (List.mem_cons_self ..)))).2
  have hbody : Plain ((bodyDocument lib request draw).text lib.floatRepr) := by
    refine plain_obj.mpr ?_
    simp only [List.forall_mem_cons, plain_str]
    exact ⟨⟨plain_ofChars _, plain_ofChars _⟩, ⟨plain_ofChars _, plain_ofChars _⟩,
      ⟨plain_ofChars _, plain_ofChars _⟩, ⟨plain_ofChars _, hplain⟩, by simp⟩
  refine ⟨_, canonicalJsonBytes_ok.mpr ⟨?_, encodeUtf8_eq_some.mpr ⟨hbody, rfl⟩⟩, ?_⟩
  · rw [bodyDocument, Json.finite, membersFinite_eq]
    simp only [List.all_cons, hdata]
    rfl
  · simp only [bodyDocument, Json.text, List.flatMap_cons, List.length_append]
    exact Nat.add_pos_left (by decide) _

mutual

theorem Json.isJsonb_sorted : ∀ j : Json, j.sorted.isJsonb = j.isJsonb
  | .null | .bool _ | .int _ | .float _ | .str _ => rfl
  | .arr xs => Json.itemsJsonb_sorted xs
  | .obj ms => by
    have heq : ∀ ms, Json.membersJsonb ms = ms.all fun m => m.1.all (·.val ≠ 0) && m.2.isJsonb := by
      intro ms
      induction ms with
      | nil => rfl
      | cons m ms ih => simp only [Json.membersJsonb, ih, List.all_cons]
    simp only [Json.sorted, Json.isJsonb]
    rw [heq, (sortKeys_perm _).all_eq, ← heq]
    exact Json.membersJsonb_sorted ms

theorem Json.itemsJsonb_sorted :
    ∀ xs : List Json, Json.itemsJsonb (Json.itemsSorted xs) = Json.itemsJsonb xs
  | [] => rfl
  | x :: xs => by
    simp only [Json.itemsSorted, Json.itemsJsonb]
    rw [Json.isJsonb_sorted x, Json.itemsJsonb_sorted xs]

theorem Json.membersJsonb_sorted : ∀ ms : List (PyStr × Json),
    Json.membersJsonb (Json.membersSorted ms) = Json.membersJsonb ms
  | [] => rfl
  | (k, v) :: ms => by
    simp only [Json.membersSorted, Json.membersJsonb]
    rw [Json.isJsonb_sorted v, Json.membersJsonb_sorted ms]

end

end Fingerprints

/-! ## Runs -/

/-- A commit that recorded an event under `key`. -/
def records (key : String) : Request × Response → Bool
  | (.publish _ k _, .published p) => k = key && !p.idempotentReplay
  | _ => false

/-- What a successful publication answers is in the store. -/
structure Answered (lib : Lib) (request : EventPublishRequest) (key : String) (p : PublishedEvent)
    (db : Db) : Prop where
  event : p.event ∈ db.events
  source : p.event.source = localSource
  key : p.event.idempotencyKey = key
  fingerprint : fingerprint lib request = .ok p.event.requestFingerprintSha256
  delivery : ∃ d ∈ db.deliveries, SameDelivery p.delivery d ∧ d.eventId = p.event.id ∧
    d.endpointId = request.endpointId ∧ d.replayGeneration = 0

section Ingestion

variable {lib : Lib} {cleanup : Prop} {L : List Lock} {db db' : Db} {key : String}
  {request : EventPublishRequest} {draw : PublishDraw} {h : List (Request × Response)}

theorem Answered.persist {p : PublishedEvent} (hs : Answered lib request key p db)
    (hp : Persist db db') : Answered lib request key p db' where
  event := hp.events _ hs.event
  source := hs.source
  key := hs.key
  fingerprint := hs.fingerprint
  delivery := by
    obtain ⟨d, hd, hsame, he, hep, hg⟩ := hs.delivery
    obtain ⟨d', hd', hsame', -⟩ := hp.deliveries d hd
    exact ⟨d', hd', hsame.trans hsame', hsame'.eventId.trans he, hsame'.endpointId.trans hep,
      hsame'.replayGeneration.trans hg⟩

theorem Step.answered {a : Response} (hno : ¬cleanup)
    (hs : Step lib cleanup L db (.publish request key draw) a db') :
    ∃ p, a = .published p ∧ Answered lib request key p db' := by
  cases hs with
  | accept hid hep hdigest hbytes hvalid hevent hkey hdelivery hLe hLk hLd hLs =>
    exact ⟨_, rfl, (Table.mem_insert hevent).mpr (.inr rfl), rfl, rfl, hdigest, _,
      (Table.mem_insert hdelivery).mpr (.inr rfl), .refl _, rfl, hid, rfl⟩
  | duplicate hdigest hrow =>
    obtain ⟨hev, hsource, hkey, hdelivery⟩ := hrow hno
    exact ⟨_, rfl, hev, hsource, hkey, hdigest, hdelivery⟩

/-- An event enters the store with the answer to its request. -/
theorem Step.recorded {r : Request} {a : Response} (hno : ¬cleanup)
    (hs : Step lib cleanup L db r a db') {e : Event} (he : e ∈ db'.events) :
    e ∈ db.events ∨ ∃ request draw p, r = .publish request e.idempotencyKey draw ∧
      a = .published p ∧ p.event = e ∧ p.idempotentReplay = false := by
  cases hs with
  | accept hid hep hdigest hbytes hvalid hevent hkey hdelivery hLe hLk hLd hLs =>
    rcases (Table.mem_insert hevent).mp he with he | rfl
    · exact .inl he
    · exact .inr ⟨_, _, _, rfl, rfl, rfl, rfl⟩
  | purge hc hL hids hend => exact absurd hc hno
  | _ => exact .inl he

/-- Along a trace every answer of a publication is in the store. -/
theorem trace_answered (ht : (contract lib False).Trace [] Db.empty h db) {p : PublishedEvent}
    (hm : (Request.publish request key draw, Response.published p) ∈ h) :
    Answered lib request key p db := by
  induction ht with
  | nil => cases hm
  | snoc ht ha hinv hc ih =>
    rcases List.mem_append.mp hm with hm | hm
    · exact (ih hm).persist (hc.effect.persist fun hcl => hcl.elim)
    · cases List.mem_singleton.mp hm
      obtain ⟨v, hv, hans⟩ := hc.answered not_false
      cases hv
      exact hans

/-- Along a trace every event was recorded by a publication. -/
theorem trace_recorded (ht : (contract lib False).Trace [] Db.empty h db) {e : Event}
    (he : e ∈ db.events) : ∃ request draw p,
      (Request.publish request e.idempotencyKey draw, Response.published p) ∈ h ∧
      p.event = e ∧ p.idempotentReplay = false := by
  induction ht with
  | nil => exact absurd he (Table.not_mem_empty e)
  | snoc ht ha hinv hc ih =>
    rcases hc.recorded not_false he with he | ⟨request, draw, p, rfl, rfl, hp, hfirst⟩
    · obtain ⟨request, draw, p, hm, hp, hfirst⟩ := ih he
      exact ⟨request, draw, p, List.mem_append_left _ hm, hp, hfirst⟩
    · exact ⟨request, draw, p, List.mem_append_right _ (List.mem_singleton.mpr rfl), hp, hfirst⟩

theorem trace_records_once (ht : (contract lib False).Trace [] Db.empty h db) :
    h.countP (records key) ≤ 1 := by
  induction ht with
  | nil => simp
  | @snoc h db r a L db' ht ha hinv hc ih =>
    rw [List.countP_append, List.countP_singleton]
    split
    case isFalse => exact ih
    case isTrue hx =>
      -- A recording commit found the key unused, so there was none before it.
      have hzero : h.countP (records key) = 0 := by
        by_contra hne
        obtain ⟨⟨r', a'⟩, hm, hrec⟩ := List.countP_pos_iff.mp (Nat.pos_of_ne_zero hne)
        cases r' with
        | publish request' k draw' =>
          cases a' with
          | published p' =>
            simp only [records, Bool.and_eq_true, decide_eq_true_eq] at hrec
            have hans := trace_answered ht hm
            cases hc with
            | @accept request k draw digest bytes ep hid hep hdigest hbytes hvalid hevent hkey =>
              have hk : k = key := by simpa [records] using hx
              exact hkey _ hans.event hans.source (by rw [hans.key, hrec.1, hk])
            | duplicate => simp [records] at hx
            | _ => cases hx
          | _ => cases hrec
        | _ => cases hrec
      omega

/-- An event has its one initial delivery. -/
theorem Inv.initial (hinv : Inv lib db) {e : Event} (he : e ∈ db.events) :
    ∃ d ∈ db.deliveries, d.eventId = e.id ∧ d.replayGeneration = 0 ∧
      ∀ d' ∈ db.deliveries, d'.eventId = e.id → d'.replayGeneration = 0 → d' = d := by
  have hchain := hinv.chain e he
  obtain ⟨d, hd, hg⟩ := hchain.exists_initial
  obtain ⟨hmem, hev⟩ := Db.mem_deliveriesAt.mp hd
  refine ⟨d, hmem, hev, hg, fun d' hd' hev' hg' => ?_⟩
  exact hchain.eq_of_generation (Db.mem_deliveriesAt.mpr ⟨hd', hev'⟩) hd (hg'.trans hg.symm)

/-- The same request can always be answered from the store. -/
theorem Inv.repeats (hinv : Inv lib db) (hhash : Function.Injective lib.sha256Hex)
    (hfloat : FloatRepr lib.floatRepr) {request₀ : EventPublishRequest} {p : PublishedEvent}
    (hs : Answered lib request₀ key p db) (hsame : SameRequest request request₀) :
    Repeats lib request key draw p.event db := by
  have hdigest := (fingerprint_iff hhash hfloat hs.fingerprint).mpr hsame
  obtain ⟨bytes, hbytes, hpos⟩ := body_of_fingerprint draw hdigest
  refine ⟨hdigest, ⟨bytes, hbytes, ?_⟩, ?_⟩
  · -- The columns that are checked were accepted once.
    obtain ⟨request₁, hacc⟩ := hinv.accepted _ hs.event
    have hsame₁ := (fingerprint_iff hhash hfloat hacc.fingerprint).mp hdigest
    have hjsonb : Json.membersJsonb request.data = Json.membersJsonb p.event.payload := by
      have := (Json.obj request.data).isJsonb_sorted
      rw [hsame₁.2.2, Json.isJsonb_sorted] at this
      rw [hacc.data]
      exact this.symm
    have hchecks := hinv.eventChecks _ hs.event
    simp only [violation_eq_none, Event.checks, List.forall_mem_cons] at hchecks ⊢
    simp only [candidate, hjsonb, hsame₁.2.1, ← hacc.type, ← hs.key, ← hs.source]
    exact ⟨hchecks.1, hchecks.2.1, hchecks.2.2.1, hchecks.2.2.2.1, hchecks.2.2.2.2.1,
      decide_eq_true hpos, by simp⟩
  · obtain ⟨d, hd, -, he, hep, hg⟩ := hs.delivery
    exact ⟨d, hd, he, hep.trans hsame.1.symm, hg⟩

/-- A publication under a used key is answered when it asks for the same. -/
theorem Step.same_request {a : Response} (hs : Step lib False L db (.publish request key draw) a db')
    (hinv : Inv lib db) (hhash : Function.Injective lib.sha256Hex)
    (hfloat : FloatRepr lib.floatRepr) {request₀ : EventPublishRequest} {p : PublishedEvent}
    (hans : Answered lib request₀ key p db) : SameRequest request request₀ := by
  cases hs with
  | accept hid hep hdigest hbytes hvalid hevent hkey =>
    exact absurd hans.key (hkey _ hans.event hans.source)
  | duplicate hdigest hrow =>
    obtain ⟨hev, hsource, hkey, -⟩ := hrow not_false
    obtain rfl := hinv.keys _ hev _ hans.event (hsource.trans hans.source.symm)
      (hkey.trans hans.key.symm)
    exact (fingerprint_iff hhash hfloat hans.fingerprint).mp hdigest

/-- A publication that runs alone under a used key. -/
theorem publish_run (hhash : Function.Injective lib.sha256Hex) (hfloat : FloatRepr lib.floatRepr)
    (hinv : Inv lib db) {request₀ : EventPublishRequest} {p : PublishedEvent}
    (hans : Answered lib request₀ key p db)
    (hep : ∃ ep ∈ db.endpoints, ep.id = request.endpointId) :
    (∃ q db', (publish lib request key draw).run db = .ok (q, db')) ↔
      SameRequest request request₀ := by
  have hsafe : (contract lib False).Safe ((contract lib False).fails (.publish request key draw) db)
      (fun q _ ws L db => Step lib False L db (.publish request key draw) (.published q)
        (Txn.view ws db)) (publish lib request key draw) [] [] [] db :=
    publish_safe fun _ => hinv
  have hrun := hsafe.run
  rw [Txn.view_nil] at hrun
  cases hpub : (publish lib request key draw).run db with
  | ok q =>
    rw [hpub] at hrun
    obtain ⟨g', ws', L', -, hstep⟩ := hrun
    have hsame := Step.same_request hstep hinv hhash hfloat hans
    exact ⟨fun _ => hsame, fun _ => ⟨q.1, q.2, rfl⟩⟩
  | error e =>
    rw [hpub] at hrun
    have hno := (hrun not_false).2 _ hans.event hans.source hans.key hep
    constructor
    · rintro ⟨q, db', ⟨⟩⟩
    · intro hsame
      exact absurd (hinv.repeats hhash hfloat hans hsame) hno

/-- A publication that started when its key had an event and its endpoint existed. -/
theorem publish_answer {ls : List Shown} {s s' : System} (hhash : Function.Injective lib.sha256Hex)
    (hfloat : FloatRepr lib.floatRepr) (hr : Reaches lib ls s)
    {request₀ : EventPublishRequest} {draw₀ : PublishDraw} {p : PublishedEvent}
    (hp : (Request.publish request₀ key draw₀, Response.published p) ∈ history ls)
    {c : Session ℕ Request Db Write Lock (List UUID) Error Response} (hc : c ∈ s.sessions)
    (hreq : c.req = .publish request key draw) (hev : p.event ∈ c.born.events)
    (hep : ∃ ep ∈ c.born.endpoints, ep.id = request.endpointId) {x : Action ℕ Request} {m : Shown}
    (hx : s.act (Request.code lib) x = some (m, s')) :
    (∀ r a, m = .commit c.id r a → SameRequest request request₀) ∧
    (∀ r e, m = .fail c.id r e → ¬SameRequest request request₀) := by
  have hinv := reaches_inv hr
  have hans := trace_answered (reaches_sound hr).trace hp
  constructor
  · rintro r a rfl
    obtain ⟨-, hstep⟩ := reaches_commit hr hc hx
    rw [hreq] at hstep
    exact hstep.same_request hinv hhash hfloat hans
  · rintro r e rfl hsame
    obtain ⟨-, -, hraises⟩ := reaches_fail hr hc hx
    rw [hreq] at hraises
    exact hraises.2 _ hev hans.source hans.key hep (hinv.repeats hhash hfloat hans hsame)

/-- Publications record one event for a key with one initial delivery, and agree on it. -/
theorem ingestion_idempotent (hhash : Function.Injective lib.sha256Hex)
    (hfloat : FloatRepr lib.floatRepr) {ls : List Shown} {s : System} (hr : Reaches lib ls s) :
    (∀ key, (history ls).countP (records key) ≤ 1) ∧
    (∀ e ∈ s.db.events, ∀ f ∈ s.db.events, e.idempotencyKey = f.idempotencyKey → e = f) ∧
    (∀ key request draw p request' draw' p',
      (Request.publish request key draw, Response.published p) ∈ history ls →
      (Request.publish request' key draw', Response.published p') ∈ history ls →
      p.event.id = p'.event.id ∧ p.delivery.id = p'.delivery.id ∧
        p.delivery.replayGeneration = 0) ∧
    (∀ key request₀ draw₀ p, (Request.publish request₀ key draw₀, Response.published p) ∈ history ls →
      ∀ c ∈ s.sessions, ∀ request draw, c.req = .publish request key draw →
      p.event ∈ c.born.events → (∃ ep ∈ c.born.endpoints, ep.id = request.endpointId) →
      ∀ x m s', s.act (Request.code lib) x = some (m, s') →
        (∀ r a, m = .commit c.id r a → SameRequest request request₀) ∧
        (∀ r e, m = .fail c.id r e → ¬SameRequest request request₀)) ∧
    (∀ key request₀ draw₀ p, (Request.publish request₀ key draw₀, Response.published p) ∈ history ls →
      ∀ request draw, (∃ ep ∈ s.db.endpoints, ep.id = request.endpointId) →
        ((∃ q db', (publish lib request key draw).run s.db = .ok (q, db')) ↔
          SameRequest request request₀)) ∧
    (∀ e ∈ s.db.events, ∃ request draw p,
      (Request.publish request e.idempotencyKey draw, Response.published p) ∈ history ls ∧
      p.event = e ∧ p.idempotentReplay = false ∧
      ∃ d ∈ s.db.deliveries, d.eventId = e.id ∧ d.replayGeneration = 0 ∧
        d.endpointId = request.endpointId ∧
        ∀ d' ∈ s.db.deliveries, d'.eventId = e.id → d'.replayGeneration = 0 → d' = d) ∧
    (∀ x t r e s', s.act (Request.code lib) x = some (.fail t r e, s') → s'.db = s.db) := by
  have ht := (reaches_sound hr).trace
  have hinv := reaches_inv hr
  refine ⟨fun key => trace_records_once ht, fun e he f hf hk => ?_,
    fun key request draw p request' draw' p' hm hm' => ?_,
    fun key request₀ draw₀ p hm c hc request draw hreq hev hep x m s' hx =>
      publish_answer hhash hfloat hr hm hc hreq hev hep hx,
    fun key request₀ draw₀ p hm request draw hep =>
      publish_run hhash hfloat hinv (trace_answered ht hm) hep,
    fun e he => ?_, fun x t r e s' hx => (reaches_meets hr hx trivial).1⟩
  · obtain ⟨r, hacc⟩ := hinv.accepted e he
    obtain ⟨r', hacc'⟩ := hinv.accepted f hf
    exact hinv.keys e he f hf (hacc.source.trans hacc'.source.symm) hk
  · have hans := trace_answered ht hm
    have hans' := trace_answered ht hm'
    have heq := hinv.keys _ hans.event _ hans'.event (hans.source.trans hans'.source.symm)
      (hans.key.trans hans'.key.symm)
    obtain ⟨d, hd, hsame, he, -, hg⟩ := hans.delivery
    obtain ⟨d', hd', hsame', he', -, hg'⟩ := hans'.delivery
    obtain ⟨d₀, -, -, -, huniq⟩ := hinv.initial hans.event
    have hdd : d = d' := (huniq d hd he hg).trans
      (huniq d' hd' (he'.trans (by rw [heq])) hg').symm
    exact ⟨by rw [heq], by rw [← hsame.id, ← hsame'.id, hdd], hsame.replayGeneration ▸ hg⟩
  · obtain ⟨request, draw, p, hm, rfl, hfirst⟩ := trace_recorded ht he
    obtain ⟨d, hd, -, hev, hep, hg⟩ := (trace_answered ht hm).delivery
    obtain ⟨d₀, -, -, -, huniq⟩ := hinv.initial he
    refine ⟨request, draw, p, hm, rfl, hfirst, d, hd, hev, hg, hep, fun d' hd' hev' hg' => ?_⟩
    exact (huniq d' hd' hev' hg').trans (huniq d hd hev hg).symm

end Ingestion

namespace Sample

theorem floatRepr_repr : FloatRepr floatRepr where
  shape := by
    intro x _
    refine ⟨false, PyStr.ofChars (Nat.toDigits 10 x.bits.toNat),
      [CodePoint.ofChar '.', CodePoint.ofChar '0'], [], by simp [floatRepr, PyStr.ofChars],
      numeral_toDigits _, .fraction (by simp) fun c hc => ?_⟩
    rw [List.mem_singleton.mp hc]
    rfl
  injective := by
    intro x y _ _ h
    have hdigits : Nat.toDigits 10 x.bits.toNat = Nat.toDigits 10 y.bits.toNat :=
      (List.append_inj' h rfl).1
    have hbits : x.bits.toNat = y.bits.toNat := by
      rw [← natOfDigits_toDigits x.bits.toNat, hdigits, natOfDigits_toDigits]
    cases x
    cases y
    exact congrArg PyFloat.mk (BitVec.eq_of_toNat_eq hbits)

theorem sha256Hex_injective : Function.Injective sha256Hex := by
  -- The first digit tells which document was hashed.
  have hfirst : ∀ b, (sha256Hex b).toList.head? =
      some (if b = fingerprintBytes then '1' else if b = bodyBytes then 'd' else 'x') := by
    intro b
    unfold sha256Hex
    split_ifs
    · rfl
    · rfl
    · rw [String.toList_ofList, List.head?_cons]
  intro b b' h
  have hhead := (hfirst b).symm.trans ((congrArg (·.toList.head?) h).trans (hfirst b'))
  rw [Option.some.injEq] at hhead
  by_cases h₁ : b = fingerprintBytes
  · by_cases h₁' : b' = fingerprintBytes
    · rw [h₁, h₁']
    · rw [if_pos h₁, if_neg h₁'] at hhead
      split at hhead <;> cases hhead
  · by_cases h₁' : b' = fingerprintBytes
    · rw [if_neg h₁, if_pos h₁'] at hhead
      split at hhead <;> cases hhead
    · rw [if_neg h₁, if_neg h₁'] at hhead
      split at hhead <;> split at hhead
      case isTrue.isTrue h₂ h₂' => rw [h₂, h₂']
      case isFalse.isFalse h₂ h₂' =>
        rw [sha256Hex, if_neg h₁, if_neg h₂, sha256Hex, if_neg h₁', if_neg h₂', String.ofList_inj,
          List.cons.injEq] at h
        exact flatMap_hexDigits_inj h.2
      all_goals cases hhead

/-- The same request with its keys in another order. -/
def reordered : EventPublishRequest where
  endpointId := 1
  type := "order.created"
  data := order.data.reverse
  distinct := by decide +kernel

/-- Two publications race for one key; a third starts after both. -/
def race : List (Action ℕ Request) :=
  Sys.alone 0 register 2 ++
  [.start 1 (publish 2 3), .start 2 (publish 4 5), .next 1, .next 2] ++
  List.replicate 8 (.next 1) ++ List.replicate 4 (.next 2) ++
  [.start 3 (.publish reordered "order-42"
    { eventId := 6, deliveryId := 7, createdAt := epoch, transactionNow := epoch })]

end Sample

theorem ingestion_idempotent_of_race : ∃ ls s, Reaches Sample.lib ls s ∧
    (history ls).length = 3 ∧ s.sessions.rows.length = 1 ∧ s.db.events.rows.length = 1 ∧
    (∀ key, (history ls).countP (records key) ≤ 1) ∧
    ∀ e ∈ s.db.events, ∀ f ∈ s.db.events, e.idempotencyKey = f.idempotencyKey → e = f := by
  have hplay : (Sys.play (Request.code Sample.lib) Ordinary [] (.idle Db.empty)
      Sample.race).any (fun p => (history p.1).length = 3 && p.2.sessions.rows.length = 1 &&
        p.2.db.events.rows.length = 1) = true := by
    decide +kernel
  obtain ⟨ls, s, hr, h⟩ := Sys.exists_run hplay
  simp only [Bool.and_eq_true, decide_eq_true_eq] at h
  obtain ⟨honce, hkeys, -⟩ :=
    ingestion_idempotent Sample.sha256Hex_injective Sample.floatRepr_repr hr
  exact ⟨ls, s, hr, h.1.1, h.1.2, h.2, honce, hkeys⟩

end EventHarbor
