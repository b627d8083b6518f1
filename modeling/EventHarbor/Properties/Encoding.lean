import EventHarbor.Properties.CanonicalForm
import EventHarbor.Properties.Consistency
import EventHarbor.Properties.DeadLetters
import EventHarbor.Relational.Errors
import EventHarbor.Serialization.Nesting

/-!
# Which errors leave the encoding

`canonical_json_bytes` and `EventService.publish` declare their failures. A lone
surrogate, a nesting beyond the recursion limit and data that the database
refuses leave them as other exceptions.
-/

namespace EventHarbor

open Relational EventService

/-! ## Publication under limits -/

/-- What the interpreter and the database can take. -/
structure Limits where
  /-- the containers that `json.dumps` may enter -/
  containers : ℕ
  /-- the database's own limits on the nesting and the size of data -/
  takes : List (PyStr × Json) → Bool

namespace EventService

def recursionError : Error :=
  .runtime "maximum recursion depth exceeded while encoding a JSON object"

/-- `publish`, where the nesting and the size of the data count. -/
def publishWithin (limits : Limits) (lib : Lib) (request : EventPublishRequest)
    (idempotencyKey : String) (draw : PublishDraw) : Tx PublishedEvent := do
  match ← EndpointRepository.get request.endpointId with
  | none => Txn.fail (endpointNotFound request.endpointId)
  | some endpoint =>
    match canonicalJsonBytesWithin lib.floatRepr limits.containers (fingerprintDocument request) with
    -- `publish` catches the declared error of the fingerprint and no other.
    | .error .recursion => Txn.fail recursionError
    | .error (.canonical .canonicalJSON) => Txn.fail invalidEventData
    | .error (.canonical .unicodeEncode) => Txn.fail .unicodeEncode
    | .ok fingerprintBytes =>
      match canonicalJsonBytesWithin lib.floatRepr limits.containers
        (bodyDocument lib request draw) with
      | .error .recursion => Txn.fail recursionError
      | .error (.canonical .canonicalJSON) => Txn.fail (.value "value is not valid JSON")
      | .error (.canonical .unicodeEncode) => Txn.fail .unicodeEncode
      | .ok payloadBytes =>
        if limits.takes request.data then
          accept request draw endpoint
            (candidate lib request idempotencyKey draw (lib.sha256Hex fingerprintBytes) payloadBytes)
        else Txn.fail (.database .programLimitExceeded)

end EventService

/-- The exceptions of the encoding step that are not a `DomainError`. -/
def Error.ofEncoding : Error → Bool
  | .unicodeEncode | .value _ => true
  | _ => false

section Declared

variable {lib : Lib}

/-- A number that `json.dumps` refuses comes before any container that is nested
too deeply. -/
def Json.Refused (limit : ℕ) (j : Json) : Prop := (j.offences limit).head? = some .number

/-- The encoding refuses a number, nests too deeply or gets to the text. -/
theorem canonicalJsonBytesWithin_cases (limit : ℕ) (j : Json) :
    (j.Refused limit ∧ canonicalJsonBytesWithin lib.floatRepr limit j =
      .error (.canonical .canonicalJSON)) ∨
    (¬j.Refused limit ∧ ¬j.depth ≤ limit ∧
      canonicalJsonBytesWithin lib.floatRepr limit j = .error .recursion) ∨
    (j.finite = true ∧ ¬j.Refused limit ∧ j.depth ≤ limit) := by
  unfold Json.Refused
  cases hfirst : (j.offences limit).head? with
  | none =>
    obtain ⟨hfinite, hdepth⟩ := (j.offences_eq_nil limit).mp (List.head?_eq_none_iff.mp hfirst)
    exact .inr (.inr ⟨hfinite, by simp, hdepth⟩)
  | some o =>
    cases o with
    | number => exact .inl ⟨rfl, by simp [canonicalJsonBytesWithin, hfirst]⟩
    | nesting =>
      exact .inr (.inl ⟨by simp, fun h => j.nesting_notMem limit h (List.mem_of_mem_head? hfirst),
        by simp [canonicalJsonBytesWithin, hfirst]⟩)

/-- The text of finite numbers has bytes unless a surrogate stands alone. -/
theorem canonicalJsonBytes_of_finite {j : Json} (h : j.finite = true) :
    (∃ bytes, canonicalJsonBytes lib.floatRepr j = .ok bytes ∧ j.scalar = true) ∨
      canonicalJsonBytes lib.floatRepr j = .error .unicodeEncode ∧ j.scalar = false := by
  have herror : canonicalJsonBytes lib.floatRepr j = .error .unicodeEncode ↔
    j.finite = true ∧ j.scalar = false := canonicalJsonBytes_error
  cases hscalar : j.scalar with
  | false => exact .inr ⟨herror.mpr ⟨h, hscalar⟩, rfl⟩
  | true =>
    have hno : canonicalJsonBytes lib.floatRepr j ≠ .error .unicodeEncode := fun he => by
      rw [(herror.mp he).2] at hscalar
      cases hscalar
    unfold canonicalJsonBytes at hno ⊢
    rw [if_pos h] at hno ⊢
    cases hbytes : encodeUtf8 (j.text lib.floatRepr) with
    | some bytes => exact .inl ⟨bytes, rfl, rfl⟩
    | none =>
      rw [hbytes] at hno
      exact absurd rfl hno

/-- Within the limit the encoding fails undeclared for a lone surrogate only. -/
theorem canonicalJsonBytesWithin_declared (limit : ℕ) (j : Json) :
    ((∃ bytes, canonicalJsonBytesWithin lib.floatRepr limit j = .ok bytes) ∨
      canonicalJsonBytesWithin lib.floatRepr limit j = .error (.canonical .canonicalJSON)) ↔
    j.Refused limit ∨ j.depth ≤ limit ∧ j.scalar = true := by
  obtain ⟨href, h⟩ | ⟨href, hdepth, h⟩ | ⟨hfinite, href, hdepth⟩ :=
    @canonicalJsonBytesWithin_cases lib limit j
  · exact iff_of_true (.inr h) (.inl href)
  · rw [h]
    simp [href, hdepth]
  · rw [canonicalJsonBytesWithin_eq hdepth]
    obtain ⟨bytes, h, hscalar⟩ | ⟨h, hscalar⟩ := @canonicalJsonBytes_of_finite lib j hfinite
    · exact iff_of_true (.inl ⟨bytes, by rw [h]; rfl⟩) (.inr ⟨hdepth, hscalar⟩)
    · rw [h]
      simp [Except.mapError, href, hscalar]

theorem throws_scalarOneOrNone {α : Type} {P : Error → Prop} (h : P .multipleResultsFound)
    (rows : Db → List α) : (scalarOneOrNone rows).Throws P := by
  refine Txn.Throws.bind (fun _ => trivial) fun rs => ?_
  match rs with
  | [] => trivial
  | [_] => trivial
  | _ :: _ :: _ => exact h

theorem throws_foreignKey (rowLock : Lock) (present : Db → Bool) (c : Constraint) :
    (foreignKey rowLock present c).Throws (·.ofEncoding = false) := by
  refine Txn.Throws.bind trivial fun _ => Txn.Throws.bind (fun _ => trivial) fun b => ?_
  cases b with
  | true => trivial
  | false => rfl

theorem throws_exec (w : Write) : (Txn.exec w : Tx Unit).Throws (·.ofEncoding = false) := by
  refine Txn.Throws.exec w fun db e he => ?_
  obtain ⟨c, rfl⟩ := check_eq_some he
  rfl

theorem throws_create (d : Delivery) :
    (DeliveryRepository.create d).Throws (·.ofEncoding = false) := by
  refine Txn.Throws.bind (throws_exec _) fun _ => Txn.Throws.bind (throws_foreignKey _ _ _)
    fun _ => Txn.Throws.bind (throws_foreignKey _ _ _) fun _ => ?_
  cases d.replayedFromDeliveryId with
  | none => trivial
  | some source => exact throws_foreignKey _ _ _

theorem throws_insertIfAbsent (event : Event) :
    (EventRepository.insertIfAbsent event).Throws (·.ofEncoding = false) := by
  intro db
  cases he : Engine.check (Write.insertEvent event) db with
  | none => trivial
  | some e =>
    obtain ⟨c, rfl⟩ := check_eq_some he
    cases c <;> trivial

/-- What reading an accepted event back may raise. -/
theorem throws_resolve (i : UUID) (key digest : String) :
    (resolveIdempotentReplay i key digest).Throws fun e =>
      (∃ d, e = .domain d) ∨ (∃ m, e = .runtime m) ∨ e = .multipleResultsFound := by
  refine Txn.Throws.bind (throws_scalarOneOrNone (.inr (.inr rfl)) _) fun o => ?_
  cases o with
  | none => exact .inr (.inl ⟨_, rfl⟩)
  | some event =>
    dsimp only
    split
    · exact .inl ⟨_, rfl⟩
    · refine Txn.Throws.bind (throws_scalarOneOrNone (.inr (.inr rfl)) _) fun o => ?_
      cases o with
      | none => exact .inr (.inl ⟨_, rfl⟩)
      | some d => trivial

/-- After the encoding no such exception is raised any more. -/
theorem throws_accept (request : EventPublishRequest) (draw : PublishDraw) (endpoint : Endpoint)
    (event : Event) : (accept request draw endpoint event).Throws (·.ofEncoding = false) := by
  refine Txn.Throws.bind (throws_insertIfAbsent event) fun inserted => ?_
  cases inserted with
  | true =>
    rw [if_pos rfl]
    unfold acceptInserted
    split
    · rfl
    · refine Txn.Throws.bind (throws_create _) fun _ => Txn.Throws.bind (fun _ => trivial)
        fun o => ?_
      cases o with
      | none => rfl
      | some e => trivial
  | false =>
    refine (throws_resolve _ _ _).mono fun e he => ?_
    rcases he with ⟨d, rfl⟩ | ⟨m, rfl⟩ | rfl <;> rfl

theorem fingerprint_error {request : EventPublishRequest} {e : CanonicalError}
    (h : fingerprint lib request = .error e) :
    canonicalJsonBytes lib.floatRepr (fingerprintDocument request) = .error e := by
  unfold fingerprint at h
  cases hc : canonicalJsonBytes lib.floatRepr (fingerprintDocument request) with
  | ok bytes =>
    rw [hc] at h
    cases h
  | error e' =>
    rw [hc] at h
    rw [Except.error.inj h]

/-- Data that `publish` encodes or refuses with the error it declares. -/
def Encodable (request : EventPublishRequest) : Prop :=
  (Json.obj request.data).scalar = true ∨ (Json.obj request.data).finite = false

theorem fingerprint_unicodeEncode_iff {request : EventPublishRequest} :
    fingerprint lib request = .error .unicodeEncode ↔ ¬Encodable request := by
  have herror : canonicalJsonBytes lib.floatRepr (fingerprintDocument request) =
      .error .unicodeEncode ↔ _ := canonicalJsonBytes_error
  rw [fingerprintDocument_finite, fingerprintDocument_scalar] at herror
  have hcond : ¬Encodable request ↔
      (Json.obj request.data).finite = true ∧ (Json.obj request.data).scalar = false := by
    unfold Encodable
    cases (Json.obj request.data).scalar <;> cases (Json.obj request.data).finite <;> simp
  rw [hcond, ← herror]
  refine ⟨fingerprint_error, fun h => ?_⟩
  rw [fingerprint, h]
  rfl

theorem throws_publish {request : EventPublishRequest} (h : Encodable request) (key : String)
    (draw : PublishDraw) : (publish lib request key draw).Throws (·.ofEncoding = false) := by
  refine Txn.Throws.bind (fun _ => trivial) fun o => ?_
  cases o with
  | none => rfl
  | some endpoint =>
    dsimp only
    cases hdigest : fingerprint lib request with
    | error e =>
      cases e with
      | canonicalJSON => rfl
      | unicodeEncode => exact absurd h (fingerprint_unicodeEncode_iff.mp hdigest)
    | ok digest =>
      obtain ⟨bytes, hbytes, -⟩ := body_of_fingerprint draw hdigest
      rw [hbytes]
      exact throws_accept _ _ _ _

variable (lib) in
/-- What a request may raise when the encoding of its data is declared. -/
theorem throws_code : ∀ r : Request, (r.code lib).Throws fun e =>
    ∀ request key draw, r = .publish request key draw → Encodable request → e.ofEncoding = false
  | .publish request key draw => by
    by_cases h : Encodable request
    · refine Txn.Throws.bind ?_ fun _ => trivial
      exact (throws_publish h key draw).mono fun e he _ _ _ _ _ => he
    · refine .of_forall (fun e request' key' draw' heq h' => ?_) _
      cases heq
      exact absurd h' h
  | .createEndpoint .. | .setEnabled .. | .replay .. | .claimOne .. | .finalize .. | .purge .. =>
    .of_forall (fun _ _ _ _ heq => by cases heq) _

theorem publish_run_unicodeEncode {request : EventPublishRequest} (h : ¬Encodable request)
    {key : String} {draw : PublishDraw} {db : Db} {endpoint : Endpoint}
    (hep : db.endpoints.get? request.endpointId = some endpoint) :
    (publish lib request key draw).run db = .error .unicodeEncode := by
  have hget : (EndpointRepository.get request.endpointId).run db = .ok (some endpoint, db) := by
    rw [← hep]
    rfl
  unfold publish
  rw [Txn.run_bind, hget]
  dsimp only
  rw [fingerprint_unicodeEncode_iff.mpr h]
  rfl

/-! ## A publication that runs alone -/

section Alone

variable {limits : Limits} {request : EventPublishRequest} {key digest : String}
  {draw : PublishDraw} {db : Db} {endpoint : Endpoint} {bytes : Bytes}

/-- A result or a `DomainError`. -/
def Declares (outcome : Except Error (PublishedEvent × Db)) : Prop :=
  (∃ p, outcome = .ok p) ∨ ∃ d, outcome = .error (.domain d)

/-- The row of a publication's delivery, whose id and event are new. -/
theorem initialDelivery_checks (hinv : Inv lib db) (hevent : db.events.Fresh draw.eventId)
    (hdelivery : db.deliveries.Fresh draw.deliveryId) {event : Event} :
    violation (Write.checks (.insertDelivery (initialDelivery endpoint draw))
      ((Write.insertEvent event).apply db)) = none := by
  have hother : ∀ d ∈ db.deliveries, d.eventId ≠ draw.eventId := by
    intro d hd heq
    obtain ⟨e, he, hid⟩ := hinv.event d hd
    exact hevent e he (hid.trans heq)
  have hunique : violation (db.deliveryUnique (initialDelivery endpoint draw)) = none := by
    refine violation_eq_none.mpr fun c hc => ?_
    simp only [Db.deliveryUnique, List.mem_cons, List.not_mem_nil, or_false] at hc
    rcases hc with rfl | rfl | rfl
    · exact noOther_of_forall fun d hd => by simp [initialDelivery, hother d hd]
    · rfl
    · dsimp only
      rw [Bool.or_eq_true]
      exact .inr (noOther_of_forall fun d hd => by simp [initialDelivery, hother d hd])
  refine violation_append.mpr ⟨by simp [initialDelivery, Delivery.checks, violation, nullOr],
    violation_eq_none.mpr ?_⟩
  exact List.forall_mem_cons.mpr ⟨decide_eq_true hdelivery, violation_eq_none.mp hunique⟩

/-- The new delivery finds its event and its endpoint. -/
theorem run_create_initial (hinv : Inv lib db) (hevent : db.events.Fresh draw.eventId)
    (hdelivery : db.deliveries.Fresh draw.deliveryId) {event : Event} (hid : event.id = draw.eventId)
    (hep : db.endpoints.get? endpoint.id = some endpoint) :
    (DeliveryRepository.create (initialDelivery endpoint draw)).run
        ((Write.insertEvent event).apply db) =
      .ok ((), (Write.insertDelivery (initialDelivery endpoint draw)).apply
        ((Write.insertEvent event).apply db)) := by
  have hfound : ((db.events.insert event).get? draw.eventId).isSome = true :=
    Option.isSome_iff_ne_none.mpr (hid ▸ get?_insert_ne_none db.events event)
  have hendpoint : (db.endpoints.get? endpoint.id).isSome = true := by
    rw [hep]
    rfl
  rw [DeliveryRepository.create, run_exec_bind (initialDelivery_checks hinv hevent hdelivery),
    Txn.run_bind, run_foreignKey hfound]
  dsimp only
  rw [Txn.run_bind, run_foreignKey hendpoint]
  rfl

theorem acceptInserted_declares (hinv : Inv lib db)
    (hep : db.endpoints.get? request.endpointId = some endpoint)
    (hevent : db.events.Fresh draw.eventId) (hdelivery : db.deliveries.Fresh draw.deliveryId)
    {event : Event} (hid : event.id = draw.eventId) :
    Declares ((acceptInserted request draw endpoint event).run
      ((Write.insertEvent event).apply db)) := by
  have hepid : endpoint.id = request.endpointId := (Table.get?_eq_some.mp hep).2
  unfold acceptInserted
  split
  · exact .inr ⟨_, rfl⟩
  obtain ⟨row, hfound⟩ := Option.ne_none_iff_exists'.mp (get?_insert_ne_none db.events event)
  have hread : ((Write.insertDelivery (initialDelivery endpoint draw)).apply
      ((Write.insertEvent event).apply db)).events.get? event.id = some row := hfound
  dsimp only
  rw [Txn.run_bind, run_create_initial hinv hevent hdelivery hid (hepid ▸ hep)]
  dsimp only
  rw [EventRepository.get, Txn.run_query_bind, hread]
  exact .inl ⟨_, rfl⟩

/-- An event under this key answers the publication. -/
theorem resolve_declares (hhash : Function.Injective lib.sha256Hex)
    (hfloat : FloatRepr lib.floatRepr) (hinv : Inv lib db) (draw : PublishDraw)
    (hdigest : fingerprint lib request = .ok digest)
    (htaken : ∃ event ∈ db.events, event.source = localSource ∧ event.idempotencyKey = key) :
    Declares ((resolveIdempotentReplay request.endpointId key digest).run db) := by
  have hfinds := (resolve_finds hhash hfloat hinv hdigest htaken).run
  have hsafe := (@resolve_safe lib False db db request key digest draw (fun _ => hinv)
    (fun _ => .refl db) hdigest).run
  rw [Txn.view_nil] at hfinds hsafe
  cases hrun : (resolveIdempotentReplay request.endpointId key digest).run db with
  | ok p => exact .inl ⟨p, rfl⟩
  | error e =>
    rw [hrun] at hfinds hsafe
    have hsingle : e ≠ .multipleResultsFound := (hsafe not_false).1
    rcases (throws_resolve request.endpointId key digest).run hrun with ⟨d, rfl⟩ | ⟨m, rfl⟩ | hmultiple
    · exact .inr ⟨d, rfl⟩
    · exact absurd rfl ((hfinds hsingle).runtime m)
    · exact absurd hmultiple hsingle

/-- The three ends of `ON CONFLICT DO NOTHING`. -/
theorem run_insertIfAbsent (db : Db) (event : Event) :
    (violation (Write.checks (.insertEvent event) db) = none →
      (EventRepository.insertIfAbsent event).run db =
        .ok (true, (Write.insertEvent event).apply db)) ∧
    (violation (Write.checks (.insertEvent event) db) = some .uqEventsSourceIdempotencyKey →
      (EventRepository.insertIfAbsent event).run db = .ok (false, db)) ∧
    ∀ c, c ≠ .uqEventsSourceIdempotencyKey →
      violation (Write.checks (.insertEvent event) db) = some c →
      (EventRepository.insertIfAbsent event).run db = .error (.database c) := by
  have hcheck : Engine.check (Write.insertEvent event) db =
      (violation (Write.checks (.insertEvent event) db)).map Error.database := rfl
  unfold EventRepository.insertIfAbsent
  rw [Txn.run, hcheck]
  refine ⟨fun h => ?_, fun h => ?_, fun c hc h => ?_⟩
  · rw [h]
    rfl
  · rw [h]
    rfl
  · rw [h]
    cases c <;> first | exact absurd rfl hc | rfl

/-- A type and a key that fit their columns, under ids that are not in use. -/
structure Fits (request : EventPublishRequest) (key : String) (draw : PublishDraw) (db : Db) :
    Prop where
  type : 0 < request.type.toList.length ∧ isVarchar 255 request.type = true ∧
    isText request.type = true
  key : HeaderKey key
  event : db.events.Fresh draw.eventId
  delivery : db.deliveries.Fresh draw.deliveryId

/-- Past the encoding, data without U+0000 are answered. -/
theorem accept_declares (hhash : Function.Injective lib.sha256Hex)
    (hfloat : FloatRepr lib.floatRepr) (hinv : Inv lib db)
    (hep : db.endpoints.get? request.endpointId = some endpoint) (hfits : Fits request key draw db)
    (hdigest : fingerprint lib request = .ok digest) (hbytes : 0 < bytes.length) :
    Declares ((accept request draw endpoint
      (candidate lib request key draw digest bytes)).run db) ↔
      Json.membersJsonb request.data = true := by
  obtain ⟨⟨hpos, hshort, htext⟩, hkey, hevent, hdelivery⟩ := hfits
  have hchecks : violation (candidate lib request key draw digest bytes).checks = none ↔
      Json.membersJsonb request.data = true := by
    have hkeyshort : isVarchar 255 key = true := decide_eq_true hkey.short
    have hsource : isVarchar 120 localSource = true ∧ isText localSource = true ∧
        0 < localSource.toList.length := by
      decide
    simp [violation_eq_none, Event.checks, candidate, hsource, hpos, hshort, htext, hkey.nonempty,
      hkey.text, hkeyshort, hbytes]
  obtain ⟨hinserted, hconflict, hrefused⟩ :=
    run_insertIfAbsent db (candidate lib request key draw digest bytes)
  unfold accept
  rw [Txn.run_bind]
  by_cases hjsonb : Json.membersJsonb request.data = true
  · refine iff_of_true ?_ hjsonb
    cases hv : violation (Write.checks (.insertEvent
        (candidate lib request key draw digest bytes)) db) with
    | none =>
      rw [hinserted hv]
      exact acceptInserted_declares hinv hep hevent hdelivery rfl
    | some c =>
      -- The row fits and its id is new, so its key is taken.
      have hc : c = .uqEventsSourceIdempotencyKey := by
        rcases violation_append_some hv with h | ⟨-, h⟩
        · rw [hchecks.mpr hjsonb] at h
          cases h
        · have hmem := mem_of_violation h
          simp only [List.mem_cons, Prod.mk.injEq, List.not_mem_nil, or_false] at hmem
          rcases hmem with ⟨-, rfl⟩ | ⟨hpk, -⟩
          · rfl
          · exact absurd hevent (of_decide_eq_false hpk.symm)
      subst hc
      rw [hconflict hv]
      exact resolve_declares hhash hfloat hinv draw hdigest (exists_of_conflict hv)
  · refine iff_of_false ?_ hjsonb
    obtain ⟨c, hv⟩ := Option.ne_none_iff_exists'.mp fun h =>
      hjsonb (hchecks.mp (violation_append.mp h).1)
    have hc : c ≠ .uqEventsSourceIdempotencyKey := by
      rcases violation_append_some hv with h | ⟨h, -⟩
      · have hmem := mem_of_violation h
        rintro rfl
        simp [Event.checks] at hmem
      · exact absurd (hchecks.mp h) hjsonb
    rw [hrefused c hc hv]
    rintro (⟨p, h⟩ | ⟨d, h⟩) <;> cases h

/-- Both documents of a publication hold its data one level deep. -/
theorem depth_bodyDocument : (bodyDocument lib request draw).depth =
    (fingerprintDocument request).depth := by
  simp [bodyDocument, fingerprintDocument, Json.depth, Json.membersDepth]

/-- Data that `publish` answers with a result or a `DomainError`. -/
def Answerable (limits : Limits) (request : EventPublishRequest) : Prop :=
  (fingerprintDocument request).Refused limits.containers ∨
    (fingerprintDocument request).depth ≤ limits.containers ∧
      (Json.obj request.data).scalar = true ∧ Json.membersJsonb request.data = true ∧
      limits.takes request.data = true

/-- A publication that runs alone ends in a result or a `DomainError` exactly for
the data that can be answered. -/
theorem publishWithin_declares (hhash : Function.Injective lib.sha256Hex)
    (hfloat : FloatRepr lib.floatRepr) (hinv : Inv lib db)
    (hep : db.endpoints.get? request.endpointId = some endpoint)
    (hfits : Fits request key draw db) :
    Declares ((publishWithin limits lib request key draw).run db) ↔ Answerable limits request := by
  unfold publishWithin EndpointRepository.get Answerable
  rw [Txn.run_query_bind, hep]
  dsimp only
  obtain ⟨href, h⟩ | ⟨href, hdepth, h⟩ | ⟨hfinite, href, hdepth⟩ :=
    @canonicalJsonBytesWithin_cases lib limits.containers (fingerprintDocument request)
  · rw [h]
    exact iff_of_true (.inr ⟨_, rfl⟩) (.inl href)
  · rw [h]
    refine iff_of_false ?_ (by simp [href, hdepth])
    rintro (⟨p, h⟩ | ⟨d, h⟩) <;> cases h
  rw [canonicalJsonBytesWithin_eq hdepth, canonicalJsonBytesWithin_eq (depth_bodyDocument.trans_le hdepth)]
  obtain ⟨fingerprintBytes, h, hscalar⟩ | ⟨h, hscalar⟩ :=
    @canonicalJsonBytes_of_finite lib (fingerprintDocument request) hfinite
  · have hdigest : fingerprint lib request = .ok (lib.sha256Hex fingerprintBytes) :=
      fingerprint_ok.mpr ⟨fingerprintBytes, h, rfl⟩
    obtain ⟨bytes, hbytes, hpos⟩ := body_of_fingerprint draw hdigest
    rw [fingerprintDocument_scalar] at hscalar
    simp only [h, hbytes, Except.mapError, href, hdepth, hscalar, false_or, true_and]
    by_cases htakes : limits.takes request.data = true
    · rw [if_pos htakes, accept_declares hhash hfloat hinv hep hfits hdigest hpos, htakes, eq_self,
        and_true]
    · rw [if_neg htakes]
      refine iff_of_false ?_ fun h => htakes h.2
      rintro (⟨p, h⟩ | ⟨d, h⟩) <;> cases h
  · rw [h, ← fingerprintDocument_scalar]
    refine iff_of_false ?_ (by simp [href, hscalar])
    rintro (⟨p, h⟩ | ⟨d, h⟩) <;> cases h

/-- Data within the limits are published as if there were none. -/
theorem publishWithin_eq (hdepth : (fingerprintDocument request).depth ≤ limits.containers)
    (htakes : limits.takes request.data = true) :
    publishWithin limits lib request key draw = publish lib request key draw := by
  unfold publishWithin publish
  refine congrArg (Txn.bind _) (funext fun o => ?_)
  cases o with
  | none => rfl
  | some endpoint =>
    dsimp only
    rw [canonicalJsonBytesWithin_eq hdepth,
      canonicalJsonBytesWithin_eq (depth_bodyDocument.trans_le hdepth), fingerprint]
    cases canonicalJsonBytes lib.floatRepr (fingerprintDocument request) with
    | error e => cases e <;> rfl
    | ok fingerprintBytes =>
      cases canonicalJsonBytes lib.floatRepr (bodyDocument lib request draw) with
      | error e => cases e <;> rfl
      | ok bytes => exact if_pos htakes

end Alone

/-- The encoding fails as it declares for values that are refused for a number, or are
nested within the recursion limit and hold no lone surrogate. A publication then also
needs data that the database takes, without U+0000. -/
theorem encoding_declared_iff (hhash : Function.Injective lib.sha256Hex)
    (hfloat : FloatRepr lib.floatRepr) :
    (∀ (limit : ℕ) (j : Json),
      ((∃ bytes, canonicalJsonBytesWithin lib.floatRepr limit j = .ok bytes) ∨
        canonicalJsonBytesWithin lib.floatRepr limit j = .error (.canonical .canonicalJSON)) ↔
        j.Refused limit ∨ j.depth ≤ limit ∧ j.scalar = true) ∧
    (∀ (limits : Limits) (request : EventPublishRequest) (key : String) (draw : PublishDraw) (db : Db),
      Rests lib db → Fits request key draw db →
        (Declares ((publishWithin limits lib request key draw).run db) ↔
          db.endpoints.get? request.endpointId = none ∨ Answerable limits request)) ∧
    (∀ (limits : Limits) (request : EventPublishRequest) (key : String) (draw : PublishDraw),
      (fingerprintDocument request).depth ≤ limits.containers →
        limits.takes request.data = true →
          publishWithin limits lib request key draw = publish lib request key draw) ∧
    ∀ ls s, Sys.Run (Request.code lib) (fun _ _ _ _ => True) [] (.idle Db.empty) ls s →
      ∀ (x : Action ℕ Request) t request key draw e s',
        s.act (Request.code lib) x = some (.fail t (.publish request key draw) e, s') →
        Encodable request → e.ofEncoding = false := by
  refine ⟨canonicalJsonBytesWithin_declared, fun limits request key draw db hrests hfits => ?_,
    fun limits request key draw => publishWithin_eq,
    fun ls s hr x t request key draw e s' hx h => ?_⟩
  · cases hep : db.endpoints.get? request.endpointId with
    | none =>
      unfold publishWithin EndpointRepository.get
      rw [Txn.run_query_bind, hep]
      exact iff_of_true (.inr ⟨_, rfl⟩) (.inl rfl)
    | some endpoint =>
      rw [publishWithin_declares hhash hfloat hrests.inv hep hfits]
      simp
  · obtain ⟨-, hfail⟩ := Sys.act_throws (throws_code lib) hx (hr.throws (throws_code lib))
    exact hfail t _ e rfl request key draw rfl h

end Declared

namespace Sample

/-- What `json.loads` reads from a `\ud800` escape. -/
def loneSurrogate : EventPublishRequest where
  endpointId := 1
  type := "order.created"
  data := [(PyStr.ofString "name", .str [⟨0xD800, by decide⟩])]
  distinct := by decide +kernel

/-- The object that was read has the lone surrogate under its name. -/
def readsSurrogate : Except LoadsError Json → Bool
  | .ok (.obj [(k, .str v)]) => k = PyStr.ofString "name" && v = [⟨0xD800, by decide⟩]
  | _ => false

end Sample

/-- An order is answered where no nesting is in the way. -/
theorem encoding_declared_of_order : ∃ db, Rests Sample.lib db ∧
    (db.endpoints.get? 1).isSome = true ∧
    Declares ((publishWithin ⟨1000, fun _ => true⟩ Sample.lib Sample.order "order-42"
      ⟨2, 3, Sample.epoch, Sample.epoch⟩).run db) := by
  have hplay : (Sys.play (Request.code Sample.lib) Ordinary [] (.idle Db.empty)
      (Sys.alone 0 Sample.register 2)).any (fun p =>
        (p.2.db.endpoints.get? 1).isSome && decide (p.2.db.events.Fresh 2) &&
          decide (p.2.db.deliveries.Fresh 3)) = true := by
    decide +kernel
  obtain ⟨ls, s, hr, h⟩ := Sys.exists_run hplay
  simp only [Bool.and_eq_true, decide_eq_true_eq] at h
  have hrests : Rests Sample.lib s.db := .operation .empty (hr.mono Ordinary.resumed)
  have hanswerable : Answerable ⟨1000, fun _ => true⟩ Sample.order :=
    .inr ⟨by decide +kernel, by decide +kernel, by decide +kernel, rfl⟩
  obtain ⟨-, hpublish, -⟩ :=
    @encoding_declared_iff Sample.lib Sample.sha256Hex_injective Sample.floatRepr_repr
  exact ⟨s.db, hrests, h.1.1, (hpublish _ _ _ _ _ hrests
    ⟨by decide, ⟨by decide, by decide, by decide⟩, h.1.2, h.2⟩).mpr (.inr hanswerable)⟩

/-- A client can send the value, and the encoding error leaves the service. -/
theorem encoding_undeclared :
    Json.loads Sample.floatOf (PyStr.ofString "\x7b\"name\":\"\\ud800\"\x7d") =
      .ok (.obj Sample.loneSurrogate.data) ∧
    canonicalJsonBytes Sample.lib.floatRepr (.obj Sample.loneSurrogate.data) =
      .error .unicodeEncode ∧
    ∃ ls s, Reaches Sample.lib ls s ∧
      (publish Sample.lib Sample.loneSurrogate "order-42" ⟨2, 3, Sample.epoch, Sample.epoch⟩).run
        s.db = .error .unicodeEncode := by
  have hread : Sample.readsSurrogate (Json.loads Sample.floatOf
      (PyStr.ofString "\x7b\"name\":\"\\ud800\"\x7d")) = true := by
    decide +kernel
  refine ⟨?_, canonicalJsonBytes_error.mpr ⟨by decide +kernel, by decide +kernel⟩, ?_⟩
  · unfold Sample.readsSurrogate at hread
    split at hread
    · rename_i k v hload
      simp only [Bool.and_eq_true, decide_eq_true_eq] at hread
      rw [hload, hread.1, hread.2]
      rfl
    · cases hread
  have hplay : (Sys.play (Request.code Sample.lib) Ordinary [] (.idle Db.empty)
      (Sys.alone 0 Sample.register 2)).any (fun p => (p.2.db.endpoints.get? 1).isSome) = true := by
    decide +kernel
  obtain ⟨ls, s, hr, h⟩ := Sys.exists_run hplay
  obtain ⟨endpoint, hendpoint⟩ := Option.isSome_iff_exists.mp h
  have hno : ¬Encodable Sample.loneSurrogate := by
    unfold Encodable
    decide +kernel
  exact ⟨ls, s, hr, publish_run_unicodeEncode hno hendpoint⟩

end EventHarbor
