import EventHarbor.Properties.Budget
import EventHarbor.Properties.Leases
import EventHarbor.Properties.Outcomes
import EventHarbor.Properties.ReceiverRuns
import EventHarbor.ReceiverLab.Exchange

/-!
# A delivery and the run that receives it

The database with its workers on one side, a configured run of Receiver Lab on
the other. The workers count the attempts they reserve, the run counts the
requests it has seen since it was configured, and crashes and expired leases
drive the two counters apart.
-/

namespace EventHarbor

open Relational DeliveryWorker
open ReceiverLab (ReceiverState ReceiverLib ReceiverConfiguration ReceiverRunState Operation Webhook
  WebhookResponse posted outcome payloadValidationError validateUnknown responseBody responseEvidence)

/-! ## The composition -/

/-- A delivery with the limit of its workers and the run that receives it. -/
structure Trial where
  lib : Lib
  receiverLib : ReceiverLib
  float : String → Option FloatValue
  parsedateToDatetime : String → Except ParseDateError ParsedDate
  hmacSha256Hex : Bytes → Bytes → String
  /-- the receiver's route for the URL of an endpoint -/
  channel : String → Option String
  maxAttempts : ℕ
  deliveryId : UUID
  runId : Option String
  configuration : ReceiverConfiguration
  mode : configuration.mode = .failThenSucceed

/-- The two machines, and what is between them: the webhooks of the delivery
that reached the receiver, oldest first, and the results that workers have. -/
structure Joint where
  labels : List Shown
  system : System
  lab : ReceiverState
  sent : List OutboundWebhook
  results : List (OutboundWebhook × AttemptResult)

namespace Trial

variable (T : Trial)

def failures : ℕ := T.configuration.failuresBeforeSuccess

def transport : TransportLib :=
  ReceiverLab.transportLib T.float T.parsedateToDatetime T.hmacSha256Hex

/-- A request of the transport as the receiver sees it. -/
def request (w : OutboundWebhook) (receivedAt : Time) (body : Bytes)
    (headers : List (String × String)) : Webhook :=
  posted (T.channel w.endpointUrl) receivedAt body headers

/-- The request that is signed when the attempt starts. -/
def signed (w : OutboundWebhook) (clock : AttemptClock) (receivedAt : Time) (signature : String) :
    Webhook :=
  T.request w receivedAt w.payloadBytes (requestHeaders w clock.requestTimestamp signature)

/-- The body satisfies its contract on the route it is sent to. -/
def Satisfies (w : OutboundWebhook) : Prop :=
  payloadValidationError T.receiverLib.loads w.payloadBytes (T.channel w.endpointUrl)
    (validateUnknown (T.channel w.endpointUrl) T.configuration) = .ok none

/-- Workers report the results they have. -/
def Reports (j : Joint) : Shown → Prop
  | .start _ (.finalize _ webhook result _) =>
    webhook.deliveryId = T.deliveryId → (webhook, result) ∈ j.results
  | _ => True

/-- The operation neither configures the run nor posts to it nor evicts it. -/
structure Spares (lab : ReceiverState) (op : Operation) : Prop where
  reads : lab.routed op = T.runId →
    op = .controlState T.runId ∨ op = .listRequests T.runId
  kept : ∀ r, T.runId = some r → r ∈ (lab.step T.receiverLib op).1.keys

/-- The endpoint is enabled and no lease of the delivery has expired on the clock
of a claim. -/
def Calm (j : Joint) (l : Shown) : Prop :=
  (∀ d ∈ j.system.db.deliveries, d.id = T.deliveryId →
    ∀ e ∈ j.system.db.endpoints, e.id = d.endpointId → e.enabled = true) ∧
  match l with
  | .commit _ (.claimOne _ draw) _ =>
    ∀ d ∈ j.system.db.deliveries, d.id = T.deliveryId → d.status = .inProgress →
      due d.leaseExpiresAt (draw.clock d.id) = false ∧
      due d.leaseExpiresAt (draw.reclock d.id) = false
  | .start _ (.finalize _ webhook _ draw) =>
    webhook.deliveryId = T.deliveryId → FinalizeDraw.Fair draw
  | _ => True

/-- One step of the composition. A webhook is sent once, to the run, and its
sender gets the answer unless it crashes first. When it is calm nobody crashes
between a request and its answer. -/
inductive Step (calm : Prop) (j : Joint) : Joint → Prop
  | database {x : Action ℕ Request} {l : Shown} {s' : System}
      (hx : j.system.act (Request.code T.lib) x = some (l, s'))
      (hp : Limited T.maxAttempts j.labels j.system l s')
      (hreport : T.Reports j l) (hcalm : calm → T.Calm j l) :
      Step calm j { j with labels := j.labels ++ [l], system := s' }
  | send {w : OutboundWebhook} {v : DeliveryWorker} {clock : AttemptClock} {receivedAt : Time}
      {signature : String} {result : AttemptResult}
      (hw : w ∈ issued (history j.labels)) (hd : w.deliveryId = T.deliveryId) (hnew : w ∉ j.sent)
      (hbody : T.Satisfies w)
      (hsig : signPayload T.transport w.signingSecret clock.requestTimestamp w.payloadBytes =
        .ok signature)
      (hroute : j.lab.routed (.receiveWebhook (T.signed w clock receivedAt signature)) = T.runId)
      (hresult : sendWebhook T.transport v.settings.workerRetryAfterCapSeconds w
        (fun body headers => outcome
          (j.lab.receiveWebhook T.receiverLib (T.request w receivedAt body headers)).2) clock =
        .ok result)
      (hcalm : calm → representable clock.started = true ∧ clock.Recordable) :
      Step calm j { j with
        lab := (j.lab.receiveWebhook T.receiverLib (T.signed w clock receivedAt signature)).1
        sent := j.sent ++ [w]
        results := j.results ++ [(w, result)] }
  | crash {w : OutboundWebhook} {clock : AttemptClock} {receivedAt : Time} {signature : String}
      (hw : w ∈ issued (history j.labels)) (hd : w.deliveryId = T.deliveryId) (hnew : w ∉ j.sent)
      (hsig : signPayload T.transport w.signingSecret clock.requestTimestamp w.payloadBytes =
        .ok signature)
      (hroute : j.lab.routed (.receiveWebhook (T.signed w clock receivedAt signature)) = T.runId)
      (hcalm : ¬calm) :
      Step calm j { j with
        lab := (j.lab.receiveWebhook T.receiverLib (T.signed w clock receivedAt signature)).1
        sent := j.sent ++ [w] }
  | receiver {op : Operation} (hop : T.Spares j.lab op) :
      Step calm j { j with lab := (j.lab.step T.receiverLib op).1 }

/-- The run has just been configured and the delivery has not been claimed. -/
structure Starts (j : Joint) : Prop where
  reaches : ReachesLimited T.lib T.maxAttempts j.labels j.system
  unclaimed : ∀ d ∈ j.system.db.deliveries, d.id = T.deliveryId →
    d.status = .pending ∧ d.attemptCount = 0
  configured : ∃ ops, j.lab = ((ReceiverState.run T.receiverLib {} ops).step T.receiverLib
    (.configure T.runId T.configuration)).1
  sent : j.sent = []
  results : j.results = []

/-- The status of the `k`th request. -/
def statusAt (k : ℕ) : ℤ := if k ≤ T.failures then 503 else 200

end Trial

/-! ## The receiver's side -/

namespace ReceiverLab

variable {lib : ReceiverLib} {lab : ReceiverState} {op : Operation} {w : Webhook}
  {key : Option String}

/-- What an operation does to the run it is routed to. -/
theorem step_routed (lib : ReceiverLib) (hs : lab.Bounded) (hroute : lab.routed op = key) :
    (lab.step lib op).2 = (op.onRun lib (lab.stateOf key)).2 ∧
    (lab.step lib op).1.stateOf key = (op.onRun lib (lab.stateOf key)).1 ∧
    ∀ r, key = some r → r ∈ (lab.step lib op).1.keys := by
  rw [step_eq hs op, hroute]
  cases key with
  | none => exact ⟨rfl, rfl, by simp⟩
  | some r =>
    dsimp only
    refine ⟨rfl, ?_, ?_⟩
    · rw [ReceiverState.stateOf, find_served_self hs, Option.getD_some]
      rfl
    · rintro _ ⟨⟩
      by_contra hout
      have hnone := find_eq_none.mpr hout
      rw [find_served_self hs] at hnone
      cases hnone

/-- What an operation of another run does to a run that it does not evict. -/
theorem stateOf_other (hs : lab.Bounded) (hroute : lab.routed op ≠ key)
    (hkept : ∀ r, key = some r → r ∈ (lab.step lib op).1.keys) :
    (lab.step lib op).1.stateOf key = lab.stateOf key := by
  cases key with
  | none =>
    rw [step_eq hs op]
    cases hr : lab.routed op with
    | none => exact absurd hr hroute
    | some r => rfl
  | some r => rw [ReceiverState.stateOf, step_other hs hroute fun _ => hkept r rfl,
      ReceiverState.stateOf]

/-- Every request counts, whatever the handler makes of it. -/
theorem receive_counts (lib : ReceiverLib) (w : Webhook) (run : ReceiverRunState) :
    (run.receive lib w).1.configuration = run.configuration ∧
    (run.receive lib w).1.scenarioAttempts = run.scenarioAttempts + 1 := by
  cases hrec : (run.receive lib w).2 with
  | error e =>
    rw [receive_raises hrec]
    exact ⟨rfl, rfl⟩
  | ok response =>
    obtain ⟨-, q, -, -, -, -, hrun⟩ := receive_returns hrec
    rw [hrun]
    exact ⟨rfl, rfl⟩

/-- The response to a body that satisfies its contract. -/
def plainResponse (statusCode : ℤ) : WebhookResponse where
  statusCode := statusCode
  code := (responseEvidence statusCode none).1
  detail := (responseEvidence statusCode none).2
  retryAfter := if statusCode = 429 then some (toString rateLimitRetryAfterSeconds) else none

theorem receive_satisfied {run : ReceiverRunState}
    (hvalid : payloadValidationError lib.loads w.body w.receiverChannel
      (validateUnknown w.receiverChannel run.configuration) = .ok none) :
    (run.receive lib w).2 =
      .ok (plainResponse (scenarioStatus run.configuration (run.scenarioAttempts + 1))) := by
  simp only [ReceiverRunState.receive, hvalid, Option.isSome_none, Bool.false_eq_true, if_false]
  rfl

end ReceiverLab

namespace Trial

open ReceiverLab

variable {T : Trial} {lab : ReceiverState}

/-- The run is there, configured, and has seen `k` requests. -/
structure Seen (T : Trial) (lab : ReceiverState) (k : ℕ) : Prop where
  bounded : lab.Bounded
  there : ∀ r, T.runId = some r → r ∈ lab.keys
  configuration : (lab.stateOf T.runId).configuration = T.configuration
  attempts : (lab.stateOf T.runId).scenarioAttempts = k

theorem seen_configured (ops : List Operation) :
    T.Seen ((ReceiverState.run T.receiverLib {} ops).step T.receiverLib
      (.configure T.runId T.configuration)).1 0 := by
  have hs := run_bounded T.receiverLib ops
  have hroute : (ReceiverState.run T.receiverLib {} ops).routed
      (.configure T.runId T.configuration) = T.runId := rfl
  obtain ⟨-, hstate, hkept⟩ := step_routed T.receiverLib hs hroute
  exact ⟨step_bounded hs _, hkept, congrArg _ hstate, congrArg _ hstate⟩

/-- What spares the run leaves it as it is. -/
theorem Seen.spares {k : ℕ} (h : T.Seen lab k) {op : Operation} (hop : T.Spares lab op) :
    T.Seen (lab.step T.receiverLib op).1 k := by
  have hsame : (lab.step T.receiverLib op).1.stateOf T.runId = lab.stateOf T.runId := by
    by_cases hroute : lab.routed op = T.runId
    · obtain ⟨-, hstate, -⟩ := step_routed T.receiverLib h.bounded hroute
      rw [hstate]
      rcases hop.reads hroute with rfl | rfl <;> rfl
    · exact stateOf_other h.bounded hroute hop.kept
  exact ⟨step_bounded h.bounded op, hop.kept, hsame ▸ h.configuration, hsame ▸ h.attempts⟩

variable {w : Webhook} {k : ℕ}

/-- One more request. -/
theorem Seen.webhook (h : T.Seen lab k) (hroute : lab.routed (.receiveWebhook w) = T.runId) :
    T.Seen (lab.receiveWebhook T.receiverLib w).1 (k + 1) := by
  have hbounded : (lab.step T.receiverLib (.receiveWebhook w)).1.Bounded :=
    step_bounded h.bounded _
  obtain ⟨-, hstate, hkept⟩ := step_routed T.receiverLib h.bounded hroute
  obtain ⟨hconf, hatt⟩ := receive_counts T.receiverLib w (lab.stateOf T.runId)
  rw [step_receiveWebhook] at hbounded hstate hkept
  exact ⟨hbounded, hkept, (congrArg _ hstate).trans (hconf.trans h.configuration),
    (congrArg _ hstate).trans (hatt.trans (congrArg (· + 1) h.attempts))⟩

/-- The answer to the next request whose body satisfies its contract. -/
theorem Seen.answer (h : T.Seen lab k) (hroute : lab.routed (.receiveWebhook w) = T.runId)
    (hvalid : payloadValidationError T.receiverLib.loads w.body w.receiverChannel
      (validateUnknown w.receiverChannel T.configuration) = .ok none) :
    (lab.receiveWebhook T.receiverLib w).2 = .ok (plainResponse (T.statusAt (k + 1))) := by
  obtain ⟨hanswer, -, -⟩ := step_routed T.receiverLib h.bounded hroute
  rw [step_receiveWebhook] at hanswer
  rw [Answer.webhook.inj hanswer, receive_satisfied (h.configuration ▸ hvalid), h.configuration,
    h.attempts, scenarioStatus, T.mode]
  rfl

/-! ## The worker's side -/

/-- The transport posts one request, the one it has signed. -/
theorem sendWebhook_posts {lib : TransportLib} {cap : ℚ} {w : OutboundWebhook}
    {post : Bytes → List (String × String) → HttpOutcome} {clock : AttemptClock} {signature : String}
    (hsig : signPayload lib w.signingSecret clock.requestTimestamp w.payloadBytes =
      .ok signature) :
    sendWebhook lib cap w post clock = sendWebhook lib cap w (fun _ _ =>
      post w.payloadBytes (requestHeaders w clock.requestTimestamp signature)) clock := by
  simp only [sendWebhook, hsig, bind, Except.bind]

theorem signPayload_secret {lib : TransportLib} {secret payload : Bytes} {timestamp : ℤ}
    {signature : String} (hsig : signPayload lib secret timestamp payload = .ok signature) :
    secret ≠ [] := by
  rintro rfl
  cases hsig

/-- What a worker reports of the `k`th request. -/
structure Reported (T : Trial) (k : ℕ) (r : AttemptResult) : Prop where
  status : r.httpStatusCode = some (T.statusAt k)
  disposition : r.disposition = if k ≤ T.failures then .retry else .succeeded

theorem statusAt_cases (T : Trial) (k : ℕ) :
    (k ≤ T.failures ∧ T.statusAt k = 503) ∨ (T.failures < k ∧ T.statusAt k = 200) := by
  unfold statusAt
  split
  · exact .inl ⟨‹_›, rfl⟩
  · exact .inr ⟨not_le.mp ‹_›, rfl⟩

theorem classify_statusAt (T : Trial) (k : ℕ) : classifyStatusCode (T.statusAt k) =
    .ok (if k ≤ T.failures then .retry else .succeeded) := by
  rcases T.statusAt_cases k with ⟨hk, hs⟩ | ⟨hk, hs⟩
  · rw [hs, if_pos hk]
    rfl
  · rw [hs, if_neg (not_le.mpr hk)]
    rfl

/-- The answer of the receiver can be stored. -/
theorem recordable_plain (T : Trial) (k : ℕ) (finished : Time) :
    (outcome (.ok (plainResponse (T.statusAt k)))).Recordable T.transport finished := by
  rcases T.statusAt_cases k with ⟨-, hs⟩ | ⟨-, hs⟩
  · rw [hs]
    exact ⟨by decide, by decide +kernel, fun _ => by simp [DatesInRange, plainResponse]⟩
  · rw [hs]
    exact ⟨by decide, by decide +kernel, fun _ => by simp [DatesInRange, plainResponse]⟩

section Send

variable {o : OutboundWebhook} {clock : AttemptClock} {receivedAt : Time} {signature : String}
  {result : AttemptResult} {cap : ℚ}

/-- The transport gets the answer to the request it has signed. -/
theorem Seen.sendWebhook (h : T.Seen lab k)
    (hbody : T.Satisfies o)
    (hsig : signPayload T.transport o.signingSecret clock.requestTimestamp o.payloadBytes =
      .ok signature)
    (hroute : lab.routed (.receiveWebhook (T.signed o clock receivedAt signature)) = T.runId) :
    EventHarbor.sendWebhook T.transport cap o (fun body headers => outcome
      (lab.receiveWebhook T.receiverLib (T.request o receivedAt body headers)).2) clock =
    EventHarbor.sendWebhook T.transport cap o
      (fun _ _ => outcome (.ok (plainResponse (T.statusAt (k + 1))))) clock := by
  rw [sendWebhook_posts hsig]
  have hanswer := h.answer hroute hbody
  rw [signed] at hanswer
  rw [hanswer]

theorem Seen.reported (h : T.Seen lab k)
    (hbody : T.Satisfies o)
    (hsig : signPayload T.transport o.signingSecret clock.requestTimestamp o.payloadBytes =
      .ok signature)
    (hroute : lab.routed (.receiveWebhook (T.signed o clock receivedAt signature)) = T.runId)
    (hresult : EventHarbor.sendWebhook T.transport cap o (fun body headers => outcome
      (lab.receiveWebhook T.receiverLib (T.request o receivedAt body headers)).2) clock =
      .ok result) :
    T.Reported (k + 1) result ∧
      (representable clock.started = true → clock.Recordable → result.storable = true) := by
  rw [h.sendWebhook hbody hsig hroute] at hresult
  constructor
  · obtain ⟨-, ⟨n, content, header, hpost, hclass, hcode, -⟩ | ⟨hpost, -⟩⟩ :=
      sendWebhook_cases hresult
    · cases hpost
      rw [show (plainResponse (T.statusAt (k + 1))).statusCode = T.statusAt (k + 1) from rfl]
        at hclass hcode
      rw [classify_statusAt] at hclass
      exact ⟨hcode, (Except.ok.inj hclass).symm⟩
    · exact absurd rfl (hpost _ _ _)
  · intro hstart hclock
    have hcode : ∀ n content header,
        outcome (.ok (plainResponse (T.statusAt (k + 1)))) = .response n content header →
          100 ≤ n := by
      rintro n content header ⟨⟩
      rcases T.statusAt_cases (k + 1) with ⟨-, hs⟩ | ⟨-, hs⟩ <;>
        simp [plainResponse, hs]
    obtain ⟨result', hsend, hstore⟩ := (sendWebhook_storable_iff _ (signPayload_secret hsig)
      isText_decodeReplace hstart hcode).mpr ⟨hclock, T.recordable_plain (k + 1) clock.finished⟩
    obtain rfl : result' = result := Except.ok.inj (hsend.symm.trans hresult)
    exact hstore

end Send

end Trial

/-! ## One delivery -/

/-- What a commit does to one delivery and its attempts. -/
inductive Treats (i : UUID) (db : Db) : Request → Response → Db → Prop
  | quiet {r : Request} {a : Response} {db' : Db}
      (hrows : ∀ d, d.id = i → (d ∈ db'.deliveries ↔ d ∈ db.deliveries))
      (hattempts : db'.attemptsAt i = db.attemptsAt i)
      (hissued : ∀ w ∈ issued [(r, a)], w.deliveryId ≠ i) : Treats i db r a db'
  | create {r : Request} {a : Response} {db' : Db} {d : Delivery} (hfresh : db.deliveries.Fresh i)
      (hrows : ∀ x, x.id = i → (x ∈ db'.deliveries ↔ x = d)) (hs : d.status = .pending)
      (hcount : d.attemptCount = 0) (hattempts : db'.attemptsAt i = db.attemptsAt i)
      (hissued : issued [(r, a)] = []) : Treats i db r a db'
  | claim {w : DeliveryWorker} {draw : ClaimDraw} {c : Claim} {ep : Endpoint} {d d' : Delivery}
      {closed opened : Option DeliveryAttempt} (hd : d ∈ db.deliveries) (hid : d.id = i)
      (hdue : claimable (draw.clock d.id) d = true ∨ claimable (draw.reclock d.id) d = true)
      (hep : ep ∈ db.endpoints) (hepid : ep.id = d.endpointId)
      (hc : Claimed False w draw db ep d c d' closed opened)
      (hfresh : ∀ b, opened = some b → db.attempts.Fresh b.id) :
      Treats i db (.claimOne w draw) (.claimed (some c)) (db.move d' closed opened)
  | settle {w : DeliveryWorker} {webhook : OutboundWebhook} {result : AttemptResult}
      {draw : FinalizeDraw} {status : DeliveryStatus} {delay : Option ℚ} {d : Delivery}
      {a : DeliveryAttempt} (hid : d.id = i)
      (htarget : target w webhook result draw.randomFraction = .ok (status, delay))
      (hd : d ∈ ownedDeliveries w webhook db) (hcount : d.attemptCount = webhook.attemptNumber)
      (ha : a ∈ claimedAttempts webhook db) :
      Treats i db (.finalize w webhook result draw) (.finalized true)
        (db.move (settled d result status (delay.map (draw.databaseNow + ·)) draw.databaseNow)
          (some (completed a result (delay.map (draw.databaseNow + ·)) draw.databaseNow)) none)

section Treats

variable {lib : Lib} {L : List Lock} {db db' : Db} {r : Request} {a : Response} {i : UUID}

/-- The rows of a delivery when another one is added. -/
theorem treats_insert {d : Delivery} (hfresh : db.deliveries.Fresh d.id)
    (hdb : db'.deliveries = db.deliveries.insert d) (hattempts : db'.attempts = db.attempts)
    (hs : d.status = .pending) (hcount : d.attemptCount = 0) (hissued : issued [(r, a)] = []) :
    Treats i db r a db' := by
  have hmem : ∀ x, x ∈ db'.deliveries ↔ x ∈ db.deliveries ∨ x = d := by
    intro x
    rw [hdb]
    exact Table.mem_insert hfresh
  have hsame : db'.attemptsAt i = db.attemptsAt i := by rw [Db.attemptsAt, hattempts, Db.attemptsAt]
  by_cases hi : d.id = i
  · subst hi
    refine .create hfresh (d := d) (fun x hx => ?_) hs hcount hsame hissued
    rw [hmem]
    exact ⟨fun h => h.resolve_left fun h => hfresh x h hx, .inr⟩
  · refine .quiet (fun x hx => ?_) hsame fun w hw => by rw [hissued] at hw; cases hw
    rw [hmem]
    refine ⟨fun h => h.resolve_right ?_, .inl⟩
    rintro rfl
    exact hi hx

/-- The rows of a delivery when another one moves. -/
theorem treats_other {d d' : Delivery} {closed opened : Option DeliveryAttempt}
    (h : Moves db d d' closed opened) (hfresh : ∀ b, opened = some b → db.attempts.Fresh b.id)
    (hi : d.id ≠ i) (hissued : ∀ w ∈ issued [(r, a)], w.deliveryId ≠ i) :
    Treats i db r a (db.move d' closed opened) := by
  refine .quiet (fun x hx => ?_) (attemptsAt_move_of_ne h hfresh (Ne.symm hi)) hissued
  rw [mem_move_deliveries h]
  constructor
  · rintro (⟨hx, -⟩ | rfl)
    · exact hx
    · exact absurd (h.same.id.symm.trans hx) hi
  · refine fun hm => .inl ⟨hm, ?_⟩
    rintro rfl
    exact hi hx

theorem Step.treats (hstep : Step lib False L db r a db') (i : UUID) : Treats i db r a db' := by
  cases hstep with
  | accept hid hep hdigest hbytes hvalid hevent hkey hdelivery hLe hLk hLd hLs =>
    exact treats_insert hdelivery rfl rfl rfl rfl rfl
  | supersede hid hfresh hvalid hLd hLs h => exact treats_insert hfresh rfl rfl rfl rfl rfl
  | @claim w draw c ep d d' closed opened hd hL hdue hep hepid hc hvalid hclose hopen =>
    by_cases hi : d.id = i
    · exact .claim hd hi hdue (hep not_false) hepid hc fun b hb => (hopen b hb).id
    · refine treats_other (hc.moves hd) (fun b hb => (hopen b hb).id) hi fun x hx hxi => hi ?_
      have hx := Option.some.inj (Response.claimed.inj (mem_issued_singleton.mp hx))
      have := hc.deliveryId
      rw [hx] at this
      exact this.symm.trans hxi
  | @settle w webhook result draw status delay d b htarget hd hcount hb hL hvalid hclose =>
    by_cases hi : d.id = i
    · exact .settle hi htarget hd hcount hb
    · refine treats_other (settle_moves hd hb _ _ _ _) (fun b hb => by cases hb) hi ?_
      intro x hx
      cases hx
  | purge hc hL hids hend => exact hc.elim
  | _ => exact .quiet (fun _ _ => Iff.rfl) rfl fun w hw => by cases hw

end Treats

/-! ## Every interleaving -/

namespace Trial

variable {T : Trial} {calm : Prop} {j j' : Joint}

/-- What holds whatever expires and crashes: a result is the answer to one of the
requests, in the order in which they arrived, and only results are recorded. -/
structure Sound (T : Trial) (calm : Prop) (j : Joint) : Prop where
  reaches : ReachesLimited T.lib T.maxAttempts j.labels j.system
  seen : T.Seen j.lab j.sent.length
  nodup : j.sent.Nodup
  sent : ∀ w ∈ j.sent, w ∈ issued (history j.labels) ∧ w.deliveryId = T.deliveryId
  results : ∀ p ∈ j.results, ∃ k, j.sent[k]? = some p.1 ∧ T.Reported (k + 1) p.2 ∧
    (calm → p.2.storable = true)
  reports : ∀ c ∈ j.system.sessions, ∀ v w r draw, c.req = .finalize v w r draw →
    w.deliveryId = T.deliveryId → (w, r) ∈ j.results ∧ (calm → FinalizeDraw.Fair draw)
  completed : ∀ a ∈ j.system.db.attemptsAt T.deliveryId, a.status = .completed →
    ∃ p ∈ j.results, a.attemptNumber = p.1.attemptNumber ∧
      a.httpStatusCode = p.2.httpStatusCode ∧ a.disposition = some p.2.disposition

/-- Before its first claim nothing is known of the delivery. -/
theorem Starts.unissued (h : T.Starts j) :
    (∀ w ∈ issued (history j.labels), w.deliveryId ≠ T.deliveryId) ∧
      j.system.db.attemptsAt T.deliveryId = [] := by
  have hacc := ReachesLimited.accounted h.reaches
  have hinv := reaches_inv (ReachesLimited.reaches h.reaches)
  have hnone : numbers T.deliveryId (history j.labels) = [] ∧
      j.system.db.attemptsAt T.deliveryId = [] := by
    cases hg : j.system.db.deliveries.get? T.deliveryId with
    | none =>
      have hfresh := Table.get?_eq_none.mp hg
      exact ⟨(hacc.known _ hfresh).1, hinv.attemptsAt_fresh hfresh⟩
    | some d =>
      obtain ⟨hd, hid⟩ := Table.get?_eq_some.mp hg
      have hzero := (h.unclaimed d hd hid).2
      have hnumbered := (hinv.ledger d hd).numbered
      have hn := hacc.numbered d hd
      rw [hzero, hid] at hnumbered hn
      exact ⟨hn, List.map_eq_nil_iff.mp hnumbered⟩
  refine ⟨fun w hw hd => ?_, hnone.2⟩
  have hmem : w.attemptNumber ∈ numbers T.deliveryId (history j.labels) :=
    List.mem_map_of_mem (List.mem_filter.mpr ⟨hw, decide_eq_true hd⟩)
  rw [hnone.1] at hmem
  cases hmem

theorem Starts.sound (h : T.Starts j) : T.Sound calm j := by
  obtain ⟨hissued, hattempts⟩ := h.unissued
  obtain ⟨ops, hlab⟩ := h.configured
  refine ⟨h.reaches, ?_, ?_, ?_, ?_, ?_, ?_⟩
  · rw [h.sent, hlab]
    exact seen_configured ops
  · rw [h.sent]
    exact List.nodup_nil
  · intro w hw
    rw [h.sent] at hw
    cases hw
  · intro p hp
    rw [h.results] at hp
    cases hp
  · intro c hc v w r draw hreq hd
    have hadmitted := (reaches_sound (ReachesLimited.reaches h.reaches)).admitted c hc
    rw [hreq] at hadmitted
    exact absurd hd (hissued w (hadmitted.resolve_left id))
  · intro a ha
    rw [hattempts] at ha
    cases ha

/-- A commit records nothing but results. -/
theorem Sound.recorded (h : T.Sound calm j)
    {c : Session ℕ Request Db Write Lock (List UUID) Error Response} (hc : c ∈ j.system.sessions)
    {a : Response} {db' : Db} (ht : Treats T.deliveryId j.system.db c.req a db') :
    ∀ x ∈ db'.attemptsAt T.deliveryId, x.status = .completed →
      ∃ p ∈ j.results, x.attemptNumber = p.1.attemptNumber ∧
        x.httpStatusCode = p.2.httpStatusCode ∧ x.disposition = some p.2.disposition := by
  intro x hx hs
  generalize hreq : c.req = r at ht
  cases ht with
  | quiet hrows hattempts hissued => exact h.completed x (hattempts ▸ hx) hs
  | create hfresh hrows hstatus hcount hattempts hissued => exact h.completed x (hattempts ▸ hx) hs
  | @claim w draw k ep d d' closed opened hd hid hdue hep hepid hk hfresh =>
    obtain ⟨hxm, hxd⟩ := Db.mem_attemptsAt.mp hx
    rcases mem_move_attempts (hk.moves hd) hxm with hxm | rfl | rfl
    · exact h.completed x (Db.mem_attemptsAt.mpr ⟨hxm, hxd⟩) hs
    · cases hk <;> cases hs
    · cases hk <;> cases hs
  | @settle w webhook result draw status delay d b hid htarget hd hcount hb =>
    obtain ⟨hxm, hxd⟩ := Db.mem_attemptsAt.mp hx
    rcases mem_move_attempts (settle_moves hd hb _ _ _ _) hxm with hxm | hclosed | hopened
    · exact h.completed x (Db.mem_attemptsAt.mpr ⟨hxm, hxd⟩) hs
    · obtain rfl := Option.some.inj hclosed
      obtain ⟨-, -, hbd, hbn, -⟩ := mem_claimedAttempts.mp hb
      obtain ⟨hp, -⟩ := h.reports c hc w webhook result draw hreq (hbd.symm.trans hxd)
      exact ⟨_, hp, hbn, rfl, rfl⟩
    · cases hopened

/-- A step of the database. -/
theorem Sound.database (h : T.Sound calm j) {x : Action ℕ Request} {l : Shown} {s' : System}
    (hx : j.system.act (Request.code T.lib) x = some (l, s'))
    (hp : Limited T.maxAttempts j.labels j.system l s') (hreport : T.Reports j l)
    (hcalm : calm → T.Calm j l) :
    T.Sound calm { j with labels := j.labels ++ [l], system := s' } where
  reaches := .snoc h.reaches hx hp
  seen := h.seen
  nodup := h.nodup
  sent := by
    intro w hw
    obtain ⟨hissued, hd⟩ := h.sent w hw
    refine ⟨?_, hd⟩
    rw [history_append, issued_append]
    exact List.mem_append_left _ hissued
  results := h.results
  reports := by
    intro c hc v w r draw hreq hd
    rcases Sys.act_mem hx hc with ⟨c₀, hc₀, heq⟩ | rfl
    · exact h.reports c₀ hc₀ v w r draw (heq ▸ hreq) hd
    · rw [hreq] at hreport hcalm
      exact ⟨hreport hd, fun hcl => (hcalm hcl).2 hd⟩
  completed := by
    rcases (reaches_meets (ReachesLimited.reaches h.reaches) hx hp.1).cases with
      ⟨-, hdb⟩ | ⟨c, hc, a, -, hstep⟩
    · dsimp only
      rw [hdb]
      exact h.completed
    · exact h.recorded hc (Step.treats hstep _)

theorem getElem?_append_of_some {α : Type} {xs : List α} {k : ℕ} {x : α} (h : xs[k]? = some x)
    (ys : List α) : (xs ++ ys)[k]? = some x := by
  obtain ⟨hlt, -⟩ := List.getElem?_eq_some_iff.mp h
  rw [List.getElem?_append_left hlt, h]

/-- A request that arrives. -/
theorem Sound.arrive (h : T.Sound calm j) {w : OutboundWebhook} {request : Webhook}
    (hw : w ∈ issued (history j.labels)) (hd : w.deliveryId = T.deliveryId) (hnew : w ∉ j.sent)
    (hroute : j.lab.routed (.receiveWebhook request) = T.runId) :
    T.Sound calm { j with
      lab := (j.lab.receiveWebhook T.receiverLib request).1
      sent := j.sent ++ [w] } where
  reaches := h.reaches
  seen := by
    rw [List.length_append]
    exact h.seen.webhook hroute
  nodup := by
    refine List.nodup_append.mpr ⟨h.nodup, List.nodup_singleton w, ?_⟩
    rintro x hx y hy rfl
    exact hnew (List.mem_singleton.mp hy ▸ hx)
  sent := by
    intro x hx
    rcases List.mem_append.mp hx with hx | hx
    · exact h.sent x hx
    · rw [List.mem_singleton.mp hx]
      exact ⟨hw, hd⟩
  results := by
    intro p hp
    obtain ⟨k, hk, hrest⟩ := h.results p hp
    exact ⟨k, getElem?_append_of_some hk _, hrest⟩
  reports := h.reports
  completed := h.completed

/-- A worker that learns the answer to a request. -/
theorem Sound.learn (h : T.Sound calm j) {p : OutboundWebhook × AttemptResult}
    (hp : ∃ k, j.sent[k]? = some p.1 ∧ T.Reported (k + 1) p.2 ∧ (calm → p.2.storable = true)) :
    T.Sound calm { j with results := j.results ++ [p] } where
  reaches := h.reaches
  seen := h.seen
  nodup := h.nodup
  sent := h.sent
  results := by
    intro q hq
    rcases List.mem_append.mp hq with hq | hq
    · exact h.results q hq
    · rw [List.mem_singleton.mp hq]
      exact hp
  reports := by
    intro c hc v w r draw hreq hd
    obtain ⟨hmem, hfair⟩ := h.reports c hc v w r draw hreq hd
    exact ⟨List.mem_append_left _ hmem, hfair⟩
  completed := by
    intro a ha hs
    obtain ⟨q, hq, hrest⟩ := h.completed a ha hs
    exact ⟨q, List.mem_append_left _ hq, hrest⟩

theorem Sound.step (h : T.Sound calm j) (hstep : T.Step calm j j') : T.Sound calm j' := by
  cases hstep with
  | database hx hp hreport hcalm => exact h.database hx hp hreport hcalm
  | send hw hd hnew hbody hsig hroute hresult hcalm =>
    obtain ⟨hreported, hstore⟩ := h.seen.reported hbody hsig hroute hresult
    refine (h.arrive hw hd hnew hroute).learn
      ⟨j.sent.length, List.getElem?_concat_length, hreported, fun hcl => ?_⟩
    exact hstore (hcalm hcl).1 (hcalm hcl).2
  | crash hw hd hnew hsig hroute hcalm => exact h.arrive hw hd hnew hroute
  | receiver hop =>
    exact ⟨h.reaches, h.seen.spares hop, h.nodup, h.sent, h.results, h.reports, h.completed⟩

/-- The states of the composition that follow `j`. -/
abbrev Leads (T : Trial) (calm : Prop) (j j' : Joint) : Prop :=
  Relation.ReflTransGen (T.Step calm) j j'

theorem Sound.leads (h : T.Sound calm j) (hr : T.Leads calm j j') : T.Sound calm j' := by
  induction hr with
  | refl => exact h
  | tail _ hstep ih => exact ih.step hstep

/-- No more requests arrive than attempts are reserved. -/
theorem Sound.sent_le (h : T.Sound calm j) :
    j.sent.length ≤ (numbers T.deliveryId (history j.labels)).length ∧
      (numbers T.deliveryId (history j.labels)).length ≤ T.maxAttempts := by
  constructor
  · rw [numbers, List.length_map]
    refine (List.subperm_of_subset h.nodup fun w hw => ?_).length_le
    obtain ⟨hissued, hd⟩ := h.sent w hw
    exact List.mem_filter.mpr ⟨hissued, decide_eq_true hd⟩
  · have hacc := ReachesLimited.accounted h.reaches
    cases hg : j.system.db.deliveries.get? T.deliveryId with
    | none =>
      rw [(hacc.known _ (Table.get?_eq_none.mp hg)).1]
      exact Nat.zero_le _
    | some d =>
      obtain ⟨hd, hid⟩ := Table.get?_eq_some.mp hg
      rw [← hid, hacc.numbered d hd, List.length_range']
      exact hacc.limit d hd

/-- With no more attempts than failures every recorded answer is a failure. -/
theorem Sound.failed (h : T.Sound calm j) (hm : T.maxAttempts ≤ T.failures)
    {a : DeliveryAttempt} (ha : a ∈ j.system.db.attemptsAt T.deliveryId)
    (hs : a.status = .completed) :
    a.httpStatusCode = some 503 ∧ a.disposition = some .retry := by
  obtain ⟨p, hp, -, hcode, hdisp⟩ := h.completed a ha hs
  obtain ⟨k, hk, hreported, -⟩ := h.results p hp
  obtain ⟨hlt, -⟩ := List.getElem?_eq_some_iff.mp hk
  have hle := h.sent_le
  have hfail : k + 1 ≤ T.failures := by omega
  rw [hcode, hdisp, hreported.status, hreported.disposition, statusAt, if_pos hfail, if_pos hfail]
  exact ⟨rfl, rfl⟩

end Trial

end EventHarbor
