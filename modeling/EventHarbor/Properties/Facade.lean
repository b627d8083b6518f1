import EventHarbor.Properties.ReceiverRuns
import EventHarbor.ReceiverLab.Demo
import EventHarbor.Serialization.Cursor

/-!
# What the API can read of Receiver Lab

The lab records headers as they come, the API bounds them: a state can be read
exactly when no record in the window is out of these bounds.
-/

namespace EventHarbor.ReceiverLab

open EventHarbor Recency Datetime

/-! ## One record -/

/-- The record as the API shows it. -/
def RequestRecord.response (q : RequestRecord) : ReceiverLabRequestResponse where
  sequence := q.sequence
  attempt := q.attempt
  eventId := q.eventId.map PyStr.ofString
  deliveryId := q.deliveryId.map PyStr.ofString
  eventType := q.eventType.map PyStr.ofString
  receiverRoute := PyStr.ofString q.receiverRoute
  deliveryAttempt := q.deliveryAttempt
  requestTimestamp := q.requestTimestamp
  receivedAt := q.receivedAt
  responseStatusCode := q.responseStatusCode
  receiverMode := PyStr.ofString q.receiverMode
  signaturePresent := q.signaturePresent
  bodyPreview := PyStr.ofString q.bodyPreview
  bodySha256 := PyStr.ofString q.bodySha256

/-- The headers are within the bounds of the API. -/
def RequestRecord.readable (q : RequestRecord) : Bool :=
  q.deliveryAttempt.all (1 ≤ ·) && q.requestTimestamp.all (0 ≤ ·)

/-- What the lab itself ensures of a record. -/
structure RequestRecord.Proper (q : RequestRecord) : Prop where
  sequence : 1 ≤ q.sequence
  attempt : 1 ≤ q.attempt
  receivedAt : IsDatetime q.receivedAt
  statusCode : 100 ≤ q.responseStatusCode ∧ q.responseStatusCode ≤ 599
  sha256 : isSha256 (PyStr.ofString q.bodySha256) = true

section Record

variable {datetimeOf : PyStr → Option Time}

theorem nullable_text (o : Option String) :
    nullable readStr (optionJson textJson o) = some (o.map PyStr.ofString) := by
  cases o <;> rfl

theorem nullable_int (ok : ℤ → Bool) (o : Option ℤ) :
    nullable (readInt ok) (optionJson Json.int o) = if o.all ok then some o else none := by
  cases o with
  | none => rfl
  | some n =>
    simp only [optionJson, nullable, readInt, Option.all_some]
    split <;> rfl

/-- A record of the lab is read exactly when its headers are in bounds. -/
theorem modelValidate_json (hdate : ∀ t, IsDatetime t →
      datetimeOf (PyStr.ofChars (isoformat t)) = some t) {q : RequestRecord} (h : q.Proper) :
    ReceiverLabRequestResponse.modelValidate datetimeOf q.json =
      if q.readable then some q.response else none := by
  obtain ⟨ms, hms⟩ : ∃ ms, q.json = .obj ms := ⟨_, rfl⟩
  have hextra : forbidsExtra ["sequence", "attempt", "event_id", "delivery_id", "event_type",
      "receiver_route", "delivery_attempt", "request_timestamp", "received_at",
      "response_status_code", "receiver_mode", "signature_present", "body_preview",
      "body_sha256"] ms = true := by
    cases hms
    rfl
  have hfields : Json.lookup ms "sequence" = some (.int q.sequence) ∧
      Json.lookup ms "attempt" = some (.int q.attempt) ∧
      Json.lookup ms "event_id" = some (optionJson textJson q.eventId) ∧
      Json.lookup ms "delivery_id" = some (optionJson textJson q.deliveryId) ∧
      Json.lookup ms "event_type" = some (optionJson textJson q.eventType) ∧
      Json.lookup ms "receiver_route" = some (textJson q.receiverRoute) ∧
      Json.lookup ms "delivery_attempt" = some (optionJson Json.int q.deliveryAttempt) ∧
      Json.lookup ms "request_timestamp" = some (optionJson Json.int q.requestTimestamp) ∧
      Json.lookup ms "received_at" = some (.str (PyStr.ofChars (isoformat q.receivedAt))) ∧
      Json.lookup ms "response_status_code" = some (.int q.responseStatusCode) ∧
      Json.lookup ms "receiver_mode" = some (textJson q.receiverMode) ∧
      Json.lookup ms "signature_present" = some (.bool q.signaturePresent) ∧
      Json.lookup ms "body_preview" = some (textJson q.bodyPreview) ∧
      Json.lookup ms "body_sha256" = some (textJson q.bodySha256) := by
    cases hms
    exact ⟨rfl, rfl, rfl, rfl, rfl, rfl, rfl, rfl, rfl, rfl, rfl, rfl, rfl, rfl⟩
  obtain ⟨hseq, hatt, hevent, hdelivery, htype, hroute, hheader, hstamp, hreceived, hstatus, hmode,
    hsignature, hpreview, hsha⟩ := hfields
  have hseq' : readInt (1 ≤ ·) (.int q.sequence) = some (q.sequence : ℤ) :=
    if_pos (decide_eq_true (by exact_mod_cast h.sequence))
  have hatt' : readInt (1 ≤ ·) (.int q.attempt) = some (q.attempt : ℤ) :=
    if_pos (decide_eq_true (by exact_mod_cast h.attempt))
  have hstatus' : readInt (fun n => 100 ≤ n && n ≤ 599) (.int q.responseStatusCode) =
      some q.responseStatusCode := if_pos (by simpa using h.statusCode)
  have hsha' : (some (PyStr.ofString q.bodySha256)).filter isSha256 =
      some (PyStr.ofString q.bodySha256) := if_pos h.sha256
  rw [hms, ReceiverLabRequestResponse.modelValidate, if_pos hextra]
  simp only [field, hseq, hatt, hevent, hdelivery, htype, hroute, hheader, hstamp, hreceived,
    hstatus, hmode, hsignature, hpreview, hsha, Option.bind_eq_bind, Option.bind_some, hseq', hatt',
    hstatus', hsha', nullable_text, nullable_int, readStr, readBool, textJson,
    hdate _ h.receivedAt]
  cases hd : q.deliveryAttempt.all (1 ≤ ·) with
  | false => simp [RequestRecord.readable, hd]
  | true =>
    cases ht : q.requestTimestamp.all (0 ≤ ·) with
    | false => simp [RequestRecord.readable, ht]
    | true => simp [RequestRecord.readable, hd, ht, RequestRecord.response]

theorem mapM_modelValidate (hdate : ∀ t, IsDatetime t →
      datetimeOf (PyStr.ofChars (isoformat t)) = some t) {qs : List RequestRecord}
    (h : ∀ q ∈ qs, q.Proper) :
    (qs.map RequestRecord.json).mapM (ReceiverLabRequestResponse.modelValidate datetimeOf) =
      if qs.all RequestRecord.readable then some (qs.map RequestRecord.response) else none := by
  induction qs with
  | nil => rfl
  | cons q qs ih =>
    rw [List.map_cons, List.mapM_cons, ih fun q' hq' => h q' (List.mem_cons_of_mem _ hq'),
      modelValidate_json hdate (h q List.mem_cons_self), List.all_cons]
    cases q.readable with
    | false => rfl
    | true => cases qs.all RequestRecord.readable <;> rfl

end Record

/-! ## The state of a run -/

def ReceiverConfiguration.response (c : ReceiverConfiguration) :
    ReceiverLabConfigurationResponse where
  mode := PyStr.ofString c.mode.value
  failuresBeforeSuccess := c.failuresBeforeSuccess
  delayMs := c.delayMs

/-- The run as the API shows it. -/
def ReceiverRunState.shown (run : ReceiverRunState) : ReceiverLabStateResponse where
  preset := ReceiverLabDemoService.identifyPreset run.configuration.response
  configuration := run.configuration.response
  attempts := run.scenarioAttempts
  requests := (lastN controlRequestLimit run.requests).map RequestRecord.response

/-- Every record in the window is within the bounds of the API. -/
def ReceiverRunState.readable (run : ReceiverRunState) : Bool :=
  (lastN controlRequestLimit run.requests).all RequestRecord.readable

section State

variable {datetimeOf : PyStr → Option Time} {lib : ReceiverLib}

theorem modelValidate_modelDump (c : ReceiverConfiguration) :
    ReceiverLabConfigurationResponse.modelValidate c.modelDump = some c.response := by
  rfl

theorem readPayload_controlJson (hdate : ∀ t, IsDatetime t →
      datetimeOf (PyStr.ofChars (isoformat t)) = some t) {run : ReceiverRunState}
    (h : ∀ q ∈ run.requests, q.Proper) :
    ReceiverLabDemoService.readPayload datetimeOf (controlJson (.control run.configuration
      run.scenarioAttempts (lastN controlRequestLimit run.requests))) =
      if run.readable then some run.shown else none := by
  have hwindow : lastN 20 ((lastN controlRequestLimit run.requests).map RequestRecord.json) =
      (lastN controlRequestLimit run.requests).map RequestRecord.json := by
    refine lastN_of_length_le ?_
    rw [List.length_map]
    exact length_lastN_le _ _
  have hlookup : ∀ c a qs, Json.lookup [(PyStr.ofString "configuration", c),
      (PyStr.ofString "attempts", a), (PyStr.ofString "requests", qs)] "configuration" = some c ∧
      Json.lookup [(PyStr.ofString "configuration", c), (PyStr.ofString "attempts", a),
        (PyStr.ofString "requests", qs)] "attempts" = some a ∧
      Json.lookup [(PyStr.ofString "configuration", c), (PyStr.ofString "attempts", a),
        (PyStr.ofString "requests", qs)] "requests" = some qs := fun c a qs => ⟨rfl, rfl, rfl⟩
  have hall := mapM_modelValidate hdate fun q hq =>
    h q ((lastN_sublist controlRequestLimit _).subset hq)
  simp only [controlJson, ReceiverLabDemoService.readPayload, field, hlookup, Option.bind_eq_bind,
    Option.bind_some, modelValidate_modelDump, readInt, if_true, hwindow]
  rw [hall, ReceiverRunState.readable]
  cases (lastN controlRequestLimit run.requests).all RequestRecord.readable <;> rfl

theorem proper_onRun (hsha : ∀ body, isSha256 (PyStr.ofString (lib.sha256Hex body)) = true)
    {op : Operation} (hclock : ∀ w, op = .receiveWebhook w → IsDatetime w.receivedAt)
    {run : ReceiverRunState} (h : ∀ q ∈ run.requests, q.Proper) :
    ∀ q ∈ (op.onRun lib run).1.requests, q.Proper := by
  cases op with
  | receiveWebhook w =>
    show ∀ q ∈ (run.receive lib w).1.requests, q.Proper
    cases hrec : (run.receive lib w).2 with
    | error e =>
      rw [receive_raises hrec]
      exact h
    | ok response =>
      obtain ⟨hstatus, q, hseq, hatt, hq, hshows, hrun⟩ := receive_returns hrec
      rw [hrun]
      intro q' hq'
      rcases List.mem_append.mp ((lastN_sublist _ _).subset hq') with hq' | hq'
      · exact h q' hq'
      · rw [List.mem_singleton.mp hq']
        refine ⟨by omega, by omega, hshows.receivedAt ▸ hclock w rfl, ?_, ?_⟩
        · rw [hq, hstatus, expectedStatus]
          split_ifs <;> decide
        · rw [hshows.bodySha256]
          exact hsha w.body
  | _ => exact h

theorem readable_onRun {op : Operation} (hheaders : ∀ w, op = .receiveWebhook w →
      w.deliveryAttempt.all (1 ≤ ·) = true ∧ w.requestTimestamp.all (0 ≤ ·) = true)
    {run : ReceiverRunState} (h : ∀ q ∈ run.requests, q.readable = true) :
    ∀ q ∈ (op.onRun lib run).1.requests, q.readable = true := by
  cases op with
  | receiveWebhook w =>
    show ∀ q ∈ (run.receive lib w).1.requests, q.readable = true
    cases hrec : (run.receive lib w).2 with
    | error e =>
      rw [receive_raises hrec]
      exact h
    | ok response =>
      obtain ⟨-, q, -, -, -, hshows, hrun⟩ := receive_returns hrec
      obtain ⟨hattempt, hstamp⟩ := hheaders w rfl
      rw [hrun]
      intro q' hq'
      rcases List.mem_append.mp ((lastN_sublist _ _).subset hq') with hq' | hq'
      · exact h q' hq'
      · rw [List.mem_singleton.mp hq', RequestRecord.readable, hshows.deliveryAttempt,
          hshows.requestTimestamp, hattempt, hstamp]
        rfl
  | _ => exact h

theorem proper_run (hsha : ∀ body, isSha256 (PyStr.ofString (lib.sha256Hex body)) = true)
    {ops : List Operation} (hclock : ∀ w, .receiveWebhook w ∈ ops → IsDatetime w.receivedAt)
    (runId : Option String) :
    ∀ q ∈ ((ReceiverState.run lib {} ops).stateOf runId).requests, q.Proper := by
  have hnew : ∀ q ∈ ({} : ReceiverRunState).requests, q.Proper := fun q hq => by cases hq
  refine stateOf_run (P := fun run => ∀ q ∈ run.requests, q.Proper) hnew
    (fun op hop run h => ?_) runId
  exact proper_onRun hsha (fun w hw => hclock w (hw ▸ hop)) h

/-- What the service answers for a run. -/
theorem state_eq (hdate : ∀ t, IsDatetime t → datetimeOf (PyStr.ofChars (isoformat t)) = some t)
    {lab : ReceiverState} {runId : Option String}
    (hid : runId.all ReceiverLabDemoService.isRunId = true) (hs : lab.Bounded)
    (h : ∀ q ∈ (lab.stateOf runId).requests, q.Proper) :
    (ReceiverLabDemoService.state datetimeOf lib lab runId).2 =
      if (lab.stateOf runId).readable then .ok (lab.stateOf runId).shown
      else .error ReceiverLabDemoService.unavailable := by
  have hanswer : (lab.step lib (.controlState runId)).2 = .control (lab.stateOf runId).configuration
      (lab.stateOf runId).scenarioAttempts
      (lastN controlRequestLimit (lab.stateOf runId).requests) := by
    rw [step_eq hs]
    cases runId <;> rfl
  rw [ReceiverLabDemoService.state, if_pos hid]
  dsimp only
  rw [hanswer, readPayload_controlJson hdate h]
  cases (lab.stateOf runId).readable <;> rfl

variable (lib) in
/-- The API reads a run exactly when the headers in its window are in bounds; it
reads every run of a lab that only such webhooks reached. -/
theorem state_read_iff (hsha : ∀ body, isSha256 (PyStr.ofString (lib.sha256Hex body)) = true)
    (hdate : ∀ t, IsDatetime t → datetimeOf (PyStr.ofChars (isoformat t)) = some t)
    {ops : List Operation} (hclock : ∀ w, .receiveWebhook w ∈ ops → IsDatetime w.receivedAt) :
    (∀ runId : Option String, runId.all ReceiverLabDemoService.isRunId = true →
      ((ReceiverLabDemoService.state datetimeOf lib (ReceiverState.run lib {} ops) runId).2 =
          .ok ((ReceiverState.run lib {} ops).stateOf runId).shown ↔
        ∀ q ∈ lastN controlRequestLimit ((ReceiverState.run lib {} ops).stateOf runId).requests,
          q.readable = true)) ∧
    ((∀ w, .receiveWebhook w ∈ ops → w.deliveryAttempt.all (1 ≤ ·) = true ∧
        w.requestTimestamp.all (0 ≤ ·) = true) →
      ∀ runId : Option String, runId.all ReceiverLabDemoService.isRunId = true →
        (ReceiverLabDemoService.state datetimeOf lib (ReceiverState.run lib {} ops) runId).2 =
          .ok ((ReceiverState.run lib {} ops).stateOf runId).shown) := by
  have hstate : ∀ runId : Option String, runId.all ReceiverLabDemoService.isRunId = true →
      (ReceiverLabDemoService.state datetimeOf lib (ReceiverState.run lib {} ops) runId).2 =
        if ((ReceiverState.run lib {} ops).stateOf runId).readable then
          .ok ((ReceiverState.run lib {} ops).stateOf runId).shown
        else .error ReceiverLabDemoService.unavailable :=
    fun runId hid => state_eq hdate hid (run_bounded lib ops) (proper_run hsha hclock runId)
  have hiff : ∀ run : ReceiverRunState, run.readable = true ↔
      ∀ q ∈ lastN controlRequestLimit run.requests, q.readable = true := fun run =>
    List.all_eq_true
  refine ⟨fun runId hid => ?_, fun hheaders runId hid => ?_⟩
  · rw [hstate runId hid, ← hiff]
    cases ((ReceiverState.run lib {} ops).stateOf runId).readable <;> simp
  · have hnew : ∀ q ∈ ({} : ReceiverRunState).requests, q.readable = true := fun q hq => by cases hq
    have hall : ∀ q ∈ ((ReceiverState.run lib {} ops).stateOf runId).requests, q.readable = true :=
      stateOf_run (P := fun run => ∀ q ∈ run.requests, q.readable = true) hnew
        (fun op hop run h => readable_onRun (fun w hw => hheaders w (hw ▸ hop)) h) runId
    rw [hstate runId hid, if_pos]
    exact (hiff _).mpr fun q hq => hall q ((lastN_sublist _ _).subset hq)

end State

namespace Sample

/-- A digest of 64 digits; the one of the empty body is its SHA-256. -/
def sha256Hex (body : Bytes) : String :=
  if body = [] then "e3b0c44298fc1c149afbf4c8996fb92427ae41e4649b934ca495991b7852b855"
  else String.ofList (hexDigits 64 body.length)

theorem isSha256_sha256Hex (body : Bytes) : isSha256 (PyStr.ofString (sha256Hex body)) = true := by
  unfold sha256Hex
  split
  · decide
  · have hdigit : ∀ d < 16, (48 ≤ (Nat.digitChar d).toNat && (Nat.digitChar d).toNat ≤ 57 ||
        97 ≤ (Nat.digitChar d).toNat && (Nat.digitChar d).toNat ≤ 102) = true := by decide
    rw [PyStr.ofString, String.toList_ofList, isSha256, PyStr.ofChars, List.length_map,
      hexDigits_length, decide_eq_true rfl, Bool.true_and, List.all_eq_true]
    intro c hc
    obtain ⟨a, ha, rfl⟩ := List.mem_map.mp hc
    obtain ⟨d, hd, rfl⟩ := digit_cases ha
    exact hdigit d hd

/-- The lab with digests of the right shape. -/
def demoLib : ReceiverLib := { receiverLib with sha256Hex := sha256Hex }

def datetimeOf (s : PyStr) : Option Time :=
  (fromisoformat s).bind fun p => p.2.map fun offset => instant (p.1 - offset)

theorem datetimeOf_isoformat (t : Time) (h : IsDatetime t) :
    datetimeOf (PyStr.ofChars (isoformat t)) = some t := by
  rw [datetimeOf, fromisoformat_isoformat h, Option.bind_some, Option.map_some, Int.sub_zero]
  exact congrArg some (instant_microseconds h)

/-- A webhook with an empty body that claims the given attempt. -/
def attempted (n : ℤ) : Webhook :=
  { plainWebhook [] none with deliveryAttempt := some n }

theorem isDatetime_zero : IsDatetime 0 :=
  ⟨62135596800000000, by decide, by norm_num [instant, unixEpoch]⟩

end Sample

theorem state_read_iff_of_first :
    (ReceiverLabDemoService.state Sample.datetimeOf Sample.demoLib
      (ReceiverState.run Sample.demoLib {} [.receiveWebhook (Sample.attempted 1)]) none).2 =
      .ok ((ReceiverState.run Sample.demoLib {}
        [.receiveWebhook (Sample.attempted 1)]).stateOf none).shown := by
  have hclock : ∀ w, Operation.receiveWebhook w ∈ [.receiveWebhook (Sample.attempted 1)] →
      IsDatetime w.receivedAt := by
    intro w hw
    cases List.mem_singleton.mp hw
    exact Sample.isDatetime_zero
  refine (state_read_iff Sample.demoLib Sample.isSha256_sha256Hex Sample.datetimeOf_isoformat
    hclock).2 (fun w hw => ?_) none rfl
  cases List.mem_singleton.mp hw
  decide

/-- A webhook that claims attempt zero is recorded, and the state cannot be read. -/
theorem state_unreadable :
    (ReceiverLabDemoService.state Sample.datetimeOf Sample.demoLib
      (ReceiverState.run Sample.demoLib {} [.receiveWebhook (Sample.attempted 0)]) none).2 =
      .error ReceiverLabDemoService.unavailable := by
  have hclock : ∀ w, Operation.receiveWebhook w ∈ [.receiveWebhook (Sample.attempted 0)] →
      IsDatetime w.receivedAt := by
    intro w hw
    cases List.mem_singleton.mp hw
    exact Sample.isDatetime_zero
  have hunreadable : ∀ lab : ReceiverState, lab.Bounded →
      (∀ q ∈ (lab.stateOf none).requests, q.Proper) → (lab.stateOf none).readable = false →
      (ReceiverLabDemoService.state Sample.datetimeOf Sample.demoLib lab none).2 =
        .error ReceiverLabDemoService.unavailable := by
    intro lab hs hproper hno
    rw [state_eq Sample.datetimeOf_isoformat rfl hs hproper, hno, if_neg Bool.false_ne_true]
  have hno : ((ReceiverState.run Sample.demoLib {}
      [.receiveWebhook (Sample.attempted 0)]).stateOf none).readable = false := by
    decide
  have hsha : ∀ body, isSha256 (PyStr.ofString (Sample.demoLib.sha256Hex body)) = true :=
    Sample.isSha256_sha256Hex
  have hproper := proper_run hsha hclock none
  have hs := run_bounded Sample.demoLib [.receiveWebhook (Sample.attempted 0)]
  generalize ReceiverState.run Sample.demoLib {} [.receiveWebhook (Sample.attempted 0)] = lab at *
  exact hunreadable lab hs hproper hno

end EventHarbor.ReceiverLab
