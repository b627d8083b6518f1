import EventHarbor.Frontend.DemoEvents
import EventHarbor.Interaction.Program

/-!
# The guided tour

`runReliabilityTour`: one server-owned receiver scenario, followed through the answers
of the API. Its dependencies are calls that are answered or rejected; a reading of the
clock and of the abort signal is a call as well, and so is a progress report. The
polling loops are bounded by fuel.
-/

namespace EventHarbor

namespace Frontend

open JavaScript Interaction

inductive ReliabilityTourPhase
  | idle | preparing | accepted | failing | contained | repairing | replaying | verified | paused
  | failed
deriving DecidableEq

structure ReliabilityTourProgress where
  phase : ReliabilityTourPhase
  runId : JsStr
  eventId : Option JsStr
  event : Option EventDetail
  attemptCount : JsNumber
  scenarioId : DemoScenarioId
  message : JsStr

structure ReliabilityTourResult extends ReliabilityTourProgress where
  publishIdempotencyKey : JsStr
  replayIdempotencyKey : JsStr
  endpointId : Option JsStr
  sourceDeliveryId : Option JsStr
  replayDeliveryId : Option JsStr
  payload : Option DemoEventPayload

/-- What is thrown: the pause of the tour itself, an error with its message, or any
other value. -/
inductive Thrown
  | tourPause (message : JsStr)
  | error (message : JsStr)
  | other

inductive Call
  | createRunId
  | now
  | aborted
  | wait (durationMs : JsNumber)
  | onProgress (progress : ReliabilityTourProgress)
  | getReceiverLab (runId : JsStr)
  | setReceiverLabPreset (preset : ReceiverLabPreset) (runId : JsStr)
  | ensureReceiverLabEndpoint (eventType : Option DemoEventTypeId)
  | publishDemoEvent (endpointId runId idempotencyKey : JsStr) (payload : Option DemoEventPayload)
      (scenarioId : DemoScenarioId)
  | getEvent (eventId : JsStr)
  | getDeliveryAttempts (deliveryId : JsStr)
  | replayDelivery (deliveryId idempotencyKey : JsStr)

@[reducible] def Call.Answer : Call → Type
  | createRunId => JsStr
  | now => JsNumber
  | aborted => Bool
  | wait _ => Except Thrown Unit
  | onProgress _ => Unit
  | getReceiverLab _ => Except Thrown ReceiverLabState
  | setReceiverLabPreset _ _ => Except Thrown ReceiverLabState
  | ensureReceiverLabEndpoint _ => Except Thrown Endpoint
  | publishDemoEvent _ _ _ _ _ => Except Thrown EventAccepted
  | getEvent _ => Except Thrown EventDetail
  | getDeliveryAttempts _ => Except Thrown DeliveryAttemptsResponse
  | replayDelivery _ _ => Except Thrown ReplayAccepted

structure ReliabilityTourOptions where
  runId : Option JsStr
  eventId : Option JsStr
  replayDeliveryId : Option JsStr
  payload : Option DemoEventPayload
  scenarioId : Option DemoScenarioId
  pollIntervalMs : Option JsNumber
  presentationPauseMs : Option JsNumber
  timeoutMs : Option JsNumber
  /-- `dependencies.createRunId` is given -/
  createsRunId : Bool

/-- The constants of one run. -/
structure Tour where
  runId : JsStr
  publishIdempotencyKey : JsStr
  replayIdempotencyKey : JsStr
  deadline : JsNumber
  selectedScenario : DemoScenario
  pollIntervalMs : JsNumber
  presentationPauseMs : JsNumber
  payload : Option DemoEventPayload

/-- The variables of one run. -/
structure Vars where
  phase : ReliabilityTourPhase
  eventId : Option JsStr
  endpointId : Option JsStr
  sourceDeliveryId : Option JsStr
  replayDeliveryId : Option JsStr
  event : Option EventDetail
  currentMessage : JsStr

abbrev Script := Imp Call.Answer Vars Thrown

def ask (c : Call) : Script c.Answer := Imp.ask c

def attemptsIn (event : Option EventDetail) : JsNumber :=
  match event with
  | some event =>
    event.deliveries.foldl (fun total delivery => total.add delivery.attemptCount) (.finite 0)
  | none => .finite 0

def messageFrom : Thrown → JsStr
  | .error message =>
    if message ≠ [] then message
    else js "The reliability tour could not reach the next durable state."
  | .tourPause message => message
  | .other => js "The reliability tour could not reach the next durable state."

/-- An identifier that is truthy. -/
def given (id : Option JsStr) : Option JsStr := id.filter (· ≠ [])

def sourceDelivery (detail : EventDetail) : Option Delivery :=
  detail.deliveries.find? (·.replayGeneration = .finite 0)

def replayDelivery (detail : EventDetail) (deliveryId : JsStr) : Option Delivery :=
  detail.deliveries.find? (·.id = deliveryId)

def existingReplays (detail : EventDetail) : List Delivery :=
  detail.deliveries.filter fun d => (JsNumber.finite 0).lt d.replayGeneration

namespace Tour

variable (t : Tour)

def progress (v : Vars) : ReliabilityTourProgress where
  phase := v.phase
  runId := t.runId
  eventId := v.eventId
  event := v.event
  attemptCount := attemptsIn v.event
  scenarioId := t.selectedScenario.id
  message := v.currentMessage

def result (v : Vars) : ReliabilityTourResult :=
  { t.progress v with
    publishIdempotencyKey := t.publishIdempotencyKey
    replayIdempotencyKey := t.replayIdempotencyKey
    endpointId := v.endpointId
    sourceDeliveryId := v.sourceDeliveryId
    replayDeliveryId := v.replayDeliveryId
    payload := t.payload }

def reported (nextPhase : ReliabilityTourPhase) (message : JsStr) (nextEvent : Option EventDetail)
    (v : Vars) : Vars :=
  { v with
    phase := nextPhase
    currentMessage := message
    event := nextEvent.or v.event
    eventId := match nextEvent with
      | some event => some event.id
      | none => v.eventId }

def report (nextPhase : ReliabilityTourPhase) (message : JsStr)
    (nextEvent : Option EventDetail) : Script Unit := do
  Imp.modify (reported nextPhase message nextEvent)
  let v ← Imp.read
  ask (.onProgress (t.progress v))

def assertRunning : Script Unit := do
  let aborted ← ask .aborted
  if aborted = true then Imp.raise (.tourPause (js "The reliability tour was paused."))
  else do
    let now ← ask .now
    if t.deadline.le now then
      Imp.raise (.tourPause (js "The reliability tour timed out while waiting for durable state."))
    else Imp.ret ()

def wait (durationMs : JsNumber) : Script Unit := do
  t.assertRunning
  let answer ← ask (.wait durationMs)
  Imp.lift answer
  t.assertRunning

def readEventAfterPoll : Script EventDetail := do
  let v ← Imp.read
  match given v.eventId with
  | none => Imp.raise (.error (js "Cannot poll before an event has been accepted."))
  | some eventId => do
    t.wait t.pollIntervalMs
    let answer ← ask (.getEvent eventId)
    let fresh ← Imp.lift answer
    Imp.modify fun v => { v with event := some fresh }
    return fresh

def pauseForPresentation : Script Unit :=
  if (JsNumber.finite 0).lt t.presentationPauseMs then t.wait t.presentationPauseMs else Imp.ret ()

def finish : Script ReliabilityTourResult := do
  let v ← Imp.read
  return t.result v

def fail (message : JsStr) (failedEvent : EventDetail) : Script ReliabilityTourResult := do
  t.report .failed message (some failedEvent)
  t.finish

/-! ## Accepting or resuming -/

/-- Select the receiver's behavior and publish. -/
def prepare : Script Unit := do
  t.report .preparing (js ("Configuring the isolated " ++ t.selectedScenario.shortLabel.toLower ++
    " scenario and locating Receiver Lab.")) none
  let answer ← ask (.setReceiverLabPreset t.selectedScenario.preset t.runId)
  let configured ← Imp.lift answer
  if configured.preset ≠ some t.selectedScenario.preset then
    Imp.raise (.tourPause (js ("Receiver Lab did not enter the " ++
      t.selectedScenario.preset.value ++ " preset.")))
  else do
    let answer ← ask (.ensureReceiverLabEndpoint (t.payload.map (·.type)))
    let endpoint ← Imp.lift answer
    Imp.modify fun v => { v with endpointId := some endpoint.id }
    let answer ← ask (.publishDemoEvent endpoint.id t.runId t.publishIdempotencyKey t.payload
      t.selectedScenario.id)
    let accepted ← Imp.lift answer
    Imp.modify fun v => { v with eventId := some accepted.eventId }
    let answer ← ask (.getEvent accepted.eventId)
    let event ← Imp.lift answer
    Imp.modify fun v => { v with event := some event }

def resume (eventId : JsStr) : Script Unit := do
  let answer ← ask (.getEvent eventId)
  let event ← Imp.lift answer
  Imp.modify fun v => { v with
    event := some event
    eventId := some event.id
    endpointId := (sourceDelivery event).map (·.endpointId) }

/-- A given event is resumed, or else one is published. -/
def load : Script Unit := do
  let v ← Imp.read
  match given v.eventId with
  | some eventId => resume eventId
  | none => t.prepare

/-! ## The original delivery -/

/-- The end of a scenario without a replay. -/
def settle (event : EventDetail) (source : Delivery) : Script ReliabilityTourResult :=
  if t.selectedScenario.strategy = .automatic ∧ source.status = .delivered then do
    t.report .verified (js (if t.selectedScenario.id = .rateLimitRecovery then
        "The original delivery succeeded after two real 429 responses and receiver-directed waits."
      else "The original delivery recovered automatically after two real 503 responses."))
      (some event)
    t.finish
  else if t.selectedScenario.strategy = .terminal ∧ source.status = .deadLettered then do
    let invalidField := (demoEventDefinition event.type).invalidField
    let answer ← ask (.getDeliveryAttempts source.id)
    let evidence ← Imp.lift answer
    if isExpectedSchemaRejection event.type source evidence.attempts = true then do
      t.report .verified (js ("Receiver Lab returned HTTP 400 because data." ++ invalidField ++
        " is missing. EventHarbor classified the unchanged request as non-retryable, stopped " ++
        "after one attempt, and kept the evidence.")) (some event)
      t.finish
    else
      t.fail (js ("The delivery stopped, but its persisted attempt did not prove the expected " ++
        "missing_" ++ invalidField ++ " HTTP 400 response.")) event
  else
    t.fail (js (if t.selectedScenario.strategy = .terminal then
        "The permanently rejected event did not stop as expected."
      else "The receiver did not recover during the original delivery as expected.")) event

/-- Poll until the original delivery is delivered or stopped. -/
def awaitOutcome : ℕ → EventDetail → Delivery → Script ReliabilityTourResult
  | 0, _, _ => Imp.stuck
  | fuel + 1, event, source =>
    if source.status ≠ .delivered ∧ source.status ≠ .deadLettered then do
      t.report .failing (js (if t.selectedScenario.id = .rateLimitRecovery then
          "Receiver Lab is returning HTTP 429 while the worker follows Retry-After."
        else "Receiver Lab is returning a real failure while the worker records and classifies it."))
        (some event)
      let event ← t.readEventAfterPoll
      match sourceDelivery event with
      | none => t.fail (js "The original delivery disappeared from the event.") event
      | some source => do
        Imp.modify fun v => { v with sourceDeliveryId := some source.id }
        awaitOutcome fuel event source
    else t.settle event source

/-! ## The recovery replay -/

/-- Follow the replay until it is delivered or stopped. -/
def awaitReplay (replayDeliveryId : JsStr) : ℕ → EventDetail → Script ReliabilityTourResult
  | 0, _ => Imp.stuck
  | fuel + 1, event =>
    let follow : Script ReliabilityTourResult := do
      t.report .replaying (js "The receiver is healthy and handling the separate recovery replay.")
        (some event)
      let event ← t.readEventAfterPoll
      awaitReplay replayDeliveryId fuel event
    match replayDelivery event replayDeliveryId with
    | none =>
      if existingReplays event ≠ [] then
        t.fail (js "A different recovery replay superseded this tour's replay.") event
      else follow
    | some replay =>
      if replay.status = .delivered then do
        t.report .verified (js ("The recovery replay succeeded while the stopped original " ++
          "delivery remains intact as failure evidence.")) (some event)
        t.finish
      else if replay.status = .deadLettered then
        t.fail (js "The recovery replay also reached the dead-letter boundary.") event
      else follow

/-- Restore the receiver unless it is healthy already. -/
def repair : Script Unit := do
  let answer ← ask (.getReceiverLab t.runId)
  let receiver ← Imp.lift answer
  if receiver.preset ≠ some .success then do
    let answer ← ask (.setReceiverLabPreset .success t.runId)
    let restored ← Imp.lift answer
    if restored.preset ≠ some .success then
      Imp.raise (.tourPause (js "Receiver Lab did not enter the success preset."))
    else Imp.ret ()
  else Imp.ret ()

/-- Request the replay of a stopped delivery. The event that was reported last is the
one that is read again. -/
def authorize (fuel : ℕ) (event : EventDetail) (source : Delivery) :
    Script ReliabilityTourResult := do
  t.report .contained (js ("The retry budget is exhausted. The stopped original delivery and " ++
    "every failed request remain preserved.")) (some event)
  t.pauseForPresentation
  t.repair
  t.report .repairing (js ("Receiver Lab confirmed that this isolated test receiver is healthy " ++
    "and will now return HTTP 200. EventHarbor's stored failure evidence remains unchanged."))
    (some event)
  t.pauseForPresentation
  t.report .replaying (js "Creating a separate, traceable recovery replay that starts at request 1.")
    (some event)
  let answer ← ask (.replayDelivery source.id t.replayIdempotencyKey)
  let replay ← Imp.lift answer
  Imp.modify fun v => { v with replayDeliveryId := some replay.deliveryId }
  let answer ← ask (.getEvent event.id)
  let event ← Imp.lift answer
  Imp.modify fun v => { v with event := some event }
  match given (some replay.deliveryId) with
  | none => Imp.raise (.error (js "Replay acceptance did not return a delivery ID."))
  | some replayDeliveryId => t.awaitReplay replayDeliveryId fuel event

/-- Poll until the original delivery is stopped, and replay it. -/
def awaitContainment (replayFuel : ℕ) : ℕ → EventDetail → Delivery → Script ReliabilityTourResult
  | 0, _, _ => Imp.stuck
  | fuel + 1, event, source =>
    if source.status ≠ .deadLettered then
      if source.status = .delivered then
        t.fail (js ("The original delivery succeeded unexpectedly; the controlled failure was " ++
          "interrupted.")) event
      else if existingReplays event ≠ [] then
        t.fail (js "A recovery replay appeared before this tour authorized it.") event
      else do
        t.report .failing (js ("Receiver Lab is rejecting signed requests while the worker " ++
          "records each attempt.")) (some event)
        let event ← t.readEventAfterPoll
        match sourceDelivery event with
        | none => t.fail (js "The original delivery disappeared from the event.") event
        | some source => do
          Imp.modify fun v => { v with sourceDeliveryId := some source.id }
          awaitContainment replayFuel fuel event source
    else t.authorize replayFuel event source

/-- The event with an accepted replay, read again if it does not show the replay. The
event that was reported last is the one that is read again. -/
def readReplay (replayDeliveryId : JsStr) (event : EventDetail) : Script EventDetail :=
  match replayDelivery event replayDeliveryId with
  | some _ => Imp.ret event
  | none => do
    let answer ← ask (.getEvent event.id)
    let fresh ← Imp.lift answer
    Imp.modify fun v => { v with event := some fresh }
    Imp.ret fresh

/-- Follow a replay that is linked to the original delivery. -/
def resumeReplay (fuel : ℕ) (replayDeliveryId : JsStr) (event : EventDetail) (source : Delivery) :
    Script ReliabilityTourResult :=
  match replayDelivery event replayDeliveryId with
  | none => t.fail (js "The accepted replay is missing from the event lineage.") event
  | some currentReplay =>
    if currentReplay.replayedFromDeliveryId ≠ some source.id then
      t.fail (js "The recovery replay is not linked to the original delivery.") event
    else if currentReplay.status ≠ .delivered ∧ currentReplay.status ≠ .deadLettered then do
      t.repair
      t.report .repairing (js ("Receiver Lab confirmed healthy and ready to return HTTP 200 " ++
        "before the separate replay continues.")) (some event)
      t.awaitReplay replayDeliveryId fuel event
    else t.awaitReplay replayDeliveryId fuel event

/-- Go on with a replay that was accepted before. -/
def continueReplay (fuel : ℕ) (replayDeliveryId : JsStr) (event : EventDetail) (source : Delivery) :
    Script ReliabilityTourResult := do
  let event ← readReplay replayDeliveryId event
  t.resumeReplay fuel replayDeliveryId event source

/-- Recover an ambiguously acknowledged replay with the same stable key. -/
def recoverAcceptance (event : EventDetail) (source : Delivery) : Script Unit := do
  let v ← Imp.read
  if existingReplays event ≠ [] ∧ given v.replayDeliveryId = none then do
    let answer ← ask (.replayDelivery source.id t.replayIdempotencyKey)
    let recovered ← Imp.lift answer
    Imp.modify fun v => { v with replayDeliveryId := some recovered.deliveryId }
  else Imp.ret ()

/-- Replay, or go on with the replay that is known. -/
def replayOrContinue (fuel : ℕ) (event : EventDetail) (source : Delivery) :
    Script ReliabilityTourResult := do
  let v ← Imp.read
  match given v.replayDeliveryId with
  | none => t.awaitContainment fuel fuel event source
  | some replayDeliveryId => t.continueReplay fuel replayDeliveryId event source

/-- The scenario that needs an approved replay. -/
def recover (fuel : ℕ) (event : EventDetail) (source : Delivery) :
    Script ReliabilityTourResult := do
  t.recoverAcceptance event source
  t.replayOrContinue fuel event source

/-! ## The whole tour -/

/-- Follow an accepted event. -/
def follow (fuel : ℕ) (event : EventDetail) : Script ReliabilityTourResult :=
  let otherScenario := (scenarioOf ((JsValue.object event.data).get? (js "scenario"))).filter
    (· ≠ t.selectedScenario.id)
  match otherScenario with
  | some persistedScenario =>
    t.fail (js ("This event belongs to the " ++ persistedScenario.value ++ " scenario, not " ++
      t.selectedScenario.id.value ++ ".")) event
  | none => do
    t.report .accepted (js "The event and its original delivery are safely stored.") (some event)
    t.pauseForPresentation
    match sourceDelivery event with
    | none => t.fail (js "The accepted event is missing its original delivery.") event
    | some source => do
      Imp.modify fun v => { v with
        sourceDeliveryId := some source.id
        endpointId := v.endpointId.or (some source.endpointId) }
      if (existingReplays event).any fun d => (JsNumber.finite 1).lt d.replayGeneration then
        t.fail (js "The event contains an unexpected extra recovery replay.") event
      else if t.selectedScenario.strategy ≠ .replay then
        if existingReplays event ≠ [] then
          t.fail (js "This automatic scenario unexpectedly contains a recovery replay.") event
        else t.awaitOutcome fuel event source
      else t.recover fuel event source

/-- The part of the tour whose errors pause it. -/
def body (fuel : ℕ) : Script ReliabilityTourResult := do
  t.assertRunning
  t.load
  let v ← Imp.read
  match v.event with
  | none => Imp.raise (.error (js "The accepted event could not be loaded."))
  | some event => t.follow fuel event

def pause (thrown : Thrown) : Script ReliabilityTourResult := do
  let v ← Imp.read
  t.report .paused (messageFrom thrown) v.event
  t.finish

def run (fuel : ℕ) : Script ReliabilityTourResult := do
  t.report .idle (js "Ready to run the reliability tour.") none
  (t.body fuel).tryCatch t.pause

def script (fuel : ℕ) (v : Vars) : Prog Call.Answer (Except Thrown ReliabilityTourResult) := do
  let r ← t.run fuel v
  return r.1

end Tour

/-! ## The entry point -/

/-- The check of a duration argument. -/
def durationValid (value : JsNumber) (allowZero : Bool) : Bool :=
  value.isFinite && if allowZero then !value.lt (.finite 0) else !value.le (.finite 0)

def durationError (name : String) (allowZero : Bool) : Thrown :=
  .error (js (name ++ " must be " ++ (if allowZero then "non-negative" else "positive") ++ "."))

def ReliabilityTourOptions.pollInterval (options : ReliabilityTourOptions) : JsNumber :=
  options.pollIntervalMs.getD (.finite 500)

def ReliabilityTourOptions.presentationPause (options : ReliabilityTourOptions) : JsNumber :=
  options.presentationPauseMs.getD (.finite 350)

def ReliabilityTourOptions.timeout (options : ReliabilityTourOptions) : JsNumber :=
  options.timeoutMs.getD (.finite 90000)

def ReliabilityTourOptions.scenario (options : ReliabilityTourOptions) : DemoScenario :=
  demoScenario (options.scenarioId.getD defaultDemoScenarioId)

def publishKey (runId : JsStr) : JsStr := js "control-room-story-" ++ runId

def replayKey (runId : JsStr) : JsStr := js "control-room-replay-" ++ runId

/-- The constants of a run that starts now. -/
def ReliabilityTourOptions.tour (options : ReliabilityTourOptions) (runId : JsStr)
    (now : JsNumber) : Tour where
  runId := runId
  publishIdempotencyKey := publishKey runId
  replayIdempotencyKey := replayKey runId
  deadline := now.add options.timeout
  selectedScenario := options.scenario
  pollIntervalMs := options.pollInterval
  presentationPauseMs := options.presentationPause
  payload := options.payload

def ReliabilityTourOptions.vars (options : ReliabilityTourOptions) : Vars where
  phase := .idle
  eventId := options.eventId
  endpointId := none
  sourceDeliveryId := none
  replayDeliveryId := options.replayDeliveryId
  event := none
  currentMessage := js "Ready to run the reliability tour."

/-- What runs once the run id is known. -/
def startTour (fuel : ℕ) (options : ReliabilityTourOptions) (runId : Option JsStr) :
    Prog Call.Answer (Except Thrown ReliabilityTourResult) :=
  match runId with
  | none => .done (.error (.error (js "A stable runId or createRunId dependency is required.")))
  | some runId =>
    if trim runId = [] then
      .done (.error (.error (js "A stable runId or createRunId dependency is required.")))
    else
      .call .now fun now => (options.tour runId now).script fuel options.vars

/-- A rejection is an error. -/
def runReliabilityTour (fuel : ℕ) (options : ReliabilityTourOptions) :
    Prog Call.Answer (Except Thrown ReliabilityTourResult) :=
  if durationValid options.pollInterval false = false then
    .done (.error (durationError "pollIntervalMs" false))
  else if durationValid options.presentationPause true = false then
    .done (.error (durationError "presentationPauseMs" true))
  else if durationValid options.timeout false = false then
    .done (.error (durationError "timeoutMs" false))
  else
    match options.runId with
    | some runId => startTour fuel options (some runId)
    | none =>
      if options.createsRunId then .call .createRunId fun runId => startTour fuel options (some runId)
      else startTour fuel options none

end Frontend

end EventHarbor
