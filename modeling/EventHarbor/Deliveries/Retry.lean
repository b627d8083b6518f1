import EventHarbor.Serialization.Json
import Mathlib.Data.Rat.Cast.Order

/-!
# Retry classification and backoff

The worker's decision after an attempt, the bounded exponential backoff with
full jitter, and the evidence that blocks an unchanged replay.
-/

namespace EventHarbor

/-- The worker's decision after a delivery attempt. -/
inductive DeliveryDisposition
  | succeeded | retry | terminalFailure
deriving DecidableEq, Repr

/-- Machine-readable reasons an unchanged delivery must not be replayed. -/
inductive ReplayBlockCode
  | endpointDisabled | payloadCorrectionRequired
deriving DecidableEq, Repr

def ReplayBlockCode.value : ReplayBlockCode → String
  | endpointDisabled => "endpoint_disabled"
  | payloadCorrectionRequired => "payload_correction_required"

def retryableStatusCodes : List ℤ := [408, 425, 429]

def receiverPayloadErrorCodes : List String :=
  ["invalid_json", "invalid_payload", "invalid_data", "unsupported_event_type",
   "invalid_currency", "invalid_quantity_remaining", "invalid_reorder_threshold"]

/-- A member of a decoded object. -/
def Json.lookup (members : List (PyStr × Json)) (name : String) : Option Json :=
  (members.find? fun m => m.1 = PyStr.ofString name).map Prod.snd

/-- Recognize Receiver Lab evidence that proves the immutable body is invalid.
`loads` is `json.loads`, with `none` for a `JSONDecodeError`. -/
def replayBlockCode (loads : String → Option Json) (httpStatusCode : Option ℤ)
    (responseBodyExcerpt : Option String) : Option ReplayBlockCode :=
  match httpStatusCode, responseBodyExcerpt with
  | some 400, some excerpt =>
    match loads excerpt with
    | some (.obj response) =>
      match Json.lookup response "code" with
      | some (.str code) =>
        if PyStr.ofString "missing_" <+: code ∨
            code ∈ receiverPayloadErrorCodes.map PyStr.ofString then
          some .payloadCorrectionRequired
        else none
      | _ => none
    | _ => none
  | _, _ => none

/-- Classify an HTTP response without mutating delivery state. -/
def classifyStatusCode (statusCode : ℤ) : Except Error DeliveryDisposition :=
  if ¬(100 ≤ statusCode ∧ statusCode ≤ 599) then
    .error (.value "status_code must be between 100 and 599")
  else if 200 ≤ statusCode ∧ statusCode ≤ 299 then .ok .succeeded
  else if statusCode ∈ retryableStatusCodes ∨ 500 ≤ statusCode then .ok .retry
  else .ok .terminalFailure

theorem classifyStatusCode_succeeded {n : ℤ} :
    classifyStatusCode n = .ok .succeeded ↔ 200 ≤ n ∧ n ≤ 299 := by
  unfold classifyStatusCode
  split
  · simp only [reduceCtorEq, false_iff]
    omega
  split
  · simpa
  split <;> simp_all

/-- A bounded exponential-backoff policy using full jitter. -/
structure RetryPolicy where
  maxAttempts : ℕ
  baseDelaySeconds : ℚ
  maxDelaySeconds : ℚ
  one_le_maxAttempts : 1 ≤ maxAttempts
  baseDelay_pos : 0 < baseDelaySeconds
  baseDelay_le_maxDelay : baseDelaySeconds ≤ maxDelaySeconds

namespace RetryPolicy

def hasAttemptRemaining (p : RetryPolicy) (completedAttempts : ℕ) : Bool :=
  completedAttempts < p.maxAttempts

/-- Full-jitter delay after `completedAttempts` failures. -/
def delaySeconds (p : RetryPolicy) (completedAttempts : ℕ) (randomFraction : ℚ) :
    Except Error ℚ :=
  if completedAttempts < 1 then .error (.value "completed_attempts must be at least 1")
  else if ¬(0 ≤ randomFraction ∧ randomFraction ≤ 1) then
    .error (.value "random_fraction must be between 0 and 1")
  else
    let exponentialDelay := p.baseDelaySeconds * 2 ^ (completedAttempts - 1)
    let ceiling := min p.maxDelaySeconds exponentialDelay
    .ok (ceiling * randomFraction)

end RetryPolicy

/-- The worker's part of the process configuration, as its validators admit it. -/
structure Settings where
  workerHttpTimeoutSeconds : ℚ
  workerLeaseSeconds : ℚ
  workerMaxAttempts : ℕ
  workerBaseDelaySeconds : ℚ
  workerMaxDelaySeconds : ℚ
  workerRetryAfterCapSeconds : ℚ
  httpTimeout_pos : 0 < workerHttpTimeoutSeconds
  httpTimeout_lt_lease : workerHttpTimeoutSeconds < workerLeaseSeconds
  one_le_maxAttempts : 1 ≤ workerMaxAttempts
  baseDelay_pos : 0 < workerBaseDelaySeconds
  baseDelay_le_maxDelay : workerBaseDelaySeconds ≤ workerMaxDelaySeconds
  retryAfterCap_pos : 0 < workerRetryAfterCapSeconds

def Settings.retryPolicy (s : Settings) : RetryPolicy where
  maxAttempts := s.workerMaxAttempts
  baseDelaySeconds := s.workerBaseDelaySeconds
  maxDelaySeconds := s.workerMaxDelaySeconds
  one_le_maxAttempts := s.one_le_maxAttempts
  baseDelay_pos := s.baseDelay_pos
  baseDelay_le_maxDelay := s.baseDelay_le_maxDelay

end EventHarbor
