import EventHarbor.Models
import EventHarbor.Arithmetic.Rounding

/-!
# Outbound HTTP transport

One signed webhook attempt and the bounded evidence it leaves. The HTTP call
is its outcome; clock readings are arguments.
-/

namespace EventHarbor

/-- Immutable values claimed from PostgreSQL before network I/O begins. -/
structure OutboundWebhook where
  attemptId : UUID
  deliveryId : UUID
  eventId : UUID
  eventType : String
  endpointUrl : String
  signingSecret : Bytes
  payloadBytes : Bytes
  attemptNumber : ℕ
  leaseToken : UUID
  demoRunId : Option String
deriving DecidableEq

/-- Bounded evidence returned by the transport to the worker service. -/
structure AttemptResult where
  disposition : DeliveryDisposition
  httpStatusCode : Option ℤ
  errorType : Option String
  errorMessage : Option PyStr
  responseBodyExcerpt : Option String
  requestTimestamp : ℤ
  retryAfterSeconds : Option ℚ
  startedAt : Time
  finishedAt : Time
  durationMs : ℤ
deriving DecidableEq

/-- What `float(text)` can return. -/
inductive FloatValue
  | finite (q : ℚ)
  | infinite (negative : Bool)
  | nan

/-- A `datetime`: a wall clock reading and, unless it is naive, its offset from
UTC. -/
structure ParsedDate where
  wall : Time
  offset : Option ℚ

/-- How `parsedate_to_datetime` fails: a `TypeError` or `ValueError`, or an
`OverflowError` for a year or an offset that is too large for a C integer. -/
inductive ParseDateError
  | invalid
  | overflow
deriving DecidableEq

/-- The library functions the transport calls. -/
structure TransportLib where
  /-- `float`, with `none` for a `ValueError` -/
  float : String → Option FloatValue
  /-- `parsedate_to_datetime` -/
  parsedateToDatetime : String → Except ParseDateError ParsedDate
  /-- `bytes.decode("utf-8", errors="replace")` -/
  decodeReplace : Bytes → String
  /-- `hmac.new(secret, content, sha256).hexdigest()` -/
  hmacSha256Hex : Bytes → Bytes → String

/-! ## Signing -/

/-- `str(timestamp).encode("ascii")` -/
def decimalBytes (n : ℕ) : Bytes := (Nat.toDigits 10 n).map fun c => UInt8.ofNat c.toNat

def signedContent (timestamp : ℕ) (payload : Bytes) : Bytes :=
  decimalBytes timestamp ++ UInt8.ofNat '.'.toNat :: payload

/-- `str(n)` has a text within the interpreter's limit. -/
def hasDecimal (n : ℕ) : Bool := (Nat.toDigits 10 n).length ≤ maxStrDigits

/-- Sign the exact payload bytes and timestamp with HMAC-SHA256. -/
def signPayload (lib : TransportLib) (secret : Bytes) (timestamp : ℤ) (payload : Bytes) :
    Except Error String :=
  if secret = [] then .error (.value "secret cannot be empty")
  else if timestamp < 0 then .error (.value "timestamp cannot be negative")
  else if !hasDecimal timestamp.toNat then
    .error (.value ("Exceeds the limit (4300 digits) for integer string conversion; " ++
      "use sys.set_int_max_str_digits() to increase the limit"))
  else .ok s!"v1={lib.hmacSha256Hex secret (signedContent timestamp.toNat payload)}"

def isAscii (s : String) : Bool := s.toList.all (·.toNat < 128)

/-- `hmac.compare_digest(a, b)` -/
def compareDigest (a b : String) : Except Error Bool :=
  if isAscii a && isAscii b then .ok (a = b)
  else .error (.type "comparing strings with non-ASCII characters is not supported")

/-- Verify a signature using constant-time comparison. -/
def verifySignature (lib : TransportLib) (secret : Bytes) (timestamp : ℤ) (payload : Bytes)
    (signature : String) : Except Error Bool := do
  let expected ← signPayload lib secret timestamp payload
  compareDigest expected signature

/-! ## Retry-After -/

/-- The characters `str.strip` removes. -/
def isPySpace (c : Char) : Bool :=
  let n := c.toNat
  (9 ≤ n && n ≤ 13) || (28 ≤ n && n ≤ 32) || n = 0x85 || n = 0xA0 || n = 0x1680 ||
    (0x2000 ≤ n && n ≤ 0x200A) || n = 0x2028 || n = 0x2029 || n = 0x202F || n = 0x205F || n = 0x3000

def pyStrip (s : String) : String :=
  String.ofList (((s.toList.dropWhile isPySpace).reverse.dropWhile isPySpace).reverse)

/-- The instants `datetime` represents: years 1 to 9999. -/
def representable (t : Time) : Bool := -62135596800 ≤ t && t < 253402300800

/-- The instant of a `datetime`; a naive reading has been given UTC. -/
def ParsedDate.instant (d : ParsedDate) : Time := d.wall - d.offset.getD 0

/-- `astimezone(UTC)` -/
def ParsedDate.toUtc (d : ParsedDate) : Except Error Time :=
  if representable d.instant then .ok d.instant else .error .overflow

/-- Parse Retry-After delta-seconds or an HTTP date and cap hostile values. -/
def parseRetryAfter (lib : TransportLib) (value : Option String) (capSeconds : ℚ)
    (referenceTime : ParsedDate) : Except Error (Option ℚ) :=
  match value with
  | none => .ok none
  | some value =>
    match lib.float (pyStrip value) with
    | none =>
      match lib.parsedateToDatetime (pyStrip value) with
      | .error .invalid => .ok none
      | .error .overflow => .error .overflow
      | .ok retryAt => do
        let retryAt ← retryAt.toUtc
        let reference ← referenceTime.toUtc
        return some (min (max (retryAt - reference) 0) capSeconds)
    | some (.finite seconds) =>
      if seconds < 0 then .ok none else .ok (some (min seconds capSeconds))
    | some _ => .ok none

/-! ## One attempt -/

/-- How the HTTP call ends. -/
inductive HttpOutcome
  | response (statusCode : ℤ) (content : Bytes) (retryAfter : Option String)
  | timeout (message : PyStr)
  | requestError (message : PyStr)

/-- The clock readings of one attempt. The monotonic ones are floats, so close
that a thousand times their difference is one as well. -/
structure AttemptClock where
  started : Time
  finished : Time
  startedMonotonic : ℚ
  finishedMonotonic : ℚ
  finite : |finishedMonotonic - startedMonotonic| < 2 ^ 200

theorem AttemptClock.finite_of_second : |(1 : ℚ) - 0| < 2 ^ 200 := by norm_num

/-- `int(q)` truncates toward zero. -/
def truncInt (q : ℚ) : ℤ := if 0 ≤ q then ⌊q⌋ else ⌈q⌉

/-- `int(started_at.timestamp())` -/
def AttemptClock.requestTimestamp (c : AttemptClock) : ℤ := truncInt (Binary64.round c.started)

/-- `max(0, round((finished - started) * 1_000))`, over floats. -/
def AttemptClock.durationMs (c : AttemptClock) : ℤ :=
  max 0 (roundHalfEven
    (Binary64.round (Binary64.round (c.finishedMonotonic - c.startedMonotonic) * 1000)))

def requestHeaders (webhook : OutboundWebhook) (requestTimestamp : ℤ) (signature : String) :
    List (String × String) :=
  [("Content-Type", "application/json"),
   ("User-Agent", "EventHarbor/0.1.0"),
   ("X-EventHarbor-Event-Id", webhook.eventId.str),
   ("X-EventHarbor-Delivery-Id", webhook.deliveryId.str),
   ("X-EventHarbor-Event-Type", webhook.eventType),
   ("X-EventHarbor-Attempt", toString webhook.attemptNumber),
   ("X-EventHarbor-Timestamp", toString requestTimestamp),
   ("X-EventHarbor-Signature", signature)] ++
    match webhook.demoRunId with
    | none => []
    | some run => [("X-EventHarbor-Demo-Run-Id", run)]

/-- The evidence of a call that got no response. -/
def transportFailure (errorType : String) (message : PyStr) (requestTimestamp : ℤ)
    (clock : AttemptClock) : AttemptResult where
  disposition := .retry
  httpStatusCode := none
  errorType := some errorType
  errorMessage := some (message.take 1024)
  responseBodyExcerpt := none
  requestTimestamp := requestTimestamp
  retryAfterSeconds := none
  startedAt := clock.started
  finishedAt := clock.finished
  durationMs := clock.durationMs

/-- Send one signed request without reading or writing the database. `post` is
the endpoint's answer to a body and its headers. -/
def sendWebhook (lib : TransportLib) (retryAfterCapSeconds : ℚ) (webhook : OutboundWebhook)
    (post : Bytes → List (String × String) → HttpOutcome) (clock : AttemptClock) :
    Except Error AttemptResult := do
  let requestTimestamp := clock.requestTimestamp
  let signature ← signPayload lib webhook.signingSecret requestTimestamp webhook.payloadBytes
  match post webhook.payloadBytes (requestHeaders webhook requestTimestamp signature) with
  | .timeout message => return transportFailure "timeout" message requestTimestamp clock
  | .requestError message => return transportFailure "network_error" message requestTimestamp clock
  | .response statusCode content retryAfterHeader =>
    let disposition ← classifyStatusCode statusCode
    let retryAfter ←
      if disposition = .retry then
        parseRetryAfter lib retryAfterHeader retryAfterCapSeconds ⟨clock.finished, some 0⟩
      else pure none
    return {
      disposition := disposition
      httpStatusCode := some statusCode
      errorType := none
      errorMessage := none
      responseBodyExcerpt := some (lib.decodeReplace (content.take 2048))
      requestTimestamp := requestTimestamp
      retryAfterSeconds := retryAfter
      startedAt := clock.started
      finishedAt := clock.finished
      durationMs := clock.durationMs }

/-- A result is the evidence of one response or of none. -/
theorem sendWebhook_cases {lib : TransportLib} {cap : ℚ} {w : OutboundWebhook}
    {post : Bytes → List (String × String) → HttpOutcome} {clock : AttemptClock}
    {r : AttemptResult} (h : sendWebhook lib cap w post clock = .ok r) :
    ∃ headers,
      (∃ n content retryAfter, post w.payloadBytes headers = .response n content retryAfter ∧
        classifyStatusCode n = .ok r.disposition ∧ r.httpStatusCode = some n ∧
        r.responseBodyExcerpt = some (lib.decodeReplace (content.take 2048))) ∨
      ((∀ n content retryAfter, post w.payloadBytes headers ≠ .response n content retryAfter) ∧
        r.disposition = .retry) := by
  unfold sendWebhook at h
  cases hsig : signPayload lib w.signingSecret (clock.requestTimestamp) w.payloadBytes with
  | error e => simp [hsig, bind, Except.bind] at h
  | ok sig =>
    simp only [hsig, bind, Except.bind] at h
    refine ⟨requestHeaders w (clock.requestTimestamp) sig, ?_⟩
    cases hpost : post w.payloadBytes (requestHeaders w (clock.requestTimestamp) sig) with
    | timeout message =>
      rw [hpost] at h
      cases h
      exact .inr ⟨by simp, rfl⟩
    | requestError message =>
      rw [hpost] at h
      cases h
      exact .inr ⟨by simp, rfl⟩
    | response n content header =>
      rw [hpost] at h
      dsimp only at h
      refine .inl ⟨n, content, header, rfl, ?_⟩
      cases hc : classifyStatusCode n with
      | error e => simp [hc] at h
      | ok disposition =>
        simp only [hc] at h
        split at h
        · cases hp : parseRetryAfter lib header cap ⟨clock.finished, some 0⟩ with
          | error e => simp [hp] at h
          | ok v =>
            simp only [hp] at h
            cases h
            exact ⟨rfl, rfl, rfl⟩
        · cases h
          exact ⟨rfl, rfl, rfl⟩

/-- A result that reports success reports a 2xx response. -/
theorem sendWebhook_succeeded {lib : TransportLib} {cap : ℚ} {w : OutboundWebhook}
    {post : Bytes → List (String × String) → HttpOutcome} {clock : AttemptClock}
    {r : AttemptResult} (h : sendWebhook lib cap w post clock = .ok r)
    (hs : r.disposition = .succeeded) :
    ∃ n, r.httpStatusCode = some n ∧ 200 ≤ n ∧ n ≤ 299 := by
  obtain ⟨headers, ⟨n, content, retryAfter, -, hclass, hstatus, -⟩ | ⟨-, hretry⟩⟩ :=
    sendWebhook_cases h
  · exact ⟨n, hstatus, classifyStatusCode_succeeded.mp (by rw [hclass, hs])⟩
  · rw [hs] at hretry
    cases hretry

end EventHarbor
