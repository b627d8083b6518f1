import EventHarbor.Refinement.System

/-!
# The attempt ledger in every reachable state

The statements are about every interleaving of the transactions. An example
store, run by hand, shows that they speak about runs that exist.
-/

namespace EventHarbor

open Relational DeliveryWorker

/-! ## An example store -/

namespace Sample

def settings : Settings where
  workerHttpTimeoutSeconds := 5
  workerLeaseSeconds := 30
  workerMaxAttempts := 3
  workerBaseDelaySeconds := 1
  workerMaxDelaySeconds := 60
  workerRetryAfterCapSeconds := 300
  httpTimeout_pos := by norm_num
  httpTimeout_lt_lease := by norm_num
  one_le_maxAttempts := by norm_num
  baseDelay_pos := by norm_num
  baseDelay_le_maxDelay := by norm_num
  retryAfterCap_pos := by norm_num

/-- 2026-01-01T00:00:00Z -/
def epoch : Time := 1767225600

def order : EventPublishRequest where
  endpointId := 1
  type := "order.created"
  data := [(PyStr.ofString "total", .int 42), (PyStr.ofString "currency", .str (PyStr.ofString "EUR"))]
  distinct := by decide +kernel

def floatRepr (x : PyFloat) : List Char := Nat.toDigits 10 x.bits.toNat ++ ['.', '0']

def bytesOf (j : Json) : Bytes := (canonicalJsonBytes floatRepr j).toOption.getD []

def fingerprintBytes : Bytes := bytesOf (EventService.fingerprintDocument order)

/-- The body of the event with id 2. -/
def bodyBytes : Bytes := bytesOf (.obj [
  (PyStr.ofString "id", .str (PyStr.ofChars (UUID.chars 2))),
  (PyStr.ofString "type", .str (PyStr.ofString "order.created")),
  (PyStr.ofString "created_at", .str (PyStr.ofString "2026-01-01T00:00:00Z")),
  (PyStr.ofString "data", .obj order.data)])

/-- SHA-256 of the example's documents, and no collision elsewhere. -/
def sha256Hex (bytes : Bytes) : String :=
  if bytes = fingerprintBytes then
    "1e9b104ef4725d30d80c67cfd4ec51a57d652cd3ba4fc683db6644e5f81bce74"
  else if bytes = bodyBytes then
    "d24a1a2fd658d2bde7ffb81b29674d8fe9529ab8cae7f161dc487f36b00cb354"
  else String.ofList ('x' :: bytes.flatMap fun b => hexDigits 2 b.toNat)

def lib : Lib where
  sha256Hex := sha256Hex
  floatRepr := floatRepr
  jsonLoads := fun _ => none
  jsonTimestamp := fun _ => "2026-01-01T00:00:00Z"

def worker (workerId : String) : DeliveryWorker := ⟨settings, workerId⟩

def register : Request :=
  .createEndpoint "http://receiver-lab:8080" ⟨"Orders", "http://receiver-lab:8080/orders"⟩
    { id := 1, secret := [1], createdAt := epoch, updatedAt := epoch }

def publish (eventId deliveryId : UUID) : Request :=
  .publish order "order-42"
    { eventId := eventId, deliveryId := deliveryId, createdAt := epoch, transactionNow := epoch }

/-- A claim whose clock stands still. -/
def claim (workerId : String) (now : Time) (token attempt : UUID) : Request :=
  .claimOne (worker workerId)
    { now := now, clock := fun _ => now, reclock := fun _ => now, leaseToken := token,
      attemptId := attempt, transactionNow := now }

def webhook (attempt token : UUID) (number : ℕ) : OutboundWebhook where
  attemptId := attempt
  deliveryId := 3
  eventId := 2
  eventType := "order.created"
  endpointUrl := "http://receiver-lab:8080/orders"
  signingSecret := [1]
  payloadBytes := bodyBytes
  attemptNumber := number
  leaseToken := token
  demoRunId := none

/-- The endpoint was not reachable. -/
def unreachable (now : Time) : AttemptResult where
  disposition := .retry
  httpStatusCode := none
  errorType := some "network_error"
  errorMessage := some (PyStr.ofString "connection refused")
  responseBodyExcerpt := none
  requestTimestamp := 1767225641
  retryAfterSeconds := none
  startedAt := now
  finishedAt := now + 1
  durationMs := 1000

def finalize (workerId : String) (webhook : OutboundWebhook) (result : AttemptResult) (now : Time) :
    Request :=
  .finalize (worker workerId) webhook result { databaseNow := now, randomFraction := 1 }

/-- A lease expires and another worker is about to commit its claim. -/
def expiry : List (Action ℕ Request) :=
  Sys.alone 0 register 2 ++ Sys.alone 1 (publish 2 3) 9 ++
  Sys.alone 2 (claim "a" (epoch + 1) 4 5) 12 ++ Sys.alone 3 (claim "b" (epoch + 40) 6 7) 18

/-- Then the results of both workers arrive. -/
def results : List (Action ℕ Request) :=
  Sys.alone 4 (finalize "a" (webhook 5 4 1) (unreachable (epoch + 2)) (epoch + 41)) 2 ++
  Sys.alone 5 (finalize "b" (webhook 7 6 2) (unreachable (epoch + 41)) (epoch + 43)) 11

def attemptsOf (s : System) : List (ℕ × DeliveryAttemptStatus) :=
  s.db.attempts.rows.map fun a => (a.attemptNumber, a.status)

/-- The lease that expired is taken over, and its successor is reported. -/
def takenOver (p : List Shown × System) : Bool :=
  match p.2.act (Request.code lib) (.next 3) with
  | some (.commit t r a, s') => attemptsOf s' = [(1, .indeterminate), (2, .inProgress)] &&
    (Sys.play (Request.code lib) Ordinary (p.1 ++ [.commit t r a]) s' results).any fun q =>
      attemptsOf q.2 = [(1, .indeterminate), (2, .completed)]
  | _ => false

theorem expiry_reaches : ∃ ls s t r a s' ls' s'', Reaches lib ls s ∧
    s.act (Request.code lib) (.next 3) = some (.commit t r a, s') ∧
    attemptsOf s' = [(1, .indeterminate), (2, .inProgress)] ∧
    Continues lib (ls ++ [.commit t r a]) s' ls' s'' ∧
    attemptsOf s'' = [(1, .indeterminate), (2, .completed)] := by
  have hplay : (Sys.play (Request.code lib) Ordinary [] (.idle Db.empty) expiry).any takenOver =
      true := by decide +kernel
  obtain ⟨ls, s, hr, h⟩ := Sys.exists_run hplay
  unfold takenOver at h
  split at h
  · rename_i t r a s' hact
    obtain ⟨hreclaimed, hresults⟩ := Bool.and_eq_true_iff.mp h
    obtain ⟨ls', s'', hr', hdone⟩ := Sys.exists_run hresults
    exact ⟨ls, s, t, r, a, s', ls', s'', hr, hact, of_decide_eq_true hreclaimed, hr',
      of_decide_eq_true hdone⟩
  · cases h

end Sample

/-! ## The ledger -/

/-- The transactions of the delivery workers. -/
def Request.ofWorker : Request → Bool
  | claimOne _ _ | finalize _ _ _ _ => true
  | _ => false

/-- Every delivery is in order with its attempts, so no worker transaction finds
evidence missing. -/
theorem reachable_ledger {lib : Lib} {ls : List Shown} {s : System} (hr : Reaches lib ls s) :
    (∀ d ∈ s.db.deliveries,
      (s.db.attemptsAt d.id).map (·.attemptNumber) = List.range' 1 d.attemptCount ∧
      (∀ a ∈ s.db.attemptsAt d.id, a.attemptNumber < d.attemptCount →
        a.status = .completed ∨ a.status = .indeterminate) ∧
      (d.status = .inProgress ↔
        ∃ a ∈ s.db.attemptsAt d.id, a.attemptNumber = d.attemptCount ∧ a.status = .inProgress) ∧
      (d.status = .inProgress → d.leaseOwner.isSome ∧ d.leaseExpiresAt.isSome ∧
        d.leaseToken.isSome ∧ ∀ a ∈ s.db.attemptsAt d.id, a.attemptNumber = d.attemptCount →
          d.leaseToken = some a.leaseToken) ∧
      (d.status ≠ .inProgress →
        d.leaseOwner = none ∧ d.leaseExpiresAt = none ∧ d.leaseToken = none)) ∧
    (∀ a ∈ s.db.attempts, a.lifecycleFields = true) ∧
    (∀ t r e, Label.fail t r e ∈ ls → r.ofWorker = true → ∀ m, e ≠ .runtime m) := by
  have hinv := reaches_inv hr
  refine ⟨fun d hd => ?_, fun a ha => ?_, fun t r e hm hw m => ?_⟩
  · have hl := hinv.ledger d hd
    refine ⟨hl.numbered, fun a ha hlt => ?_, hl.progress, fun hs => ?_, hl.unleased⟩
    · have := hl.closed a ha hlt
      cases hst : a.status <;> simp_all
    · obtain ⟨ho, hx, ht⟩ := hl.leased hs
      obtain ⟨a, ha, hn, -⟩ := hl.progress.mp hs
      exact ⟨ho, hx, by rw [ht a ha hn]; rfl, ht⟩
  · obtain ⟨d, hd, hid⟩ := hinv.delivery a ha
    exact (hinv.ledger d hd).lifecycle a (Db.mem_attemptsAt.mpr ⟨ha, hid.symm⟩)
  · obtain ⟨b, db, hraises⟩ := reaches_raises hr hm
    cases r with
    | claimOne w draw =>
      obtain ⟨c, rfl⟩ := hraises
      simp
    | finalize w webhook result draw => exact hraises.1.runtime m
    | _ => cases hw

theorem reachable_ledger_of_expiry : ∃ ls s, Reaches Sample.lib ls s ∧
    Sample.attemptsOf s = [(1, .indeterminate), (2, .completed)] ∧
    ∀ d ∈ s.db.deliveries,
      (s.db.attemptsAt d.id).map (·.attemptNumber) = List.range' 1 d.attemptCount := by
  obtain ⟨ls, s, t, r, a, s', ls', s'', hr, hx, -, hc, h⟩ := Sample.expiry_reaches
  have hr' := (hr.snoc hx trivial).trans hc
  exact ⟨ls', s'', hr', h, fun d hd => ((reachable_ledger hr').1 d hd).1⟩

end EventHarbor
