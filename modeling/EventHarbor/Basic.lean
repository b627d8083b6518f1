import Mathlib.Algebra.Group.Nat.Defs
import Mathlib.Algebra.Ring.Nat
import Mathlib.Data.Rat.Defs
import Mathlib.Algebra.Order.Ring.Unbundled.Rat
import Mathlib.Data.Fin.Basic
import Mathlib.Order.Fin.Basic

/-!
# Identifiers, instants and errors

The values every layer of EventHarbor passes around: UUIDs, instants (seconds,
over exact rationals), and the exceptions a request can end in.
-/

namespace EventHarbor

/-- A 128-bit identifier. PostgreSQL orders UUIDs by their bytes, that is, as numbers. -/
abbrev UUID := Fin (2 ^ 128)

instance UUID.instNeZero : NeZero (2 ^ 128) := ⟨by decide⟩

instance UUID.instLawfulBEq : LawfulBEq UUID := inferInstance

/-- The `width` lowest hexadecimal digits, most significant first. -/
def hexDigits : (width : ℕ) → ℕ → List Char
  | 0, _ => []
  | w + 1, n => hexDigits w (n / 16) ++ [Nat.digitChar (n % 16)]

/-- `str(uuid)`: groups of 8, 4, 4, 4 and 12 lowercase digits. -/
def UUID.chars (u : UUID) : List Char :=
  let d := hexDigits 32 u.val
  d.take 8 ++ '-' :: (d.drop 8).take 4 ++ '-' :: (d.drop 12).take 4 ++
    '-' :: (d.drop 16).take 4 ++ '-' :: d.drop 20

def UUID.str (u : UUID) : String := String.ofList u.chars

/-- An instant, in seconds. -/
abbrev Time := ℚ

/-- `text[:n]`. -/
def truncate (n : ℕ) (s : String) : String := String.ofList (s.toList.take n)

/-- A safe, intentional failure that can be returned to an API client. -/
structure DomainError where
  statusCode : ℕ
  code : String
  title : String
  detail : String
deriving DecidableEq, Repr

/-- The constraints and column types whose violation the database reports. -/
inductive Constraint
  | pkEndpoints | pkEvents | pkDeliveries | pkDeliveryAttempts
  | uqEventsSourceIdempotencyKey
  | uqDeliveriesEventIdEndpointIdReplayGeneration
  | uqDeliveriesReplayedFromDeliveryIdReplayIdempotencyKey
  | uqDeliveriesOneActivePerEventEndpoint
  | uqDeliveryAttemptsDeliveryIdAttemptNumber
  | uqDeliveryAttemptsDeliveryIdLeaseToken
  | uqDeliveryAttemptsOneInProgress
  | fkDeliveriesEventId | fkDeliveriesEndpointId | fkDeliveriesReplayedFromDeliveryId
  | fkDeliveryAttemptsDeliveryId
  | nameNotEmpty | targetUrlNotEmpty | signingSecretNotEmpty | secretVersionPositive
  | sourceNotEmpty | eventTypeNotEmpty | idempotencyKeyNotEmpty | payloadBytesNotEmpty
  | replayMetadataSetTogether | replayIdempotencyKeyNotEmpty
  | leaseFieldsSetTogether | leaseMatchesStatus | deliveredHasTimestamp
  | attemptNumberPositive | durationMsNonnegative | requestTimestampNonnegative
  | httpStatusCodeValid | timestampsOrdered | lifecycleFields
  /-- `String(n)` columns. -/
  | characterVarying
  /-- `text` and `jsonb` cannot hold U+0000. -/
  | untranslatableCharacter
  | integerOutOfRange
  /-- A parameter that the driver cannot encode. -/
  | invalidQueryArgument
  /-- A value beyond the database's limits of nesting or size. -/
  | programLimitExceeded
deriving DecidableEq, Repr

/-- The exceptions that leave a transaction. -/
inductive Error
  | domain (e : DomainError)
  | runtime (message : String)
  | value (message : String)
  | type (message : String)
  | invalidDeliveryTransition (message : String)
  | multipleResultsFound
  | unicodeEncode
  | overflow
  | database (c : Constraint)
deriving DecidableEq, Repr

end EventHarbor
