import EventHarbor.Basic

/-!
# Delivery states and legal transitions
-/

namespace EventHarbor

inductive DeliveryStatus
  | pending | inProgress | retryWait | delivered | deadLettered
deriving DecidableEq, Repr

/-- The persisted value of a status. -/
def DeliveryStatus.value : DeliveryStatus → String
  | pending => "pending"
  | inProgress => "in_progress"
  | retryWait => "retry_wait"
  | delivered => "delivered"
  | deadLettered => "dead_lettered"

/-- Durable lifecycle of one reserved outbound attempt number. -/
inductive DeliveryAttemptStatus
  | inProgress | completed | indeterminate
deriving DecidableEq, Repr

namespace DeliveryStatus

/-- `ALLOWED_TRANSITIONS`. -/
def allowedTransitions : DeliveryStatus → List DeliveryStatus
  | pending => [inProgress, deadLettered]
  | inProgress => [delivered, retryWait, deadLettered]
  | retryWait => [inProgress, deadLettered]
  | delivered => []
  | deadLettered => []

/-- Statuses in which a delivery is still to be worked on. -/
def active : DeliveryStatus → Bool
  | pending | inProgress | retryWait => true
  | delivered | deadLettered => false

end DeliveryStatus

/-- Reject state changes that violate the documented delivery lifecycle. -/
def ensureTransition (current target : DeliveryStatus) : Except Error Unit :=
  if target ∈ current.allowedTransitions then .ok ()
  else .error (.invalidDeliveryTransition
    s!"cannot transition from {current.value} to {target.value}")

theorem ensureTransition_ok {s t : DeliveryStatus} (h : t ∈ s.allowedTransitions) :
    ensureTransition s t = .ok () := by
  simp [ensureTransition, h]

end EventHarbor
