import Premise.Lease.Store

/-!
# `ValidationLeaseManager`

The manager over an `InMemoryValidationLeaseStore`. What the clock function returns is an argument of
each call, `none` when it throws.
-/

namespace Premise.Lease

open Collections Js

inductive LeaseDecisionKind
  | acquired
  | alreadyHeld
  | contended
  | renewed
  | released
  | valid
  | rejected
deriving DecidableEq, Repr

/-- `ValidationLeaseDecision`. -/
structure LeaseDecision where
  accepted : Bool
  decision : LeaseDecisionKind
  reason : LeaseReason
  lease : Option ValidationLease := none
deriving DecidableEq, Repr

def rejected (reason : LeaseReason) : LeaseDecision := ⟨false, .rejected, reason, none⟩

def successful (decision : LeaseDecisionKind) (lease : Option ValidationLease) : LeaseDecision :=
  ⟨true, decision, .ok, lease⟩

def validLeaseForScope (value : ValidationLease) (scope : LeaseClaim) (now : Int) : Bool :=
  decide (value.claim.tenantId = scope.tenantId) && decide (value.claim.resourceId = scope.resourceId)
    && validText value.claim.owner && validText value.claim.leaseId && validToken value.fencingToken
    && validTime value.acquiredAt && validTime value.renewedAt && validTime value.expiresAt
    && decide (value.acquiredAt ≤ value.renewedAt) && decide (value.renewedAt ≤ now)
    && decide (value.expiresAt > now)

def storeReason : LeaseReason → LeaseReason
  | .invalidInput => .invalidInput
  | .leaseMissing => .leaseMissing
  | .leaseExpired => .leaseExpired
  | .ownerMismatch => .ownerMismatch
  | .leaseIdMismatch => .leaseIdMismatch
  | .staleFencingToken => .staleFencingToken
  | _ => .storeUnavailable

/-- A value that `validDuration` accepts. -/
structure LeaseDuration where
  ms : Int
  valid : validDuration ms = true

structure ValidationLeaseManager where
  store : InMemoryValidationLeaseStore
  defaultLeaseDurationMs : LeaseDuration
  lastObservedAt : Option Int

namespace ValidationLeaseManager

/-- `new ValidationLeaseManager(options)`, with a store of its own. -/
def create (leaseDurationMs : Int) : Except JsError ValidationLeaseManager :=
  if h : validDuration leaseDurationMs = true then .ok ⟨.create, ⟨leaseDurationMs, h⟩, none⟩
  else .error (.typeError "leaseDurationMs must be a positive safe integer")

def readClock (m : ValidationLeaseManager) (clock : Option Int) :
    Except LeaseReason (ValidationLeaseManager × Int) :=
  match clock with
  | none => .error .clockUnavailable
  | some value =>
    if !validTime value then .error .clockUnavailable
    else if m.lastObservedAt.any (fun last => decide (value < last)) then .error .clockRegression
    else .ok ({ m with lastObservedAt := some value }, value)

def duration (m : ValidationLeaseManager) (value : Option Int) : Option Int :=
  let duration := value.getD m.defaultLeaseDurationMs.ms
  if validDuration duration then some duration else none

def expiry (now duration : Int) : Option Int :=
  if now ≤ maxSafeInteger - duration then some (now + duration) else none

/-- `durationMs` is absent or valid, as the input checks want it. -/
def validDurationInput (durationMs : Option Int) : Bool := durationMs.all validDuration

/-- The decision on an answer of the store; an answer that the operation does not have, and a throw,
    is `STORE_UNAVAILABLE`. -/
def decisionFor (claim : LeaseClaim) (now : Int) (call : LeaseCall (Option Int)) :
    Except JsError StoreResult → LeaseDecision
  | .error _ => rejected .storeUnavailable
  | .ok (.rejected reason) => rejected (storeReason reason)
  | .ok (.acquired lease) =>
    match call with
    | .acquire _ _ =>
      if !validLeaseForScope lease claim now then rejected .storeUnavailable
      else successful .acquired (some lease)
    | _ => rejected .storeUnavailable
  | .ok (.held lease) =>
    match call with
    | .acquire _ _ =>
      if !validLeaseForScope lease claim now then rejected .storeUnavailable
      else if lease.claim.owner = claim.owner ∧ lease.claim.leaseId = claim.leaseId then
        ⟨false, .alreadyHeld, .leaseActive, none⟩
      else ⟨false, .contended, .leaseActive, none⟩
    | _ => rejected .storeUnavailable
  | .ok (.updated lease) =>
    match call with
    | .renew _ _ _ =>
      if !validLeaseForScope lease claim now then rejected .storeUnavailable
      else successful .renewed (some lease)
    | _ => rejected .storeUnavailable
  | .ok .released =>
    match call with
    | .release _ _ => successful .released none
    | _ => rejected .storeUnavailable
  | .ok (.valid lease) =>
    match call with
    | .validate _ _ =>
      if !validLeaseForScope lease claim now then rejected .storeUnavailable
      else successful .valid (some lease)
    | _ => rejected .storeUnavailable

/-- The expiry of a new term, when the duration is valid and the sum is a safe integer. -/
def expiresAt (m : ValidationLeaseManager) (now : Int) (durationMs : Option Int) : Option Int :=
  (m.duration durationMs).bind (expiry now)

def acquire (m : ValidationLeaseManager) (claim : LeaseClaim) (durationMs clock : Option Int) :
    ValidationLeaseManager × LeaseDecision :=
  if !(validClaim claim && validDurationInput durationMs) then (m, rejected .invalidInput)
  else
    match m.readClock clock with
    | .error reason => (m, rejected reason)
    | .ok (m, now) =>
      match m.expiresAt now durationMs with
      | none => (m, rejected .invalidInput)
      | some expiresAt =>
        let (store, result) := m.store.acquire claim expiresAt now
        ({ m with store := store }, decisionFor claim now (.acquire claim durationMs) result)

def renew (m : ValidationLeaseManager) (claim : LeaseClaim) (fencingToken : Int)
    (durationMs clock : Option Int) : ValidationLeaseManager × LeaseDecision :=
  if !(validClaim claim && validToken fencingToken && validDurationInput durationMs) then
    (m, rejected .invalidInput)
  else
    match m.readClock clock with
    | .error reason => (m, rejected reason)
    | .ok (m, now) =>
      match m.expiresAt now durationMs with
      | none => (m, rejected .invalidInput)
      | some expiresAt =>
        let (store, result) := m.store.renew claim fencingToken expiresAt now
        ({ m with store := store }, decisionFor claim now (.renew claim fencingToken durationMs) result)

def release (m : ValidationLeaseManager) (claim : LeaseClaim) (fencingToken : Int)
    (clock : Option Int) : ValidationLeaseManager × LeaseDecision :=
  if !(validClaim claim && validToken fencingToken) then (m, rejected .invalidInput)
  else
    match m.readClock clock with
    | .error reason => (m, rejected reason)
    | .ok (m, now) =>
      let (store, result) := m.store.release claim fencingToken now
      ({ m with store := store }, decisionFor claim now (.release claim fencingToken) result)

def validate (m : ValidationLeaseManager) (claim : LeaseClaim) (fencingToken : Int)
    (clock : Option Int) : ValidationLeaseManager × LeaseDecision :=
  if !(validClaim claim && validToken fencingToken) then (m, rejected .invalidInput)
  else
    match m.readClock clock with
    | .error reason => (m, rejected reason)
    | .ok (m, now) =>
      let (store, result) := m.store.validate claim fencingToken now
      ({ m with store := store }, decisionFor claim now (.validate claim fencingToken) result)

def perform (m : ValidationLeaseManager) (clock : Option Int) :
    LeaseCall (Option Int) → ValidationLeaseManager × LeaseDecision
  | .acquire claim durationMs => m.acquire claim durationMs clock
  | .renew claim fencingToken durationMs => m.renew claim fencingToken durationMs clock
  | .release claim fencingToken => m.release claim fencingToken clock
  | .validate claim fencingToken => m.validate claim fencingToken clock

end ValidationLeaseManager

end Premise.Lease
