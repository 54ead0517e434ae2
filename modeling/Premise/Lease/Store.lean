import Premise.Collections.OrderedMap
import Premise.Js.Basic
import Premise.Js.Value

/-!
# `InMemoryValidationLeaseStore`

Leases and fencing counters under the key of their scope. An operation returns the store as it leaves
it, also when it throws. Numbers that are not integers are refused like integers that are not safe, so
a number is an integer here.
-/

namespace Premise.Lease

open Collections Js

/-- The scope, owner and lease id that every request names. -/
structure LeaseClaim where
  tenantId : String
  resourceId : String
  owner : String
  leaseId : String
deriving DecidableEq, Repr

structure ValidationLease where
  claim : LeaseClaim
  fencingToken : Int
  acquiredAt : Int
  renewedAt : Int
  expiresAt : Int
deriving DecidableEq, Repr

/-- `ValidationLeaseReason`. -/
inductive LeaseReason
  | ok
  | invalidInput
  | clockUnavailable
  | clockRegression
  | storeUnavailable
  | leaseActive
  | leaseMissing
  | leaseExpired
  | ownerMismatch
  | leaseIdMismatch
  | staleFencingToken
deriving DecidableEq, Repr

/-- What the operations of a lease store answer. -/
inductive StoreResult
  | acquired (lease : ValidationLease)
  | held (lease : ValidationLease)
  | updated (lease : ValidationLease)
  | released
  | valid (lease : ValidationLease)
  | rejected (reason : LeaseReason)
deriving DecidableEq, Repr

def validText (value : String) : Bool := decide (0 < value.length) && isTrimmed value

def validToken (value : Int) : Bool := isSafeInteger value && decide (value > 0)

def validTime (value : Int) : Bool := isSafeInteger value && decide (value ≥ 0)

def validDuration (value : Int) : Bool := validTime value && decide (value > 0)

/-- `validScope(value)`, `validText(value.owner)` and `validText(value.leaseId)`. -/
def validClaim (claim : LeaseClaim) : Bool :=
  validText claim.tenantId && validText claim.resourceId && validText claim.owner
    && validText claim.leaseId

def validAcquireRequest (claim : LeaseClaim) (expiresAt now : Int) : Bool :=
  validClaim claim && validTime expiresAt && decide (expiresAt > now)

def validRenewRequest (claim : LeaseClaim) (fencingToken expiresAt now : Int) : Bool :=
  validClaim claim && validToken fencingToken && validTime expiresAt && decide (expiresAt > now)

def validReleaseRequest (claim : LeaseClaim) (fencingToken : Int) : Bool :=
  validClaim claim && validToken fencingToken

def scopeKey (tenantId resourceId : String) : String :=
  String.ofList (jsonArray jsonString [tenantId, resourceId])

def LeaseClaim.key (claim : LeaseClaim) : String := scopeKey claim.tenantId claim.resourceId

def identityReason (current : ValidationLease) (claim : LeaseClaim) (fencingToken : Int) :
    Option LeaseReason :=
  if current.fencingToken ≠ fencingToken then some .staleFencingToken
  else if current.claim.owner ≠ claim.owner then some .ownerMismatch
  else if current.claim.leaseId ≠ claim.leaseId then some .leaseIdMismatch
  else none

structure InMemoryValidationLeaseStore where
  leases : OrderedMap String ValidationLease
  fencingCounters : OrderedMap String Int
  lastObservedAt : Option Int

namespace InMemoryValidationLeaseStore

/-- `new InMemoryValidationLeaseStore()`. -/
def create : InMemoryValidationLeaseStore := ⟨∅, ∅, none⟩

def observeClock (s : InMemoryValidationLeaseStore) (now : Int) :
    Except JsError InMemoryValidationLeaseStore :=
  if !validTime now then .error (.error "invalid lease clock")
  else if s.lastObservedAt.any (fun last => decide (now < last)) then
    .error (.error "lease clock regression")
  else .ok { s with lastObservedAt := some now }

def active (s : InMemoryValidationLeaseStore) (key : String) (now : Int) :
    InMemoryValidationLeaseStore × Option ValidationLease :=
  match s.leases.get? key with
  | none => (s, none)
  | some current =>
    if current.expiresAt ≤ now then ({ s with leases := s.leases.erase key }, none)
    else (s, some current)

def nextToken (s : InMemoryValidationLeaseStore) (key : String) :
    Except JsError (InMemoryValidationLeaseStore × Int) :=
  let previous := (s.fencingCounters.get? key).getD 0
  if previous ≥ maxSafeInteger then .error (.error "fencing token exhausted")
  else .ok ({ s with fencingCounters := s.fencingCounters.set key (previous + 1) }, previous + 1)

def acquire (s : InMemoryValidationLeaseStore) (claim : LeaseClaim) (expiresAt now : Int) :
    InMemoryValidationLeaseStore × Except JsError StoreResult :=
  match s.observeClock now with
  | .error err => (s, .error err)
  | .ok s =>
    if !validAcquireRequest claim expiresAt now then (s, .ok (.rejected .invalidInput))
    else
      match s.active claim.key now with
      | (s, some current) => (s, .ok (.held current))
      | (s, none) =>
        match s.nextToken claim.key with
        | .error err => (s, .error err)
        | .ok (s, fencingToken) =>
          let lease : ValidationLease := ⟨claim, fencingToken, now, now, expiresAt⟩
          ({ s with leases := s.leases.set claim.key lease }, .ok (.acquired lease))

/-- What `renew`, `release` and `validate` do with a request that is well formed: find the lease that
    the request names, and go on with it. -/
def withLease (s : InMemoryValidationLeaseStore) (claim : LeaseClaim) (fencingToken now : Int)
    (next : ValidationLease → InMemoryValidationLeaseStore × StoreResult) :
    InMemoryValidationLeaseStore × Except JsError StoreResult :=
  match s.leases.get? claim.key with
  | none => (s, .ok (.rejected .leaseMissing))
  | some current =>
    if current.expiresAt ≤ now then
      ({ s with leases := s.leases.erase claim.key }, .ok (.rejected .leaseExpired))
    else
      match identityReason current claim fencingToken with
      | some reason => (s, .ok (.rejected reason))
      | none => ((next current).1, .ok (next current).2)

def renew (s : InMemoryValidationLeaseStore) (claim : LeaseClaim)
    (fencingToken expiresAt now : Int) :
    InMemoryValidationLeaseStore × Except JsError StoreResult :=
  match s.observeClock now with
  | .error err => (s, .error err)
  | .ok s =>
    if !validRenewRequest claim fencingToken expiresAt now then (s, .ok (.rejected .invalidInput))
    else
      s.withLease claim fencingToken now (fun current =>
        let lease := { current with
          renewedAt := now
          expiresAt := expiresAt }
        ({ s with leases := s.leases.set claim.key lease }, .updated lease))

def release (s : InMemoryValidationLeaseStore) (claim : LeaseClaim) (fencingToken now : Int) :
    InMemoryValidationLeaseStore × Except JsError StoreResult :=
  match s.observeClock now with
  | .error err => (s, .error err)
  | .ok s =>
    if !validReleaseRequest claim fencingToken then (s, .ok (.rejected .invalidInput))
    else
      s.withLease claim fencingToken now (fun _ =>
        ({ s with leases := s.leases.erase claim.key }, .released))

def validate (s : InMemoryValidationLeaseStore) (claim : LeaseClaim) (fencingToken now : Int) :
    InMemoryValidationLeaseStore × Except JsError StoreResult :=
  match s.observeClock now with
  | .error err => (s, .error err)
  | .ok s =>
    if !validReleaseRequest claim fencingToken then (s, .ok (.rejected .invalidInput))
    else s.withLease claim fencingToken now (fun current => (s, .valid current))

end InMemoryValidationLeaseStore

/-- A call of a store or of a manager; `α` is what sets the expiry. -/
inductive LeaseCall (α : Type)
  | acquire (claim : LeaseClaim) (term : α)
  | renew (claim : LeaseClaim) (fencingToken : Int) (term : α)
  | release (claim : LeaseClaim) (fencingToken : Int)
  | validate (claim : LeaseClaim) (fencingToken : Int)

def InMemoryValidationLeaseStore.perform (s : InMemoryValidationLeaseStore) (now : Int) :
    LeaseCall Int → InMemoryValidationLeaseStore × Except JsError StoreResult
  | .acquire claim expiresAt => s.acquire claim expiresAt now
  | .renew claim fencingToken expiresAt => s.renew claim fencingToken expiresAt now
  | .release claim fencingToken => s.release claim fencingToken now
  | .validate claim fencingToken => s.validate claim fencingToken now

end Premise.Lease
