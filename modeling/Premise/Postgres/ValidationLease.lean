import Premise.Lease.Spec
import Premise.Postgres.Driver

/-!
# `PostgresValidationLeaseStore`

The leases table, and what the operations of a store do with it. Each operation is one transaction: it
leaves the table as it was when it throws.
-/

namespace Premise.Postgres

open Collections Js Lease

def claimTexts (claim : LeaseClaim) : List String :=
  [claim.tenantId, claim.resourceId, claim.owner, claim.leaseId]

/-- The `CHECK` constraints of the table. -/
def constraintsHold (row : ValidationLease) : Bool :=
  decide (row.fencingToken > 0) && decide (row.acquiredAt ≥ 0)
    && decide (row.renewedAt ≥ row.acquiredAt) && decide (row.expiresAt > row.renewedAt)

/-- A row of the table. -/
structure LeaseRow where
  row : ValidationLease
  texts : (claimTexts row.claim).all storable = true
  checks : constraintsHold row = true

/-- The rows under their primary key, the tenant and the resource. -/
structure LeaseTable where
  rows : OrderedMap (String × String) LeaseRow := ∅

def validateNow (now : Int) : Except PostgresError Unit :=
  require (validTime now) "now must be a non-negative safe integer"

def validateClaim (claim : LeaseClaim) : Except PostgresError Unit := do
  require (validText claim.tenantId)
    "tenantId must be a non-empty string without surrounding whitespace"
  require (validText claim.resourceId)
    "resourceId must be a non-empty string without surrounding whitespace"
  require (validText claim.owner) "owner must be a non-empty string without surrounding whitespace"
  require (validText claim.leaseId)
    "leaseId must be a non-empty string without surrounding whitespace"

def validateToken (fencingToken : Int) : Except PostgresError Unit :=
  require (validToken fencingToken) "fencingToken must be a positive safe integer"

def validateExpiry (expiresAt now : Int) : Except PostgresError Unit :=
  require (validTime expiresAt && decide (now < expiresAt)) "expiresAt must be after now"

def validateAcquire (claim : LeaseClaim) (expiresAt now : Int) : Except PostgresError Unit := do
  validateClaim claim
  validateExpiry expiresAt now

def validateRenew (claim : LeaseClaim) (fencingToken expiresAt now : Int) :
    Except PostgresError Unit := do
  validateClaim claim
  validateToken fencingToken
  validateExpiry expiresAt now

def validateMutation (claim : LeaseClaim) (fencingToken : Int) : Except PostgresError Unit := do
  validateClaim claim
  validateToken fencingToken

/-- `throw new Error(…)`, unless the column of a row passes its check. -/
def column (passes : Bool) (name : String) : Except PostgresError Unit :=
  if passes then .ok () else .error (.thrown (.error ("PostgreSQL lease row has invalid " ++ name)))

def leaseFromRow (row : ValidationLease) : Except PostgresError ValidationLease := do
  column (validText row.claim.tenantId) "tenant_id"
  column (validText row.claim.resourceId) "resource_id"
  column (validText row.claim.owner) "owner"
  column (validText row.claim.leaseId) "lease_id"
  column (validToken row.fencingToken) "fencing_token"
  column (validTime row.acquiredAt) "acquired_at"
  column (validTime row.renewedAt) "renewed_at"
  column (validTime row.expiresAt) "expires_at"
  return row

def identityReason (current : ValidationLease) (claim : LeaseClaim) (fencingToken : Int) :
    Option LeaseReason :=
  if current.claim.owner ≠ claim.owner then some .ownerMismatch
  else if current.claim.leaseId ≠ claim.leaseId then some .leaseIdMismatch
  else if current.fencingToken ≠ fencingToken then some .staleFencingToken
  else none

/-- `owner = … AND lease_id = … AND fencing_token = … AND expires_at > now`. -/
def Matches (row : ValidationLease) (claim : LeaseClaim) (fencingToken now : Int) : Prop :=
  row.claim.owner = claim.owner ∧ row.claim.leaseId = claim.leaseId ∧
    row.fencingToken = fencingToken ∧ now < row.expiresAt

instance (row : ValidationLease) (claim : LeaseClaim) (fencingToken now : Int) :
    Decidable (Matches row claim fencingToken now) :=
  inferInstanceAs (Decidable (_ ∧ _))

/-- The statements of a transaction take these texts as parameters. -/
def inTenant {A : Type} (parameters : List String) (action : Except PostgresError A) :
    Except PostgresError A :=
  if parameters.all storable then action else .error .encoding

/-! ## The store -/

namespace LeaseTable

def row? (t : LeaseTable) (scope : String × String) : Option ValidationLease :=
  (t.rows.get? scope).map LeaseRow.row

def put (t : LeaseTable) (row : ValidationLease) : Except PostgresError LeaseTable :=
  if htexts : (claimTexts row.claim).all storable = true then
    if hchecks : constraintsHold row = true then
      .ok ⟨t.rows.set row.claim.scope ⟨row, htexts, hchecks⟩⟩
    else .error .constraint
  else .error .encoding

def current (t : LeaseTable) (claim : LeaseClaim) : Except PostgresError (Option ValidationLease) :=
  match t.row? claim.scope with
  | none => .ok none
  | some row => (leaseFromRow row).map some

def rejectionFor (t : LeaseTable) (claim : LeaseClaim) (fencingToken now : Int) :
    Except PostgresError LeaseReason := do
  match ← t.current claim with
  | none => return .leaseMissing
  | some current =>
    if current.expiresAt ≤ now then return .leaseExpired
    else
      match identityReason current claim fencingToken with
      | some reason => return reason
      | none =>
        .error (.thrown (.error "PostgreSQL lease mutation lost its compare-and-set race"))

/-- The answer of `acquire` when no row is returned. -/
def held (t : LeaseTable) (claim : LeaseClaim) (now : Int) :
    Except PostgresError (LeaseTable × StoreResult) := do
  match ← t.current claim with
  | none =>
    .error (.thrown (.error "PostgreSQL lease row disappeared after atomic acquire"))
  | some current =>
    if current.expiresAt ≤ now then
      .error (.thrown (.error "PostgreSQL lease acquire observed an expired row after atomic conflict"))
    else return (t, .held current)

/-- The row that `INSERT … ON CONFLICT (tenant_id, resource_id) DO UPDATE … WHERE expires_at <= now`
    writes, if any. -/
def acquiredRow (t : LeaseTable) (claim : LeaseClaim) (expiresAt now : Int) :
    Option ValidationLease :=
  match t.row? claim.scope with
  | none => some ⟨claim, 1, now, now, expiresAt⟩
  | some row =>
    if row.expiresAt ≤ now then some ⟨claim, row.fencingToken + 1, now, now, expiresAt⟩ else none

def acquire (t : LeaseTable) (claim : LeaseClaim) (expiresAt now : Int) :
    Except PostgresError (LeaseTable × StoreResult) := do
  validateNow now
  validateAcquire claim expiresAt now
  inTenant (claimTexts claim) (
    match t.acquiredRow claim expiresAt now with
    | some row => do
      let t' ← t.put row
      return (t', .acquired (← leaseFromRow row))
    | none => t.held claim now)

/-- The row that the condition of an `UPDATE` selects. -/
def matchingRow (t : LeaseTable) (claim : LeaseClaim) (fencingToken now : Int) :
    Option ValidationLease :=
  (t.row? claim.scope).filter (fun row => decide (Matches row claim fencingToken now))

def renew (t : LeaseTable) (claim : LeaseClaim) (fencingToken expiresAt now : Int) :
    Except PostgresError (LeaseTable × StoreResult) := do
  validateNow now
  validateRenew claim fencingToken expiresAt now
  inTenant (claimTexts claim) (
    match t.matchingRow claim fencingToken now with
    | some old => do
      let row := { old with
        renewedAt := now
        expiresAt := expiresAt }
      let t' ← t.put row
      return (t', .updated (← leaseFromRow row))
    | none => do
      let reason ← t.rejectionFor claim fencingToken now
      return (t, .rejected reason))

def release (t : LeaseTable) (claim : LeaseClaim) (fencingToken now : Int) :
    Except PostgresError (LeaseTable × StoreResult) := do
  validateNow now
  validateMutation claim fencingToken
  inTenant (claimTexts claim) (
    match t.matchingRow claim fencingToken now with
    | some old => do
      let t' ← t.put { old with expiresAt := now }
      return (t', .released)
    | none => do
      let reason ← t.rejectionFor claim fencingToken now
      return (t, .rejected reason))

def validate (t : LeaseTable) (claim : LeaseClaim) (fencingToken now : Int) :
    Except PostgresError (LeaseTable × StoreResult) := do
  validateNow now
  validateMutation claim fencingToken
  inTenant [claim.tenantId, claim.resourceId] (do
    match ← t.current claim with
    | none => return (t, .rejected .leaseMissing)
    | some current =>
      if current.expiresAt ≤ now then return (t, .rejected .leaseExpired)
      else
        match identityReason current claim fencingToken with
        | some reason => return (t, .rejected reason)
        | none => return (t, .valid current))

def perform (t : LeaseTable) (now : Int) (call : LeaseCall Int) :
    LeaseTable × Except PostgresError StoreResult :=
  withPostgresTransaction t (
    match call with
    | .acquire claim expiresAt => t.acquire claim expiresAt now
    | .renew claim fencingToken expiresAt => t.renew claim fencingToken expiresAt now
    | .release claim fencingToken => t.release claim fencingToken now
    | .validate claim fencingToken => t.validate claim fencingToken now)

end LeaseTable

/-!
# Two lease stores

What one row of leases does on a request, and the in-memory store and the table side by side: they are
given the same requests at the same instants.
-/

open Control

/-- What a caller is granted. -/
inductive Granted
  | lease (lease : ValidationLease)
  | release
deriving DecidableEq

def granted {ε : Type} : Except ε StoreResult → Option Granted
  | .ok (.acquired lease) => some (.lease lease)
  | .ok (.updated lease) => some (.lease lease)
  | .ok (.valid lease) => some (.lease lease)
  | .ok .released => some .release
  | .ok (.held _) => none
  | .ok (.rejected _) => none
  | .error _ => none

def wellFormed (now : Int) : LeaseCall Int → Bool
  | .acquire claim expiresAt => validAcquireRequest claim expiresAt now
  | .renew claim fencingToken expiresAt => validRenewRequest claim fencingToken expiresAt now
  | .release claim fencingToken => validReleaseRequest claim fencingToken
  | .validate claim fencingToken => validReleaseRequest claim fencingToken

/-- The row of a scope admits a request: the scope is free, and has a token left, or it is held by
    the caller. -/
def Admits (row? : Option ValidationLease) (now : Int) : LeaseCall Int → Prop
  | .acquire _ _ => ∀ row ∈ row?, row.expiresAt ≤ now ∧ row.fencingToken < maxSafeInteger
  | .renew claim fencingToken _ => ∃ row ∈ row?, Matches row claim fencingToken now
  | .release claim fencingToken => ∃ row ∈ row?, Matches row claim fencingToken now
  | .validate claim fencingToken => ∃ row ∈ row?, Matches row claim fencingToken now

/-- PostgreSQL can store what the request writes: the texts of an `acquire` hold no zero character, and
    neither is a lease renewed before it was acquired, nor released before or at the instant at which
    it was acquired or last renewed. -/
def Storable (row? : Option ValidationLease) (now : Int) : LeaseCall Int → Prop
  | .acquire claim _ => (claimTexts claim).all storable = true
  | .renew _ _ _ => ∀ row ∈ row?, row.acquiredAt ≤ now
  | .release _ _ => ∀ row ∈ row?, row.renewedAt < now
  | .validate _ _ => True

structure LeaseStores where
  memory : InMemoryValidationLeaseStore := .create
  postgres : LeaseTable := {}

namespace LeaseStores

def perform (w : LeaseStores) (now : Int) (call : LeaseCall Int) : LeaseStores :=
  ⟨(w.memory.perform now call).1, (w.postgres.perform now call).1⟩

/-- Both stores grant the caller the same, with the same fencing token, or nothing. -/
def Agree (w : LeaseStores) (now : Int) (call : LeaseCall Int) : Prop :=
  granted (w.memory.perform now call).2 = granted (w.postgres.perform now call).2

def Backwards (w : LeaseStores) (now : Int) : Prop := ∃ last ∈ w.memory.lastObservedAt, now < last

/-- A well-formed request that the row of its scope admits comes when the clock has not gone backwards,
    and PostgreSQL can store what it writes (or neither). -/
def Agreeable (w : LeaseStores) (now : Int) (call : LeaseCall Int) : Prop :=
  validTime now = true → wellFormed now call = true →
    Admits (w.postgres.row? call.scope) now call →
    (¬ w.Backwards now ↔ Storable (w.postgres.row? call.scope) now call)

/-- Two stores that are empty at first, and are given the same requests at the same instants. -/
def system : System LeaseStores (Int × LeaseCall Int) where
  init := fun w => w = {}
  step := fun w i w' => w' = w.perform i.1 i.2

end LeaseStores

end Premise.Postgres
