import Premise.Collections.OrderedMap
import Premise.Js.JsonText

/-!
# `executePremiseGuard`

The local execution kernel of the guard: what it selects from the receipts, hands to the adapter's conditional
commit, and returns as evidence after a commit that failed. `Date.now` and `Date.parse` are parameters.
-/

namespace Premise.RuntimeCore

open Collections Js

abbrev JsonValue := {v : Json // v.WellFormed}

structure PremiseGuardReceipt where
  premiseId : String
  state : String
  valid : Json
  identityKey : String
  versionToken : String
  artifactDigest : Option JsonValue := none
  migration : Option JsonValue := none
  lease : Option JsonValue := none
  alerts : Option JsonValue := none
  revoked : Option Bool := none

structure GuardLease where
  leaseId : String
  fencingToken : String

structure PremiseGuardIntent where
  actionDigest : String
  criticalPremises : List String
  requiredCapability : String
  idempotencyKey : String
  lease : Option GuardLease := none

structure PremiseGuardCommitResult (T : Type) where
  accepted : Bool
  result : Option T := none
  reason : Option String := none
  observedVersion : Option String := none
  observedReceipts : Option (List PremiseGuardReceipt) := none

/-- An adapter; a commit may throw. -/
structure PremiseGuardAdapter (T E : Type) where
  capabilities : List String
  commit : PremiseGuardIntent → List PremiseGuardReceipt → Except E (PremiseGuardCommitResult T)

inductive PremiseGuardDecision
  | allow
  | revalidate
  | reject
  | unsupported
deriving DecidableEq

structure PremiseGuardResult (T : Type) where
  accepted : Bool
  decision : PremiseGuardDecision
  result : Option T := none
  reason : Option String := none
  observedVersion : Option String := none
  observedReceipts : Option (List PremiseGuardReceipt) := none

variable {T E : Type} (dateParse : String → Option Int)

/-- `{ accepted: false, decision, reason }`. -/
def refused (decision : PremiseGuardDecision) (reason : String) : PremiseGuardResult T :=
  { accepted := false, decision := decision, reason := some reason }

/-- The lease that a receipt carries, while the clock shows `now`. -/
def carriesLease (now : Int) (receipt : PremiseGuardReceipt) (lease : GuardLease) : Bool :=
  match receipt.lease with
  | none => false
  | some value =>
    value.val.field "leaseId" = some (.string lease.leaseId)
      && value.val.field "fencingToken" = some (.string lease.fencingToken)
      && value.val.field "invalidated" ≠ some (.boolean true)
      && (match value.val.field "expiresAt" with
        | some (.string expiresAt) => (dateParse expiresAt).any (fun expiry => decide (now < expiry))
        | _ => false)

def receiptLeaseUsable (now : Int) (receipt : PremiseGuardReceipt) (intent : PremiseGuardIntent) : Bool :=
  intent.lease.all (carriesLease dateParse now receipt)

def guardStates : List String := ["FRESH", "STALE", "INVALID", "UNKNOWN"]

/-- `JSON.stringify(value)`. -/
def stringifyOptional (value : Option JsonValue) : Option (List Char) := value.map (fun v => v.val.stringify)

def observedUnusable (receipt : PremiseGuardReceipt) : Bool :=
  receipt.premiseId = "" || receipt.identityKey = "" || receipt.versionToken = "" || receipt.valid ≠ .boolean true
    || receipt.state ∉ guardStates || receipt.state ≠ "FRESH" || receipt.revoked = some true
    || receipt.alerts.any (fun alerts => alerts.val = .string "RED")
    || receipt.migration.any (fun migration => migration.val = .string "BLOCKED")

/-- `["artifactDigest", "migration", "lease", "alerts"].some(...)`. -/
def termsDiffer (receipt prior : PremiseGuardReceipt) : Bool :=
  stringifyOptional receipt.artifactDigest ≠ stringifyOptional prior.artifactDigest
    || stringifyOptional receipt.migration ≠ stringifyOptional prior.migration
    || stringifyOptional receipt.lease ≠ stringifyOptional prior.lease
    || stringifyOptional receipt.alerts ≠ stringifyOptional prior.alerts

def receiptsByPremise (receipts : List PremiseGuardReceipt) : OrderedMap String PremiseGuardReceipt :=
  OrderedMap.ofList (receipts.map (fun receipt => (receipt.premiseId, receipt)))

/-- The loop over the observed receipts; `none` when one is refused. -/
def observe (previousByPremise byPremise : OrderedMap String PremiseGuardReceipt) :
    List PremiseGuardReceipt → Option (OrderedMap String PremiseGuardReceipt)
  | [] => some byPremise
  | receipt :: rest =>
    if observedUnusable receipt || byPremise.has receipt.premiseId then none
    else
      match previousByPremise.get? receipt.premiseId with
      | none => none
      | some prior =>
        if termsDiffer receipt prior then none
        else observe previousByPremise (byPremise.set receipt.premiseId receipt) rest

def completeObservedReceipts (premiseIds : List String) (receipts : Option (List PremiseGuardReceipt))
    (previous : List PremiseGuardReceipt) : Option (List PremiseGuardReceipt) := do
  let receipts ← receipts
  if receipts.length ≠ premiseIds.length then none
  else
    let byPremise ← observe (receiptsByPremise previous) ∅ receipts
    premiseIds.mapM byPremise.get?

/-- The loop over the critical premises; `now` is the clock at each of them. -/
def selectReceipts (intent : PremiseGuardIntent) (byPremise : OrderedMap String PremiseGuardReceipt) (now : Nat → Int) :
    Nat → List String → Except (PremiseGuardResult T) (List PremiseGuardReceipt)
  | _, [] => .ok []
  | i, premiseId :: rest =>
    match byPremise.get? premiseId with
    | none => .error (refused .reject "INCOMPLETE_SLICE")
    | some receipt =>
      if receipt.valid ≠ .boolean true || receipt.state = "UNKNOWN" || receipt.state = "INVALID" then
        .error (refused .reject "INVALID_RECEIPT")
      else if receipt.state = "STALE" then .error (refused .revalidate "STALE_RECEIPT")
      else if !receiptLeaseUsable dateParse (now i) receipt intent then .error (refused .reject "INVALID_LEASE")
      else (selectReceipts intent byPremise now (i + 1) rest).map (receipt :: ·)

/-- The receipts that are handed to the commit, or the result without one. -/
def admittedReceipts (intent : PremiseGuardIntent) (receipts : List PremiseGuardReceipt) (capabilities : List String)
    (now : Nat → Int) : Except (PremiseGuardResult T) (List PremiseGuardReceipt) :=
  if intent.actionDigest = "" || intent.idempotencyKey = "" || intent.criticalPremises = [] then
    .error (refused .reject "INVALID_INTENT")
  else if intent.lease.any (fun lease => lease.leaseId = "" || lease.fencingToken = "") then
    .error (refused .reject "INVALID_INTENT")
  else if (unique intent.criticalPremises).length ≠ intent.criticalPremises.length then
    .error (refused .reject "DUPLICATE_PREMISE")
  else if (unique (receipts.map PremiseGuardReceipt.premiseId)).length ≠ receipts.length then
    .error (refused .reject "DUPLICATE_RECEIPT")
  else if receipts.any (fun receipt => receipt.premiseId = "" || receipt.identityKey = "" || receipt.versionToken = ""
      || !(receipt.valid = .boolean true || receipt.valid = .boolean false) || receipt.state ∉ guardStates) then
    .error (refused .reject "INVALID_RECEIPT")
  else if intent.requiredCapability ∉ capabilities || "IDEMPOTENCY_KEY" ∉ capabilities
      || !("CAS" ∈ capabilities || "CONDITIONAL_ACTION" ∈ capabilities)
      || (intent.lease.isSome && "FENCED_LEASE" ∉ capabilities) then
    .error (refused .unsupported "MISSING_CONDITIONAL_COMMIT")
  else selectReceipts dateParse intent (receiptsByPremise receipts) now 0 intent.criticalPremises

def committedResult (intent : PremiseGuardIntent) (selected : List PremiseGuardReceipt)
    (committed : PremiseGuardCommitResult T) : PremiseGuardResult T :=
  if committed.accepted then { accepted := true, decision := .allow, result := committed.result }
  else if committed.reason = some "VERSION_MISMATCH" ∨ committed.reason = some "REVALIDATE" then
    { accepted := false
      decision := .revalidate
      reason := committed.reason
      observedVersion := committed.observedVersion
      observedReceipts := completeObservedReceipts intent.criticalPremises committed.observedReceipts selected }
  else
    { accepted := false
      decision := .reject
      reason := some (committed.reason.getD "COMMIT_REJECTED")
      observedVersion := committed.observedVersion }

/-- A run of the guard: the calls of the adapter's commit, and what the guard returns or the commit throws. -/
structure GuardRun (T E : Type) where
  commits : List (PremiseGuardIntent × List PremiseGuardReceipt)
  result : Except E (PremiseGuardResult T)

def executePremiseGuard (intent : PremiseGuardIntent) (receipts : List PremiseGuardReceipt)
    (adapter : PremiseGuardAdapter T E) (now : Nat → Int) : GuardRun T E :=
  match admittedReceipts dateParse intent receipts adapter.capabilities now with
  | .error result => ⟨[], .ok result⟩
  | .ok selected => ⟨[(intent, selected)], (adapter.commit intent selected).map (committedResult intent selected)⟩

end Premise.RuntimeCore
