import Premise.Next.Receipts
import Premise.Python.Text

/-!
# Receipt subsumption in the Python reference

`assess_receipt_subsumption` and `select_subsuming_receipt` of the reference, on the same receipts and
requirements. An exception is its message.
-/

namespace Premise.Next.Reference

open Collections Js Python

variable {T : Type}

def requiredText (value name : String) : Except String String :=
  if Python.nonEmpty value then pure value else throw (name ++ " must be a non-empty string")

/-- `text[:-1] + "+00:00" if text.endswith("Z") else text`. -/
def normalized (text : String) : String :=
  if text.toList.getLast? = some 'Z' then String.ofList (text.toList.dropLast ++ "+00:00".toList) else text

def timestamp (value name : String) : Except String Int := do
  let text ← requiredText value name
  match fromIsoFormat (normalized text) with
  | some parsed => pure parsed
  | none => throw "Invalid isoformat string"

/-- `_string_set`, with the set as the list of its elements. -/
def stringSet (values : List String) (name : String) : Except String (List String) := do
  if values.any (fun item => !Python.nonEmpty item) then throw (name ++ " must contain non-empty strings")
  if values ≠ sortedSet values then throw (name ++ " must be sorted and duplicate-free")
  pure values

/-- The fields of `_RECEIPT_STRING_FIELDS`. -/
def stringFields (scope : ReceiptScope) : List (String × String) :=
  [("tenantId", scope.tenantId), ("resourceId", scope.resourceId), ("incarnationId", scope.incarnationId),
    ("versionScheme", scope.versionScheme), ("versionToken", scope.versionToken), ("validatorId", scope.validatorId),
    ("authorizationContextDigest", scope.authorizationContextDigest), ("policyDigest", scope.policyDigest),
    ("queryFamily", scope.queryFamily)]

def requiredTexts : List (String × String) → Except String Unit
  | [] => pure ()
  | (field, value) :: rest => do
    let _ ← requiredText value field
    requiredTexts rest

def stringSets : List (String × List String) → Except String Unit
  | [] => pure ()
  | (field, values) :: rest => do
    let _ ← stringSet values field
    stringSets rest

/-- The checks of `_receipt_scope`. -/
def receiptScope (scope : ReceiptScope) : Except String Unit := do
  requiredTexts (stringFields scope)
  requiredTexts (scope.changeSetDigest.toList.map (fun digest => ("changeSetDigest", digest)))
  stringSets scope.lists

/-- The compared fields that differ, with their reasons. -/
def fieldReasons (candidate required : ReceiptScope) : List (Bool × ReceiptSubsumptionReason) :=
  [(candidate.tenantId ≠ required.tenantId, .tenantMismatch),
    (candidate.resourceId ≠ required.resourceId, .resourceMismatch),
    (candidate.incarnationId ≠ required.incarnationId, .incarnationMismatch),
    (candidate.versionScheme ≠ required.versionScheme, .versionSchemeMismatch),
    (candidate.versionToken ≠ required.versionToken, .versionMismatch),
    (candidate.validatorId ≠ required.validatorId, .validatorMismatch),
    (candidate.authorizationContextDigest ≠ required.authorizationContextDigest, .authorizationMismatch),
    (candidate.policyDigest ≠ required.policyDigest, .policyMismatch),
    (candidate.changeSetDigest ≠ required.changeSetDigest, .changeSetMismatch),
    (candidate.queryFamily ≠ required.queryFamily, .queryFamilyMismatch)]

/-- `required.issubset(available)`. -/
def covers (available required : List String) : Bool := required.all (fun value => value ∈ available)

def receiptScopeReason (candidate required : ReceiptScope) (requirement : ReceiptRequirement) :
    Except String ReceiptSubsumptionReason :=
  match (fieldReasons candidate required).find? (fun p => p.1) with
  | some (_, reason) => pure reason
  | none => do
    let queryParts ← stringSet candidate.queryParts "candidate.queryParts"
    let requiredQueryParts ← stringSet requirement.requiredQueryParts "requiredQueryParts"
    if !covers queryParts requiredQueryParts then return .queryInsufficient
    let scopes ← stringSet candidate.scopes "candidate.scopes"
    let requiredScopes ← stringSet requirement.requiredScopes "requiredScopes"
    if !covers scopes requiredScopes then return .scopeInsufficient
    if candidate.causalFrontier ≠ required.causalFrontier then return .frontierInsufficient
    let requiredFrontier ← stringSet requirement.requiredFrontier "requiredFrontier"
    if !covers required.causalFrontier requiredFrontier then return .frontierInsufficient
    return .match_

/-- `assess_receipt_subsumption`, inside its `try`. -/
def assessChecked (candidate : ReceiptCandidate T) (requirement : ReceiptRequirement) :
    Except String (ReceiptSubsumptionResult T) := do
  let _ ← requiredText candidate.receiptId "receiptId"
  let now ← timestamp requirement.now "now"
  let expiresAt ← timestamp candidate.expiresAt "expiresAt"
  let observedAt ← timestamp candidate.observedAt "observedAt"
  receiptScope candidate.scope
  receiptScope requirement.scope
  let _ ← stringSet requirement.requiredQueryParts "requiredQueryParts"
  let _ ← stringSet requirement.requiredScopes "requiredScopes"
  let _ ← stringSet requirement.requiredFrontier "requiredFrontier"
  if expiresAt ≤ observedAt ∨ observedAt > now then return { eligible := false, reason := .invalid }
  if now ≥ expiresAt then return { eligible := false, reason := .expired }
  let reason ← receiptScopeReason candidate.scope requirement.scope requirement
  if reason ≠ .match_ then return { eligible := false, reason := reason }
  else return { eligible := true, reason := .match_, receipt := some candidate }

def assessReceiptSubsumption (candidate : ReceiptCandidate T) (requirement : ReceiptRequirement) :
    ReceiptSubsumptionResult T :=
  match assessChecked candidate requirement with
  | .ok result => result
  | .error _ => { eligible := false, reason := .invalid }

def comparePoints (left right : String) : Int :=
  if codePoints left = codePoints right then 0 else if codePoints left < codePoints right then -1 else 1

/-- `select_subsuming_receipt`; the sort is by the id alone. -/
def selectSubsumingReceipt (candidates : List (ReceiptCandidate T)) (requirement : ReceiptRequirement) :
    ReceiptSubsumptionResult T :=
  let eligible := (candidates.map (fun candidate => assessReceiptSubsumption candidate requirement)).filterMap
    (fun result => if result.eligible then result.receipt else none)
  match (sortBy (fun left right => comparePoints left.receiptId right.receiptId) eligible).head? with
  | some receipt => { eligible := true, reason := .match_, receipt := some receipt }
  | none => { eligible := false, reason := .invalid }

end Premise.Next.Reference
