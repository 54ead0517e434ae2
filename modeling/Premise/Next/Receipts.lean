import Premise.Collections.Comparison
import Premise.Js.Date
import Premise.ValidationScope.Scope

/-!
# Receipt subsumption

`assessReceiptSubsumption` and `selectSubsumingReceipt`. The value of a receipt is generic; `localeCompare` is
a parameter.
-/

namespace Premise.Next

open Collections Js ValidationScope

inductive ReceiptSubsumptionReason
  | match_
  | tenantMismatch
  | resourceMismatch
  | incarnationMismatch
  | versionSchemeMismatch
  | versionMismatch
  | authorizationMismatch
  | policyMismatch
  | changeSetMismatch
  | validatorMismatch
  | queryFamilyMismatch
  | queryInsufficient
  | scopeInsufficient
  | frontierInsufficient
  | expired
  | invalid
deriving DecidableEq

structure ReceiptScope extends PremiseValidationScope where
  queryFamily : String
  queryParts : List String
deriving DecidableEq

structure ReceiptCandidate (T : Type) where
  receiptId : String
  scope : ReceiptScope
  observedAt : String
  expiresAt : String
  value : T

structure ReceiptRequirement where
  scope : ReceiptScope
  requiredQueryParts : List String
  requiredScopes : List String
  requiredFrontier : List String
  now : String

structure ReceiptSubsumptionResult (T : Type) where
  eligible : Bool
  reason : ReceiptSubsumptionReason
  receipt : Option (ReceiptCandidate T) := none

variable {T : Type}

def required (value name : String) : Except JsError String :=
  if nonEmpty value then pure value else throw (.typeError (name ++ " must be non-empty"))

/-- Every value is greater than the one before it, by UTF-16 code units. -/
def checkAscending (name : String) : Option String → List String → Except JsError Unit
  | _, [] => pure ()
  | previous, value :: rest =>
    if previous.any (fun previous => decide (UnitsLe value previous)) then
      throw (.typeError (name ++ " must be sorted and duplicate-free"))
    else checkAscending name (some value) rest

/-- `set(values, name)`. -/
def stringSet (values : List String) (name : String) : Except JsError (OrderedSet String) := do
  if values.any (fun value => !nonEmpty value) then throw (.typeError (name ++ " must contain non-empty strings"))
  checkAscending name none values
  pure (OrderedSet.ofList values)

def timestamp (value name : String) : Except JsError Int := do
  let text ← required value name
  match dateParse text with
  | some parsed => pure parsed
  | none => throw (.typeError (name ++ " must be an ISO timestamp"))

def covers (available requiredValues : OrderedSet String) : Bool := requiredValues.elems.all available.has

/-- The texts of a scope, with the names under which they are checked. -/
def ReceiptScope.texts (scope : ReceiptScope) : List (String × String) :=
  [("tenantId", scope.tenantId), ("resourceId", scope.resourceId), ("incarnationId", scope.incarnationId),
    ("versionScheme", scope.versionScheme), ("versionToken", scope.versionToken), ("validatorId", scope.validatorId),
    ("authorizationContextDigest", scope.authorizationContextDigest), ("policyDigest", scope.policyDigest)]
    ++ scope.changeSetDigest.toList.map (fun digest => ("changeSetDigest", digest))
    ++ [("queryFamily", scope.queryFamily)]

/-- The lists of a scope, with the names under which they are checked. -/
def ReceiptScope.lists (scope : ReceiptScope) : List (String × List String) :=
  [("queryParts", scope.queryParts), ("scopes", scope.scopes), ("causalFrontier", scope.causalFrontier)]

def requiredTexts (name : String) : List (String × String) → Except JsError Unit
  | [] => pure ()
  | (field, value) :: rest => do
    let _ ← required value (name ++ "." ++ field)
    requiredTexts name rest

def stringSets (name : String) : List (String × List String) → Except JsError Unit
  | [] => pure ()
  | (field, values) :: rest => do
    let _ ← stringSet values (name ++ "." ++ field)
    stringSets name rest

def validateScope (scope : ReceiptScope) (name : String) : Except JsError Unit := do
  requiredTexts name scope.texts
  stringSets name scope.lists

def firstMismatch (candidate requiredScope : ReceiptScope) : Option ReceiptSubsumptionReason :=
  if candidate.tenantId ≠ requiredScope.tenantId then some .tenantMismatch
  else if candidate.resourceId ≠ requiredScope.resourceId then some .resourceMismatch
  else if candidate.incarnationId ≠ requiredScope.incarnationId then some .incarnationMismatch
  else if candidate.versionScheme ≠ requiredScope.versionScheme then some .versionSchemeMismatch
  else if candidate.versionToken ≠ requiredScope.versionToken then some .versionMismatch
  else if candidate.validatorId ≠ requiredScope.validatorId then some .validatorMismatch
  else if candidate.authorizationContextDigest ≠ requiredScope.authorizationContextDigest then some .authorizationMismatch
  else if candidate.policyDigest ≠ requiredScope.policyDigest then some .policyMismatch
  else if candidate.changeSetDigest ≠ requiredScope.changeSetDigest then some .changeSetMismatch
  else if candidate.queryFamily ≠ requiredScope.queryFamily then some .queryFamilyMismatch
  else none

/-- `values.join("\u0000")`. -/
def joinNul (values : List String) : List Char := List.intercalate ['\x00'] (values.map String.toList)

def scopeReason (candidate requiredScope : ReceiptScope) (requirement : ReceiptRequirement) :
    Except JsError ReceiptSubsumptionReason :=
  match firstMismatch candidate requiredScope with
  | some reason => pure reason
  | none => do
    let queryParts ← stringSet candidate.queryParts "candidate.queryParts"
    let requiredQueryParts ← stringSet requirement.requiredQueryParts "requiredQueryParts"
    if !covers queryParts requiredQueryParts then return .queryInsufficient
    let scopes ← stringSet candidate.scopes "candidate.scopes"
    let requiredScopes ← stringSet requirement.requiredScopes "requiredScopes"
    if !covers scopes requiredScopes then return .scopeInsufficient
    if joinNul candidate.causalFrontier ≠ joinNul requiredScope.causalFrontier then return .frontierInsufficient
    let requiredFrontier ← stringSet requirement.requiredFrontier "requiredFrontier"
    if !covers (OrderedSet.ofList requiredScope.causalFrontier) requiredFrontier then return .frontierInsufficient
    return .match_

/-- `assessReceiptSubsumption`, inside its `try`. -/
def assessChecked (candidate : ReceiptCandidate T) (requirement : ReceiptRequirement) :
    Except JsError (ReceiptSubsumptionResult T) := do
  let _ ← required candidate.receiptId "receiptId"
  validateScope candidate.scope "candidate.scope"
  validateScope requirement.scope "requirement.scope"
  let now ← timestamp requirement.now "now"
  let observedAt ← timestamp candidate.observedAt "observedAt"
  let expiresAt ← timestamp candidate.expiresAt "expiresAt"
  if expiresAt ≤ observedAt ∨ observedAt > now then return { eligible := false, reason := .invalid }
  if now ≥ expiresAt then return { eligible := false, reason := .expired }
  let _ ← stringSet requirement.requiredQueryParts "requiredQueryParts"
  let _ ← stringSet requirement.requiredScopes "requiredScopes"
  let _ ← stringSet requirement.requiredFrontier "requiredFrontier"
  let reason ← scopeReason candidate.scope requirement.scope requirement
  if reason = .match_ then return { eligible := true, reason := reason, receipt := some candidate }
  else return { eligible := false, reason := reason }

def assessReceiptSubsumption (candidate : ReceiptCandidate T) (requirement : ReceiptRequirement) :
    ReceiptSubsumptionResult T :=
  match assessChecked candidate requirement with
  | .ok result => result
  | .error _ => { eligible := false, reason := .invalid }

/-- Receipts that were observed later come first, then those that expire later, then by `localeCompare` of ids. -/
def compareReceipts (localeCompare : String → String → Int) (left right : ReceiptCandidate T) : Int :=
  orElse ((dateParse right.observedAt).getD 0 - (dateParse left.observedAt).getD 0)
    (orElse ((dateParse right.expiresAt).getD 0 - (dateParse left.expiresAt).getD 0)
      (localeCompare left.receiptId right.receiptId))

def selectSubsumingReceipt (localeCompare : String → String → Int) (candidates : List (ReceiptCandidate T))
    (requirement : ReceiptRequirement) : ReceiptSubsumptionResult T :=
  let eligible := (candidates.map (fun candidate => assessReceiptSubsumption candidate requirement)).filterMap
    (fun result => if result.eligible then result.receipt else none)
  match (sortBy (compareReceipts localeCompare) eligible).head? with
  | some receipt => { eligible := true, reason := .match_, receipt := some receipt }
  | none => { eligible := false, reason := .invalid }

end Premise.Next
