import Premise.Collections.OrderedMap
import Premise.Js.Basic
import Premise.Js.Value

/-!
# Validation scopes

The identity under which validation work may be shared, and the smaller one that may supersede it. The
digest of a text is a parameter.
-/

namespace Premise.ValidationScope

open Collections Js

structure PremiseValidationScope where
  tenantId : String
  resourceId : String
  incarnationId : String
  versionScheme : String
  versionToken : String
  validatorId : String
  authorizationContextDigest : String
  policyDigest : String
  queryDigest : String
  scopes : List String
  changeSetDigest : Option String
  causalFrontier : List String
deriving DecidableEq

/-- The text is not empty, and has no white space at its ends. -/
def validText (value : String) : Bool := decide (0 < value.length) && isTrimmed value

/-- `required(value, name)` on names and values, in their order. -/
def requiredAll : List (String × String) → Except JsError Unit
  | [] => .ok ()
  | (name, value) :: rest =>
    if validText value then requiredAll rest
    else .error (.typeError (name ++ " must be a non-empty string"))

/-- The elements of an array, under the names by which they are checked. -/
def namedItems (name : String) (values : List String) : List (String × String) :=
  values.zipIdx.map (fun p => (name ++ "[" ++ toString p.2 ++ "]", p.1))

namespace PremiseValidationScope

/-- What `normalizePremiseValidationScope` checks, in its order. -/
def requiredFields (scope : PremiseValidationScope) : List (String × String) :=
  scope.changeSetDigest.toList.map (fun digest => ("changeSetDigest", digest))
    ++ [("tenantId", scope.tenantId), ("resourceId", scope.resourceId),
      ("incarnationId", scope.incarnationId), ("versionScheme", scope.versionScheme),
      ("versionToken", scope.versionToken), ("validatorId", scope.validatorId),
      ("authorizationContextDigest", scope.authorizationContextDigest),
      ("policyDigest", scope.policyDigest), ("queryDigest", scope.queryDigest)]
    ++ namedItems "scopes" scope.scopes ++ namedItems "causalFrontier" scope.causalFrontier

def normal (scope : PremiseValidationScope) : PremiseValidationScope :=
  { scope with
    scopes := sortStrings (unique scope.scopes)
    causalFrontier := sortStrings (unique scope.causalFrontier) }

end PremiseValidationScope

def normalizePremiseValidationScope (scope : PremiseValidationScope) :
    Except JsError PremiseValidationScope :=
  match requiredAll scope.requiredFields with
  | .error err => .error err
  | .ok () => .ok scope.normal

/-- `JSON.stringify({ domain, ...normalized })`. -/
def scopeText (scope : PremiseValidationScope) : List Char :=
  "\x7b\"domain\":\"premise-validation-scope/1\",\"tenantId\":".toList ++ jsonString scope.tenantId
    ++ (",\"resourceId\":".toList ++ jsonString scope.resourceId
    ++ (",\"incarnationId\":".toList ++ jsonString scope.incarnationId
    ++ (",\"versionScheme\":".toList ++ jsonString scope.versionScheme
    ++ (",\"versionToken\":".toList ++ jsonString scope.versionToken
    ++ (",\"validatorId\":".toList ++ jsonString scope.validatorId
    ++ (",\"authorizationContextDigest\":".toList ++ jsonString scope.authorizationContextDigest
    ++ (",\"policyDigest\":".toList ++ jsonString scope.policyDigest
    ++ (",\"queryDigest\":".toList ++ jsonString scope.queryDigest
    ++ (",\"scopes\":".toList ++ jsonArray jsonString scope.scopes
    ++ (",\"changeSetDigest\":".toList ++ jsonNullable scope.changeSetDigest
    ++ (",\"causalFrontier\":".toList ++ jsonArray jsonString scope.causalFrontier ++ ['}'])))))))))))

/-- `JSON.stringify({ domain, ...supersession })`. -/
def supersessionText (scope : PremiseValidationScope) : List Char :=
  "\x7b\"domain\":\"premise-validation-supersession/1\",\"tenantId\":".toList
    ++ jsonString scope.tenantId
    ++ (",\"resourceId\":".toList ++ jsonString scope.resourceId
    ++ (",\"incarnationId\":".toList ++ jsonString scope.incarnationId
    ++ (",\"versionScheme\":".toList ++ jsonString scope.versionScheme
    ++ (",\"versionToken\":".toList ++ jsonString scope.versionToken ++ ['}']))))

def canonicalPremiseValidationScope (scope : PremiseValidationScope) : Except JsError String :=
  (normalizePremiseValidationScope scope).map (fun normalized => String.ofList (scopeText normalized))

def canonicalPremiseValidationSupersessionScope (scope : PremiseValidationScope) :
    Except JsError String :=
  (normalizePremiseValidationScope scope).map
    (fun normalized => String.ofList (supersessionText normalized))

/-- `digest` is the hexadecimal SHA-256 digest of a text. -/
def premiseValidationScopeKey (digest : String → String) (scope : PremiseValidationScope) :
    Except JsError String :=
  (canonicalPremiseValidationScope scope).map (fun text => "sha256:" ++ digest text)

def premiseValidationSupersessionKey (digest : String → String) (scope : PremiseValidationScope) :
    Except JsError String :=
  (canonicalPremiseValidationSupersessionScope scope).map (fun text => "sha256:" ++ digest text)

end Premise.ValidationScope
