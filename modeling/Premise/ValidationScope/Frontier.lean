import Premise.Collections.Comparison
import Premise.ValidationScope.Scope

/-!
# Keys of receipt frontiers

`premiseReceiptSharingFrontierKey` of `premise-policy.ts`, the key of several resources that are validated
together, and what the keys of scopes are to tell apart. `localeCompare` and the digest of a text are parameters.
-/

namespace Premise.ValidationScope

open Collections Js

/-- A scope of a frontier in normal form, with its key. -/
structure FrontierMember where
  scope : PremiseValidationScope
  key : String
deriving DecidableEq

def frontierMember (digest : String → String) (scope : PremiseValidationScope) : Except JsError FrontierMember := do
  let normalized ← normalizePremiseValidationScope scope
  let key ← premiseValidationScopeKey digest normalized
  return { scope := normalized, key := key }

/-- Members are ordered by their resources, then by their keys. -/
def compareMembers (localeCompare : String → String → Int) (left right : FrontierMember) : Int :=
  orElse (localeCompare left.scope.resourceId right.scope.resourceId) (localeCompare left.key right.key)

/-- `JSON.stringify({ domain, members })`. -/
def frontierText (keys : List String) : List Char :=
  "\x7b\"domain\":\"premise-policy-sharing-frontier/1\",\"members\":".toList ++ jsonArray jsonString keys ++ ['}']

def premiseReceiptSharingFrontierKey (digest : String → String) (localeCompare : String → String → Int)
    (scopes : List PremiseValidationScope) : Except JsError String := do
  if scopes.length = 0 then throw (.typeError "PREMiSE frontier must contain at least one resource")
  let members ← scopes.mapM (frontierMember digest)
  let members := sortBy (compareMembers localeCompare) members
  if (unique (members.map (fun member => member.scope.resourceId))).length ≠ members.length then
    throw (.typeError "PREMiSE frontier cannot contain duplicate resources")
  return "sha256:" ++ digest (String.ofList (frontierText (members.map FrontierMember.key)))

namespace PremiseValidationScope

/-- The scope passes the checks of `normalizePremiseValidationScope`. -/
def Complete (scope : PremiseValidationScope) : Prop := normalizePremiseValidationScope scope = .ok scope.normal

instance (scope : PremiseValidationScope) : Decidable scope.Complete :=
  inferInstanceAs (Decidable (normalizePremiseValidationScope scope = .ok scope.normal))

/-- The scopes are of one version of one incarnation of a resource. -/
structure SameGeneration (scope scope' : PremiseValidationScope) : Prop where
  tenantId : scope.tenantId = scope'.tenantId
  resourceId : scope.resourceId = scope'.resourceId
  incarnationId : scope.incarnationId = scope'.incarnationId
  versionScheme : scope.versionScheme = scope'.versionScheme
  versionToken : scope.versionToken = scope'.versionToken

/-- The texts of the scopes are equal, and their lists are so as sets. -/
structure SameScope (scope scope' : PremiseValidationScope) : Prop extends SameGeneration scope scope' where
  validatorId : scope.validatorId = scope'.validatorId
  authorizationContextDigest : scope.authorizationContextDigest = scope'.authorizationContextDigest
  policyDigest : scope.policyDigest = scope'.policyDigest
  queryDigest : scope.queryDigest = scope'.queryDigest
  changeSetDigest : scope.changeSetDigest = scope'.changeSetDigest
  scopes : ∀ value, value ∈ scope.scopes ↔ value ∈ scope'.scopes
  causalFrontier : ∀ value, value ∈ scope.causalFrontier ↔ value ∈ scope'.causalFrontier

def texts (scope : PremiseValidationScope) : Set String :=
  fun text => text = String.ofList (scopeText scope.normal) ∨ text = String.ofList (supersessionText scope.normal)

end PremiseValidationScope

def frontierTexts (digest : String → String) (localeCompare : String → String → Int)
    (scopes : List PremiseValidationScope) : Set String :=
  fun text => (∃ scope ∈ scopes, text ∈ scope.texts) ∨ ∃ members, scopes.mapM (frontierMember digest) = .ok members ∧
    text = String.ofList (frontierText ((sortBy (compareMembers localeCompare) members).map FrontierMember.key))

/-- `localeCompare` orders texts by a collation key, which tells digests apart. -/
structure Collates {κ : Type} [LinearOrder κ] (digest : String → String) (localeCompare : String → String → Int)
    (collationKey : String → κ) : Prop where
  compares : Compares localeCompare collationKey
  digests : ∀ text text', collationKey ("sha256:" ++ digest text) = collationKey ("sha256:" ++ digest text') →
    digest text = digest text'

/-- Keys are equal exactly for what they stand for, when the digest is injective on `texts`. -/
structure ExactKeys (digest : String → String) (localeCompare : String → String → Int) (texts : Set String) : Prop where
  scope : ∀ scope scope', scope.Complete → scope'.Complete → scope.texts ⊆ texts → scope'.texts ⊆ texts →
    (premiseValidationScopeKey digest scope = premiseValidationScopeKey digest scope' ↔ scope.SameScope scope')
  supersession : ∀ scope scope', scope.Complete → scope'.Complete → scope.texts ⊆ texts → scope'.texts ⊆ texts →
    (premiseValidationSupersessionKey digest scope = premiseValidationSupersessionKey digest scope'
      ↔ scope.SameGeneration scope')
  permuted : ∀ scopes scopes', (∀ scope ∈ scopes, scope.Complete) → scopes.Perm scopes' →
    premiseReceiptSharingFrontierKey digest localeCompare scopes
      = premiseReceiptSharingFrontierKey digest localeCompare scopes'
  distinguished : ∀ scopes scopes' key key', (∀ scope ∈ scopes, scope.Complete) → (∀ scope ∈ scopes', scope.Complete) →
    frontierTexts digest localeCompare scopes ⊆ texts → frontierTexts digest localeCompare scopes' ⊆ texts →
    premiseReceiptSharingFrontierKey digest localeCompare scopes = .ok key →
    premiseReceiptSharingFrontierKey digest localeCompare scopes' = .ok key' →
    ((∃ scope ∈ scopes, ∀ scope' ∈ scopes', ¬ scope.SameScope scope')
      ∨ ∃ scope' ∈ scopes', ∀ scope ∈ scopes, ¬ scope.SameScope scope') → key ≠ key'

end Premise.ValidationScope
