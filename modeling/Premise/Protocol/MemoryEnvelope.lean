import Premise.Protocol.Envelope

/-!
# Version 0.1 of the protocol

`MemoryEnvelope`, what `validateMemoryEnvelope` finds in an envelope of the right shape, and the results
of validators.
-/

namespace Premise.Protocol.V1

open Js

inductive MemoryStatus
  | fresh
  | stale
  | unknown
  | invalid
deriving DecidableEq, Repr

namespace MemoryStatus

def rank : MemoryStatus → Nat
  | .fresh => 0
  | .stale => 1
  | .unknown => 2
  | .invalid => 3

theorem rank_injective : Function.Injective rank := by
  intro s t h
  cases s <;> cases t <;> first | rfl | cases h

/-- `FRESH < STALE < UNKNOWN < INVALID`. -/
instance : LinearOrder MemoryStatus := LinearOrder.lift' rank rank_injective

end MemoryStatus

inductive ValidityPolicy
  | immutable
  | versioned
  | ttl
  | manual
deriving DecidableEq, Repr

structure SourceReference where
  sourceUri : String
  observedAt : String
  version : Option VersionReference := none
  validator : Option ValidatorReference := none
deriving DecidableEq

structure Validity where
  status : MemoryStatus
  checkedAt : String
  policy : ValidityPolicy
  expiresAt : Option String := none
deriving DecidableEq

structure MemoryEnvelope where
  memoryId : String
  contentDigest : Option String := none
  provenance : Option (List SourceReference) := none
  validity : Validity
  dependsOn : List String
deriving DecidableEq

structure ValidationIssue where
  path : String
  message : String
deriving DecidableEq

/-- `if (wrong) add(issues, path, message)`. -/
def addIf (wrong : Bool) (path message : String) : List ValidationIssue :=
  if wrong then [⟨path, message⟩] else []

def isVersion (value : VersionReference) : Bool :=
  isNonEmptyString value.scheme && isNonEmptyString value.token

def validateVersion (value : VersionReference) (path : String) : List ValidationIssue :=
  addIf (!isVersion value) path "must contain non-empty scheme and token strings"

def validateValidator (value : ValidatorReference) (path : String) : List ValidationIssue :=
  addIf (!(isNonEmptyString value.id && isNonEmptyString value.operation)) path
    "must contain non-empty id and operation strings"

def validateSource (value : SourceReference) (path : String) : List ValidationIssue :=
  addIf (!isNonEmptyString value.sourceUri) (path ++ ".sourceUri") "must be a non-empty string"
    ++ addIf (!isDateTime value.observedAt) (path ++ ".observedAt") "must be an ISO date-time string"
    ++ addIf (decide (value.version.isSome ≠ value.validator.isSome)) path
        "version and validator must appear together"
    ++ (value.version.map (fun v => validateVersion v (path ++ ".version"))).getD []
    ++ (value.validator.map (fun v => validateValidator v (path ++ ".validator"))).getD []

def validateValidity (value : Validity) : List ValidationIssue :=
  addIf (!isDateTime value.checkedAt) "$.validity.checkedAt" "must be an ISO date-time string"
    ++ addIf (decide (value.policy = .ttl) && !value.expiresAt.any isDateTime) "$.validity.expiresAt"
        "is required for TTL policy and must be an ISO date-time string"
    ++ addIf (decide (value.policy ≠ .ttl) && value.expiresAt.isSome) "$.validity.expiresAt"
        "is only allowed for TTL policy"

def validateMemoryEnvelope (input : MemoryEnvelope) : List ValidationIssue :=
  let sources := input.provenance.getD []
  addIf (!isNonEmptyString input.memoryId) "$.memoryId" "must be a non-empty string"
    ++ addIf (input.contentDigest.any (fun d => !isDigest d)) "$.contentDigest"
        "must use the sha256: digest prefix and a non-empty digest"
    ++ addIf (decide (input.provenance = some [])) "$.provenance"
        "must contain at least one source when present"
    ++ (indexed "$.provenance" sources).flatMap (fun p => validateSource p.2 p.1
        ++ addIf (decide (input.validity.policy = .versioned)
          && !(p.2.version.isSome && p.2.validator.isSome)) p.1
          "VERSIONED provenance requires version and validator")
    ++ validateValidity input.validity
    ++ (if input.dependsOn.all isNonEmptyString then
        addIf (duplicated input.dependsOn) "$.dependsOn" "must not contain duplicate memory ids"
      else [⟨"$.dependsOn", "must be an array of non-empty memory ids"⟩])
    ++ addIf (sources.isEmpty && input.dependsOn.isEmpty) "$"
        "must contain provenance or at least one dependency"
    ++ addIf (decide (input.validity.policy = .versioned) && sources.isEmpty) "$.provenance"
        "is required for VERSIONED policy"

def issuesMessage (what : String) (issues : List ValidationIssue) : String :=
  "Invalid PREMiSE " ++ what ++ " (" ++ toString issues.length ++ " issue"
    ++ (if issues.length = 1 then "" else "s") ++ ")"

def parseMemoryEnvelope (input : MemoryEnvelope) : Except JsError MemoryEnvelope :=
  if validateMemoryEnvelope input ≠ [] then
    .error (.error (issuesMessage "memory envelope" (validateMemoryEnvelope input)))
  else .ok input

inductive ValidatorResult
  | unchanged
  | changed
  | missing
  | unknown
deriving DecidableEq, Repr

structure ValidationResult where
  memoryId : String
  result : ValidatorResult
  checkedAt : String
  status : MemoryStatus
  sourceUri : Option String := none
  version : Option VersionReference := none
deriving DecidableEq

def statusForResult : ValidatorResult → MemoryStatus
  | .unchanged => .fresh
  | .changed => .invalid
  | .missing => .invalid
  | .unknown => .unknown

def isValidationResult (input : ValidationResult) : Bool :=
  isNonEmptyString input.memoryId && isDateTime input.checkedAt
    && decide (input.status = statusForResult input.result)
    && (if input.result = .unchanged ∨ input.result = .changed then input.version.any isVersion
      else input.version.isNone)

inductive UsabilityDecision
  | usable
  | revalidate
  | reject
deriving DecidableEq, Repr

def usabilityForStatus : MemoryStatus → UsabilityDecision
  | .fresh => .usable
  | .stale => .revalidate
  | .unknown => .revalidate
  | .invalid => .reject

theorem parseMemoryEnvelope_ok {input envelope : MemoryEnvelope}
    (h : parseMemoryEnvelope input = .ok envelope) :
    envelope = input ∧ validateMemoryEnvelope envelope = [] := by
  unfold parseMemoryEnvelope at h
  split_ifs at h with hissues
  cases h
  exact ⟨rfl, not_not.mp hissues⟩

theorem addIf_eq_nil {wrong : Bool} {path message : String} : addIf wrong path message = [] ↔ wrong = false := by
  unfold addIf
  cases wrong with
  | false => exact ⟨fun _ => rfl, fun _ => rfl⟩
  | true => exact ⟨nofun, nofun⟩

theorem isNonEmptyString_iff {value : String} : isNonEmptyString value = true ↔ value ≠ "" := by
  unfold isNonEmptyString
  rw [decide_eq_true_eq, Nat.pos_iff_ne_zero, Ne, String.length_eq_zero_iff]

/-- What the rest of the code relies on. -/
structure WellFormed (envelope : MemoryEnvelope) : Prop where
  named : envelope.memoryId ≠ ""
  checkedAt : isDateTime envelope.validity.checkedAt = true
  dependsOn_named : ∀ id ∈ envelope.dependsOn, id ≠ ""
  dependsOn_nodup : envelope.dependsOn.Nodup

theorem wellFormed_of_valid {envelope : MemoryEnvelope} (h : validateMemoryEnvelope envelope = []) :
    WellFormed envelope := by
  unfold validateMemoryEnvelope validateValidity at h
  simp only [List.append_eq_nil_iff, addIf_eq_nil, Bool.not_eq_false'] at h
  obtain ⟨⟨⟨⟨⟨⟨⟨hnamed, -⟩, -⟩, -⟩, ⟨hcheckedAt, -⟩, -⟩, hdependsOn⟩, -⟩, -⟩ := h
  split_ifs at hdependsOn with hall
  rw [addIf_eq_nil] at hdependsOn
  refine ⟨isNonEmptyString_iff.mp hnamed, hcheckedAt, ?_, ?_⟩
  · intro id hid
    exact isNonEmptyString_iff.mp (List.all_eq_true.mp hall id hid)
  · unfold duplicated at hdependsOn
    rwa [decide_eq_false_iff_not, not_not] at hdependsOn

end Premise.Protocol.V1
