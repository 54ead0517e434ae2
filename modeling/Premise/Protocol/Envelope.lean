import Premise.Js.Basic
import Premise.Js.Date
import Premise.Js.Document

/-!
# Version references

How the protocol names a version of a resource.
-/

namespace Premise.Protocol

structure VersionReference where
  scheme : String
  token : String
deriving DecidableEq

/-!
# Memory envelopes

`MemoryEnvelopeV2`, what `validateMemoryEnvelopeV2` finds in an envelope of the right shape, and the
envelope as a document.
-/

open Js

inductive V2MemoryStatus
  | fresh
  | stale
  | invalid
  | unknown
deriving DecidableEq

inductive V2ValidityPolicy
  | immutable
  | versioned
  | ttl
  | manual
deriving DecidableEq

structure V2Validity where
  status : V2MemoryStatus
  checkedAt : String
  policy : V2ValidityPolicy
  expiresAt : Option String := none
deriving DecidableEq

structure ConfidenceDeclaration where
  score : Option ℚ
  method : String
  assessedAt : Option String := none
  rationale : Option String := none
deriving DecidableEq

structure ValidatorReference where
  id : String
  operation : String
deriving DecidableEq

structure EvidenceReference where
  evidenceId : String
  sourceUri : String
  observedAt : String
  validFrom : Option String := none
  validUntil : Option String := none
  version : Option VersionReference := none
  validator : Option ValidatorReference := none
  confidence : Option ConfidenceDeclaration := none
  kind : Option String := none
deriving DecidableEq

structure TemporalDeclaration where
  asOf : String
  validFrom : Option String := none
  validUntil : Option String := none
deriving DecidableEq

inductive ConflictResolutionStrategy
  | manual
  | preferConfidence
  | preferNewest
  | merge
deriving DecidableEq

structure ConflictResolution where
  strategy : ConflictResolutionStrategy
  resolvedAt : String
  selectedEvidenceId : Option String := none
  note : Option String := none
deriving DecidableEq

inductive ConflictStatus
  | opened
  | resolved
deriving DecidableEq

structure EvidenceConflict where
  conflictId : String
  evidenceIds : List String
  status : ConflictStatus
  resolution : Option ConflictResolution := none
deriving DecidableEq

/-- A detached signature; its algorithm is `ed25519`. -/
structure DeclaredSignature where
  signatureId : String
  signerId : String
  keyId : String
  value : String
  signedAt : String
  evidenceId : Option String := none
deriving DecidableEq

structure MemoryEnvelopeV2 where
  tenantId : String
  memoryId : String
  contentDigest : Option String := none
  evidence : List EvidenceReference
  confidence : ConfidenceDeclaration
  conflicts : List EvidenceConflict
  temporal : TemporalDeclaration
  validity : V2Validity
  dependsOn : List String
  signatures : List DeclaredSignature
deriving DecidableEq

/-! ## Validation -/

structure V2ValidationIssue where
  path : String
  message : String
deriving DecidableEq

/-- `if (wrong) add(issues, path, message)`. -/
def flag (wrong : Bool) (path message : String) : List V2ValidationIssue :=
  if wrong then [⟨path, message⟩] else []

def isNonEmptyString (value : String) : Bool := decide (0 < value.length)

def isTenantId (value : String) : Bool := isNonEmptyString value && isTrimmed value

/-- `isDigest(value)`: the prefix, and a rest that is not empty and has no line terminator. -/
def isDigest (value : String) : Bool :=
  "sha256:".toList.isPrefixOf value.toList && decide (7 < value.length)
    && (value.toList.drop 7).all (fun c =>
      decide (c ≠ '\n' ∧ c ≠ '\r' ∧ c.toNat ≠ 0x2028 ∧ c.toNat ≠ 0x2029))

def duplicated (ids : List String) : Bool := decide (¬ ids.Nodup)

def indexed {α : Type} (path : String) (items : List α) : List (String × α) :=
  items.zipIdx.map (fun p => (path ++ "[" ++ toString p.2 ++ "]", p.1))

def uniqueIds (path field : String) (ids : List String) (i : Nat) : List V2ValidationIssue :=
  match ids[i]? with
  | none => []
  | some id => flag (isNonEmptyString id && decide (id ∈ ids.take i))
      (path ++ "[" ++ toString i ++ "]." ++ field) "must be unique in the envelope"

def checkOptional (value : Option String) (path : String) : List V2ValidationIssue :=
  flag (value.any (fun v => !isNonEmptyString v)) path "must be a non-empty string"

def checkOptionalDate (value : Option String) (path : String) : List V2ValidationIssue :=
  flag (value.any (fun v => !isDateTime v)) path "must be an ISO date-time string"

def validateVersion (value : VersionReference) (path : String) : List V2ValidationIssue :=
  flag (!isNonEmptyString value.scheme) (path ++ ".scheme") "must be a non-empty string"
    ++ flag (!isNonEmptyString value.token) (path ++ ".token") "must be a non-empty string"

def validateValidator (value : ValidatorReference) (path : String) : List V2ValidationIssue :=
  flag (!isNonEmptyString value.id) (path ++ ".id") "must be a non-empty string"
    ++ flag (!isNonEmptyString value.operation) (path ++ ".operation") "must be a non-empty string"

def validateConfidence (value : ConfidenceDeclaration) (path : String) : List V2ValidationIssue :=
  flag (value.score.any (fun score => decide (score < 0 ∨ 1 < score))) (path ++ ".score")
      "must be null or a finite number between 0 and 1"
    ++ flag (!isNonEmptyString value.method) (path ++ ".method") "must be a non-empty string"
    ++ checkOptionalDate value.assessedAt (path ++ ".assessedAt")
    ++ checkOptional value.rationale (path ++ ".rationale")

def validateWindow (validFrom validUntil : Option String) (path : String) : List V2ValidationIssue :=
  checkOptionalDate validFrom (path ++ ".validFrom")
    ++ checkOptionalDate validUntil (path ++ ".validUntil")
    ++ match validFrom.bind dateParse, validUntil.bind dateParse with
      | some start, some stop => flag (decide (stop ≤ start)) path "validFrom must be before validUntil"
      | _, _ => []

def validateEvidence (value : EvidenceReference) (path : String) : List V2ValidationIssue :=
  flag (!isNonEmptyString value.evidenceId) (path ++ ".evidenceId") "must be a non-empty string"
    ++ flag (!isNonEmptyString value.sourceUri) (path ++ ".sourceUri") "must be a non-empty string"
    ++ flag (!isDateTime value.observedAt) (path ++ ".observedAt") "must be an ISO date-time string"
    ++ validateWindow value.validFrom value.validUntil path
    ++ flag (decide (value.version.isSome ≠ value.validator.isSome)) path
        "version and validator must appear together"
    ++ (value.version.map (fun v => validateVersion v (path ++ ".version"))).getD []
    ++ (value.validator.map (fun v => validateValidator v (path ++ ".validator"))).getD []
    ++ (value.confidence.map (fun v => validateConfidence v (path ++ ".confidence"))).getD []
    ++ checkOptional value.kind (path ++ ".kind")

def validateTemporal (value : TemporalDeclaration) (path : String) : List V2ValidationIssue :=
  flag (!isDateTime value.asOf) (path ++ ".asOf") "must be an ISO date-time string"
    ++ validateWindow value.validFrom value.validUntil path

def validateValidity (value : V2Validity) (path : String) : List V2ValidationIssue :=
  flag (!isDateTime value.checkedAt) (path ++ ".checkedAt") "must be an ISO date-time string"
    ++ flag (decide (value.policy = .ttl) && !value.expiresAt.any isDateTime) (path ++ ".expiresAt")
        "is required for TTL policy and must be an ISO date-time string"
    ++ flag (decide (value.policy ≠ .ttl) && value.expiresAt.isSome) (path ++ ".expiresAt")
        "is only allowed for TTL policy"

def validateResolution (value : ConflictResolution) (path : String)
    (conflictEvidenceIds : List String) : List V2ValidationIssue :=
  flag (!isDateTime value.resolvedAt) (path ++ ".resolvedAt") "must be an ISO date-time string"
    ++ (value.selectedEvidenceId.map (fun id =>
        if isNonEmptyString id then
          flag (decide (id ∉ conflictEvidenceIds)) (path ++ ".selectedEvidenceId")
            "must reference evidence in the conflict"
        else [⟨path ++ ".selectedEvidenceId", "must be a non-empty string"⟩])).getD []
    ++ checkOptional value.note (path ++ ".note")

def validateConflict (value : EvidenceConflict) (path : String) (evidenceIds : List String) :
    List V2ValidationIssue :=
  let wellFormed := decide (2 ≤ value.evidenceIds.length) && value.evidenceIds.all isNonEmptyString
  flag (!isNonEmptyString value.conflictId) (path ++ ".conflictId") "must be a non-empty string"
    ++ (if wellFormed then
        flag (duplicated value.evidenceIds) (path ++ ".evidenceIds")
            "must not contain duplicate evidence ids"
          ++ value.evidenceIds.flatMap (fun id => flag (decide (id ∉ evidenceIds))
            (path ++ ".evidenceIds") ("references unknown evidence " ++ id))
      else [⟨path ++ ".evidenceIds", "must contain at least two non-empty evidence ids"⟩])
    ++ flag (decide (value.status = .opened) && value.resolution.isSome) (path ++ ".resolution")
        "is not allowed for an OPEN conflict"
    ++ flag (decide (value.status = .resolved) && value.resolution.isNone) (path ++ ".resolution")
        "is required for a RESOLVED conflict"
    ++ (value.resolution.map (fun r => validateResolution r (path ++ ".resolution")
        (if wellFormed then value.evidenceIds else []))).getD []

def validateSignature (value : DeclaredSignature) (path : String) (evidenceIds : List String) :
    List V2ValidationIssue :=
  flag (!isNonEmptyString value.signatureId) (path ++ ".signatureId") "must be a non-empty string"
    ++ flag (!isNonEmptyString value.signerId) (path ++ ".signerId") "must be a non-empty string"
    ++ flag (!isNonEmptyString value.keyId) (path ++ ".keyId") "must be a non-empty string"
    ++ flag (!isNonEmptyString value.value) (path ++ ".value") "must be a non-empty string"
    ++ flag (!isDateTime value.signedAt) (path ++ ".signedAt") "must be an ISO date-time string"
    ++ (value.evidenceId.map (fun id =>
        if isNonEmptyString id then
          flag (decide (id ∉ evidenceIds)) (path ++ ".evidenceId")
            "must reference evidence in this envelope"
        else [⟨path ++ ".evidenceId", "must be a non-empty string"⟩])).getD []

def validateMemoryEnvelopeV2 (input : MemoryEnvelopeV2) : List V2ValidationIssue :=
  let evidenceIds := input.evidence.map EvidenceReference.evidenceId
  let conflictIds := input.conflicts.map EvidenceConflict.conflictId
  let signatureIds := input.signatures.map DeclaredSignature.signatureId
  flag (!isTenantId input.tenantId) "$.tenantId"
      "must be a non-empty tenant id without surrounding whitespace"
    ++ flag (!isNonEmptyString input.memoryId) "$.memoryId" "must be a non-empty string"
    ++ flag (input.contentDigest.any (fun d => !isDigest d)) "$.contentDigest"
        "must use the sha256: digest prefix and a non-empty digest"
    ++ (indexed "$.evidence" input.evidence).zipIdx.flatMap (fun p =>
        validateEvidence p.1.2 p.1.1 ++ uniqueIds "$.evidence" "evidenceId" evidenceIds p.2)
    ++ validateConfidence input.confidence "$.confidence"
    ++ (indexed "$.conflicts" input.conflicts).zipIdx.flatMap (fun p =>
        validateConflict p.1.2 p.1.1 (evidenceIds.filter isNonEmptyString)
          ++ uniqueIds "$.conflicts" "conflictId" conflictIds p.2)
    ++ validateTemporal input.temporal "$.temporal"
    ++ validateValidity input.validity "$.validity"
    ++ flag (input.conflicts.any (fun c => decide (c.status = .opened))
        && decide (input.validity.status = .fresh)) "$.validity.status"
        "cannot be FRESH while a conflict is OPEN"
    ++ (if input.dependsOn.all isNonEmptyString then
        flag (duplicated input.dependsOn) "$.dependsOn" "must not contain duplicate memory ids"
      else [⟨"$.dependsOn", "must be an array of non-empty memory ids"⟩])
    ++ flag (decide (input.evidence = []) &&
        (decide (input.dependsOn = []) || !input.dependsOn.all isNonEmptyString)) "$"
        "must contain evidence or at least one dependency"
    ++ (indexed "$.signatures" input.signatures).zipIdx.flatMap (fun p =>
        validateSignature p.1.2 p.1.1 (evidenceIds.filter isNonEmptyString)
          ++ uniqueIds "$.signatures" "signatureId" signatureIds p.2)

/-! ## Documents

The objects are written with their keys in the order in which canonical texts have them.
-/

def V2MemoryStatus.text : V2MemoryStatus → String
  | .fresh => "FRESH"
  | .stale => "STALE"
  | .invalid => "INVALID"
  | .unknown => "UNKNOWN"

def V2ValidityPolicy.text : V2ValidityPolicy → String
  | .immutable => "IMMUTABLE"
  | .versioned => "VERSIONED"
  | .ttl => "TTL"
  | .manual => "MANUAL"

def ConflictResolutionStrategy.text : ConflictResolutionStrategy → String
  | .manual => "MANUAL"
  | .preferConfidence => "PREFER_CONFIDENCE"
  | .preferNewest => "PREFER_NEWEST"
  | .merge => "MERGE"

def ConflictStatus.text : ConflictStatus → String
  | .opened => "OPEN"
  | .resolved => "RESOLVED"

def optionalText (key : String) (value : Option String) : List (String × Json) :=
  Json.optional key (value.map .string)

def VersionReference.document (v : VersionReference) : Json :=
  .object [("scheme", .string v.scheme), ("token", .string v.token)]

def ValidatorReference.document (v : ValidatorReference) : Json :=
  .object [("id", .string v.id), ("operation", .string v.operation)]

def ConfidenceDeclaration.document (c : ConfidenceDeclaration) : Json :=
  .object (optionalText "assessedAt" c.assessedAt ++ [("method", .string c.method)]
    ++ optionalText "rationale" c.rationale ++ [("score", (c.score.map Json.number).getD .null)])

def EvidenceReference.document (e : EvidenceReference) : Json :=
  .object (Json.optional "confidence" (e.confidence.map ConfidenceDeclaration.document)
    ++ [("evidenceId", .string e.evidenceId)] ++ optionalText "kind" e.kind
    ++ [("observedAt", .string e.observedAt), ("sourceUri", .string e.sourceUri)]
    ++ optionalText "validFrom" e.validFrom ++ optionalText "validUntil" e.validUntil
    ++ Json.optional "validator" (e.validator.map ValidatorReference.document)
    ++ Json.optional "version" (e.version.map VersionReference.document))

def TemporalDeclaration.document (t : TemporalDeclaration) : Json :=
  .object ([("asOf", .string t.asOf)] ++ optionalText "validFrom" t.validFrom
    ++ optionalText "validUntil" t.validUntil)

def V2Validity.document (v : V2Validity) : Json :=
  .object ([("checkedAt", .string v.checkedAt)] ++ optionalText "expiresAt" v.expiresAt
    ++ [("policy", .string v.policy.text), ("status", .string v.status.text)])

def ConflictResolution.document (r : ConflictResolution) : Json :=
  .object (optionalText "note" r.note ++ [("resolvedAt", .string r.resolvedAt)]
    ++ optionalText "selectedEvidenceId" r.selectedEvidenceId
    ++ [("strategy", .string r.strategy.text)])

def EvidenceConflict.document (c : EvidenceConflict) : Json :=
  .object ([("conflictId", .string c.conflictId), ("evidenceIds", Json.strings c.evidenceIds)]
    ++ Json.optional "resolution" (c.resolution.map ConflictResolution.document)
    ++ [("status", .string c.status.text)])

/-- `unsignedEnvelope(envelope)`. -/
def MemoryEnvelopeV2.unsigned (e : MemoryEnvelopeV2) : Json :=
  .object ([("confidence", e.confidence.document),
      ("conflicts", .array (e.conflicts.map EvidenceConflict.document))]
    ++ optionalText "contentDigest" e.contentDigest
    ++ [("dependsOn", Json.strings e.dependsOn),
      ("evidence", .array (e.evidence.map EvidenceReference.document)),
      ("memoryId", .string e.memoryId), ("specVersion", .string "premise/2"),
      ("temporal", e.temporal.document), ("tenantId", .string e.tenantId),
      ("validity", e.validity.document)])

/-!
# Envelopes as documents

An envelope with its signatures, as the document that a digest is taken of.
-/

def DeclaredSignature.document (s : DeclaredSignature) : Json :=
  .object ([("algorithm", .string "ed25519")] ++ optionalText "evidenceId" s.evidenceId
    ++ [("keyId", .string s.keyId), ("signatureId", .string s.signatureId),
      ("signedAt", .string s.signedAt), ("signerId", .string s.signerId), ("value", .string s.value)])

def MemoryEnvelopeV2.document (e : MemoryEnvelopeV2) : Json :=
  .object ([("confidence", e.confidence.document),
      ("conflicts", .array (e.conflicts.map EvidenceConflict.document))]
    ++ optionalText "contentDigest" e.contentDigest
    ++ [("dependsOn", Json.strings e.dependsOn),
      ("evidence", .array (e.evidence.map EvidenceReference.document)),
      ("memoryId", .string e.memoryId),
      ("signatures", .array (e.signatures.map DeclaredSignature.document)),
      ("specVersion", .string "premise/2"), ("temporal", e.temporal.document),
      ("tenantId", .string e.tenantId), ("validity", e.validity.document)])

end Premise.Protocol
