import Premise.Js.Reordered
import Premise.Protocol.Event
import Premise.Protocol.MemoryEnvelope

/-!
# What version 0.1 accepts

`validateMemoryEnvelope` of a JSON document, whatever its shape is. The checks go by the fields that they
name; only the envelope itself is checked for other fields.
-/

namespace Premise.Protocol

open Js

/-! ## Fields -/

/-- The field `key` of a value, where it is an object. -/
def fieldOf (value : Option Json) (key : String) : Option Json := value.bind (Json.field key)

def has (value : Json) (key : String) : Bool := (value.field key).isSome

def itemsOf : Option Json → Option (List Json)
  | some (.array items) => some items
  | _ => none

def idsOf (value : Option Json) : Option (List String) :=
  (itemsOf value).bind (fun items => items.mapM (fun item =>
    match item with
    | .string s => if isNonEmptyString s then some s else none
    | _ => none))

def isTheText (text : String) (value : Option Json) : Bool := isText (fun s => s == text) value

namespace V1Document

open Protocol.V1

def statuses : List String := ["FRESH", "STALE", "INVALID", "UNKNOWN"]

def policies : List String := ["IMMUTABLE", "VERSIONED", "TTL", "MANUAL"]

def isPair (value : Option Json) (first second : String) : Bool :=
  isRecord value && isText isNonEmptyString (fieldOf value first)
    && isText isNonEmptyString (fieldOf value second)

def validateVersion (value : Option Json) (path : String) : List ValidationIssue :=
  addIf (!isPair value "scheme" "token") path "must contain non-empty scheme and token strings"

def validateValidator (value : Option Json) (path : String) : List ValidationIssue :=
  addIf (!isPair value "id" "operation") path "must contain non-empty id and operation strings"

def validateSource (value : Json) (path : String) : List ValidationIssue :=
  if isRecord (some value) then
    addIf (!isText isNonEmptyString (value.field "sourceUri")) (path ++ ".sourceUri")
        "must be a non-empty string"
      ++ addIf (!isText isDateTime (value.field "observedAt")) (path ++ ".observedAt")
        "must be an ISO date-time string"
      ++ addIf (has value "version" != has value "validator") path
        "version and validator must appear together"
      ++ (if has value "version" then validateVersion (value.field "version") (path ++ ".version")
        else [])
      ++ (if has value "validator" then
          validateValidator (value.field "validator") (path ++ ".validator") else [])
  else [⟨path, "must be an object"⟩]

def validateValidity (value : Option Json) (path : String) : List ValidationIssue :=
  if isRecord value then
    addIf (!isText (fun s => statuses.contains s) (fieldOf value "status")) (path ++ ".status")
        "must be a PREMiSE memory status"
      ++ addIf (!isText isDateTime (fieldOf value "checkedAt")) (path ++ ".checkedAt")
        "must be an ISO date-time string"
      ++ addIf (!isText (fun s => policies.contains s) (fieldOf value "policy")) (path ++ ".policy")
        "must be a PREMiSE validity policy"
      ++ addIf (isTheText "TTL" (fieldOf value "policy")
          && !isText isDateTime (fieldOf value "expiresAt")) (path ++ ".expiresAt")
        "is required for TTL policy and must be an ISO date-time string"
      ++ addIf (!isTheText "TTL" (fieldOf value "policy") && (fieldOf value "expiresAt").isSome)
        (path ++ ".expiresAt") "is only allowed for TTL policy"
  else [⟨path, "must be an object"⟩]

def envelopeFields : List String :=
  ["specVersion", "memoryId", "contentDigest", "provenance", "validity", "dependsOn"]

/-- The policy of the envelope is `VERSIONED`. -/
def isVersioned (input : Json) : Bool :=
  isTheText "VERSIONED" (fieldOf (input.field "validity") "policy")

/-- The issues of `provenance`. -/
def validateProvenance (input : Json) : List ValidationIssue :=
  match input.field "provenance" with
  | none => []
  | some (.array sources) =>
    addIf sources.isEmpty "$.provenance" "must contain at least one source when present"
      ++ (indexed "$.provenance" sources).flatMap (fun p => validateSource p.2 p.1
        ++ addIf (isRecord (some p.2) && isVersioned input
          && (!has p.2 "version" || !has p.2 "validator")) p.1
          "VERSIONED provenance requires version and validator")
  | some _ => [⟨"$.provenance", "must be an array"⟩]

def countOf (value : Option Json) : Nat := ((itemsOf value).getD []).length

def validateMemoryEnvelope (input : Json) : List ValidationIssue :=
  match input with
  | .object fields =>
    fields.flatMap (fun p => addIf (decide (p.1 ∉ envelopeFields)) ("$." ++ p.1)
        "is not a permitted envelope field")
      ++ addIf (!isTheText "premise/0.1" (input.field "specVersion")) "$.specVersion"
        "must equal premise/0.1"
      ++ addIf (!isText isNonEmptyString (input.field "memoryId")) "$.memoryId"
        "must be a non-empty string"
      ++ addIf (has input "contentDigest" && !isText isDigest (input.field "contentDigest"))
        "$.contentDigest" "must use the sha256: digest prefix and a non-empty digest"
      ++ validateProvenance input
      ++ validateValidity (input.field "validity") "$.validity"
      ++ (match idsOf (input.field "dependsOn") with
        | none => [⟨"$.dependsOn", "must be an array of non-empty memory ids"⟩]
        | some ids => addIf (duplicated ids) "$.dependsOn" "must not contain duplicate memory ids")
      ++ addIf (decide (countOf (input.field "provenance") = 0 ∧ countOf (input.field "dependsOn") = 0))
        "$" "must contain provenance or at least one dependency"
      ++ addIf (isVersioned input && decide (countOf (input.field "provenance") = 0)) "$.provenance"
        "is required for VERSIONED policy"
  | _ => [⟨"$", "must be an object"⟩]

end V1Document

end Premise.Protocol

/-!
# What version 2 accepts

`validateMemoryEnvelopeV2` of a JSON document. Every object is checked for fields that it may not have.
-/

namespace Premise.Protocol.V2Document

open Js

def rejectUnknown (value : Json) (path : String) (allowed : List String) : List V2ValidationIssue :=
  match value with
  | .object fields => fields.flatMap (fun p => flag (decide (p.1 ∉ allowed)) (path ++ "." ++ p.1)
      "is not a permitted field")
  | _ => []

/-- `if (!isRecord(value)) { add(issues, path, "must be an object"); return false; }`. -/
def ofRecord (value : Option Json) (path : String) (check : Json → List V2ValidationIssue) :
    List V2ValidationIssue :=
  match value with
  | some (.object fields) => check (.object fields)
  | _ => [⟨path, "must be an object"⟩]

def requireText (p : String → Bool) (value : Json) (path key message : String) :
    List V2ValidationIssue :=
  flag (!isText p (value.field key)) (path ++ "." ++ key) message

def allowText (p : String → Bool) (value : Json) (path key message : String) :
    List V2ValidationIssue :=
  if has value key then requireText p value path key message else []

def validateVersion (value : Option Json) (path : String) : List V2ValidationIssue :=
  ofRecord value path (fun value =>
    rejectUnknown value path ["scheme", "token"]
      ++ requireText isNonEmptyString value path "scheme" "must be a non-empty string"
      ++ requireText isNonEmptyString value path "token" "must be a non-empty string")

def validateValidator (value : Option Json) (path : String) : List V2ValidationIssue :=
  ofRecord value path (fun value =>
    rejectUnknown value path ["id", "operation"]
      ++ requireText isNonEmptyString value path "id" "must be a non-empty string"
      ++ requireText isNonEmptyString value path "operation" "must be a non-empty string")

/-- The score is `null` or a number from 0 to 1. -/
def isScore : Option Json → Bool
  | some .null => true
  | some (.number score) => decide (0 ≤ score ∧ score ≤ 1)
  | _ => false

def validateConfidence (value : Option Json) (path : String) : List V2ValidationIssue :=
  ofRecord value path (fun value =>
    rejectUnknown value path ["score", "method", "assessedAt", "rationale"]
      ++ flag (!isScore (value.field "score")) (path ++ ".score")
        "must be null or a finite number between 0 and 1"
      ++ requireText isNonEmptyString value path "method" "must be a non-empty string"
      ++ allowText isDateTime value path "assessedAt" "must be an ISO date-time string"
      ++ allowText isNonEmptyString value path "rationale" "must be a non-empty string")

def instantOf : Option Json → Option Int
  | some (.string s) => dateParse s
  | _ => none

def validateWindow (value : Json) (path : String) : List V2ValidationIssue :=
  allowText isDateTime value path "validFrom" "must be an ISO date-time string"
    ++ allowText isDateTime value path "validUntil" "must be an ISO date-time string"
    ++ match instantOf (value.field "validFrom"), instantOf (value.field "validUntil") with
      | some start, some stop => flag (decide (stop ≤ start)) path "validFrom must be before validUntil"
      | _, _ => []

def validateEvidence (value : Json) (path : String) : List V2ValidationIssue :=
  ofRecord (some value) path (fun value =>
    rejectUnknown value path ["evidenceId", "sourceUri", "observedAt", "validFrom", "validUntil",
        "version", "validator", "confidence", "kind"]
      ++ requireText isNonEmptyString value path "evidenceId" "must be a non-empty string"
      ++ requireText isNonEmptyString value path "sourceUri" "must be a non-empty string"
      ++ requireText isDateTime value path "observedAt" "must be an ISO date-time string"
      ++ validateWindow value path
      ++ flag (has value "version" != has value "validator") path
        "version and validator must appear together"
      ++ (if has value "version" then validateVersion (value.field "version") (path ++ ".version")
        else [])
      ++ (if has value "validator" then
          validateValidator (value.field "validator") (path ++ ".validator") else [])
      ++ (if has value "confidence" then
          validateConfidence (value.field "confidence") (path ++ ".confidence") else [])
      ++ allowText isNonEmptyString value path "kind" "must be a non-empty string")

def validateTemporal (value : Option Json) (path : String) : List V2ValidationIssue :=
  ofRecord value path (fun value =>
    rejectUnknown value path ["asOf", "validFrom", "validUntil"]
      ++ requireText isDateTime value path "asOf" "must be an ISO date-time string"
      ++ validateWindow value path)

def validateValidity (value : Option Json) (path : String) : List V2ValidationIssue :=
  ofRecord value path (fun value =>
    rejectUnknown value path ["status", "checkedAt", "policy", "expiresAt"]
      ++ requireText (fun s => V1Document.statuses.contains s) value path "status"
        "must be a PREMiSE v2 memory status"
      ++ requireText isDateTime value path "checkedAt" "must be an ISO date-time string"
      ++ requireText (fun s => V1Document.policies.contains s) value path "policy"
        "must be a PREMiSE validity policy"
      ++ flag (isTheText "TTL" (value.field "policy") && !isText isDateTime (value.field "expiresAt"))
        (path ++ ".expiresAt") "is required for TTL policy and must be an ISO date-time string"
      ++ flag (!isTheText "TTL" (value.field "policy") && has value "expiresAt")
        (path ++ ".expiresAt") "is only allowed for TTL policy")

def validateReference (value : Json) (path key : String) (ids : List String) (message : String) :
    List V2ValidationIssue :=
  match value.field key with
  | none => []
  | some (.string id) =>
    if isNonEmptyString id then flag (decide (id ∉ ids)) (path ++ "." ++ key) message
    else [⟨path ++ "." ++ key, "must be a non-empty string"⟩]
  | some _ => [⟨path ++ "." ++ key, "must be a non-empty string"⟩]

def resolutionStrategies : List String := ["MANUAL", "PREFER_CONFIDENCE", "PREFER_NEWEST", "MERGE"]

def validateResolution (value : Option Json) (path : String) (conflictEvidenceIds : List String) :
    List V2ValidationIssue :=
  ofRecord value path (fun value =>
    rejectUnknown value path ["strategy", "resolvedAt", "selectedEvidenceId", "note"]
      ++ requireText (fun s => resolutionStrategies.contains s) value path "strategy"
        "must be a supported conflict resolution strategy"
      ++ requireText isDateTime value path "resolvedAt" "must be an ISO date-time string"
      ++ validateReference value path "selectedEvidenceId" conflictEvidenceIds
        "must reference evidence in the conflict"
      ++ allowText isNonEmptyString value path "note" "must be a non-empty string")

/-- The evidence ids of a conflict, when there are at least two. -/
def conflictIdsOf (value : Json) : Option (List String) :=
  (idsOf (value.field "evidenceIds")).filter (fun ids => decide (2 ≤ ids.length))

def validateConflict (value : Json) (path : String) (evidenceIds : List String) :
    List V2ValidationIssue :=
  ofRecord (some value) path (fun value =>
    rejectUnknown value path ["conflictId", "evidenceIds", "status", "resolution"]
      ++ requireText isNonEmptyString value path "conflictId" "must be a non-empty string"
      ++ (match conflictIdsOf value with
        | none => [⟨path ++ ".evidenceIds", "must contain at least two non-empty evidence ids"⟩]
        | some ids =>
          flag (duplicated ids) (path ++ ".evidenceIds") "must not contain duplicate evidence ids"
            ++ ids.flatMap (fun id => flag (decide (id ∉ evidenceIds)) (path ++ ".evidenceIds")
              ("references unknown evidence " ++ id)))
      ++ requireText (fun s => ["OPEN", "RESOLVED"].contains s) value path "status"
        "must be OPEN or RESOLVED"
      ++ flag (isTheText "OPEN" (value.field "status") && has value "resolution")
        (path ++ ".resolution") "is not allowed for an OPEN conflict"
      ++ flag (isTheText "RESOLVED" (value.field "status") && !has value "resolution")
        (path ++ ".resolution") "is required for a RESOLVED conflict"
      ++ (if has value "resolution" then
          validateResolution (value.field "resolution") (path ++ ".resolution")
            ((conflictIdsOf value).getD []) else []))

def validateSignature (value : Json) (path : String) (evidenceIds : List String) :
    List V2ValidationIssue :=
  ofRecord (some value) path (fun value =>
    rejectUnknown value path ["signatureId", "signerId", "keyId", "algorithm", "value", "signedAt",
        "evidenceId"]
      ++ ["signatureId", "signerId", "keyId", "value"].flatMap (fun field =>
        requireText isNonEmptyString value path field "must be a non-empty string")
      ++ requireText (fun s => s == "ed25519") value path "algorithm" "must equal ed25519"
      ++ requireText isDateTime value path "signedAt" "must be an ISO date-time string"
      ++ validateReference value path "evidenceId" evidenceIds
        "must reference evidence in this envelope")

def idOf (key : String) (item : Json) : Option String :=
  match item.field key with
  | some (.string s) => if isNonEmptyString s then some s else none
  | _ => none

/-- The items of a list are checked, and their ids against those before them. -/
def validateItems (value : Option Json) (path key : String)
    (check : Json → String → List V2ValidationIssue) : List V2ValidationIssue :=
  match itemsOf value with
  | none => [⟨path, "must be an array"⟩]
  | some items => (indexed path items).zipIdx.flatMap (fun p => check p.1.2 p.1.1
      ++ flag ((idOf key p.1.2).any (fun id => decide (id ∈ (items.take p.2).filterMap (idOf key))))
        (p.1.1 ++ "." ++ key) "must be unique in the envelope")

def envelopeFields : List String :=
  ["specVersion", "tenantId", "memoryId", "contentDigest", "evidence", "confidence", "conflicts",
    "temporal", "validity", "dependsOn", "signatures"]

def validateMemoryEnvelopeV2 (input : Json) : List V2ValidationIssue :=
  ofRecord (some input) "$" (fun input =>
    let evidenceIds := ((itemsOf (input.field "evidence")).getD []).filterMap (idOf "evidenceId")
    rejectUnknown input "$" envelopeFields
      ++ requireText (fun s => s == "premise/2") input "$" "specVersion" "must equal premise/2"
      ++ requireText isTenantId input "$" "tenantId"
        "must be a non-empty tenant id without surrounding whitespace"
      ++ requireText isNonEmptyString input "$" "memoryId" "must be a non-empty string"
      ++ allowText isDigest input "$" "contentDigest"
        "must use the sha256: digest prefix and a non-empty digest"
      ++ validateItems (input.field "evidence") "$.evidence" "evidenceId" validateEvidence
      ++ validateConfidence (input.field "confidence") "$.confidence"
      ++ validateItems (input.field "conflicts") "$.conflicts" "conflictId"
        (fun conflict path => validateConflict conflict path evidenceIds)
      ++ validateTemporal (input.field "temporal") "$.temporal"
      ++ validateValidity (input.field "validity") "$.validity"
      ++ flag (((itemsOf (input.field "conflicts")).getD []).any (fun conflict =>
            isTheText "OPEN" (conflict.field "status"))
          && isTheText "FRESH" (fieldOf (input.field "validity") "status")) "$.validity.status"
        "cannot be FRESH while a conflict is OPEN"
      ++ (match idsOf (input.field "dependsOn") with
        | none => [⟨"$.dependsOn", "must be an array of non-empty memory ids"⟩]
        | some ids => flag (duplicated ids) "$.dependsOn" "must not contain duplicate memory ids")
      ++ flag (((itemsOf (input.field "evidence")).getD []).isEmpty
          && ((idsOf (input.field "dependsOn")).getD []).isEmpty) "$"
        "must contain evidence or at least one dependency"
      ++ validateItems (input.field "signatures") "$.signatures" "signatureId"
        (fun signature path => validateSignature signature path evidenceIds))

end Premise.Protocol.V2Document

/-!
# Migration from version 0.1

`migrateV1Envelope` of a document. A document that the old version accepts is translated and then checked
by the new one.
-/

namespace Premise.Protocol

open Js V1Document V2Document

structure V1MigrationOptions where
  tenantId : String
  migratedAt : Option String := none
deriving DecidableEq

def V1MigrationOptions.issues (options : V1MigrationOptions) : List V2ValidationIssue :=
  flag (!isTenantId options.tenantId) "$.options.tenantId"
      "is required and must be a non-empty tenant id without surrounding whitespace"
    ++ flag (options.migratedAt.any (fun migratedAt => !isDateTime migratedAt)) "$.options.migratedAt"
      "must be an ISO date-time string"

def valueOf (value : Option Json) (key : String) : Json := (fieldOf value key).getD .null

/-- The version and the validator of a source, which are kept as they are. -/
def migrateReferences (source : Json) : List (String × Json) :=
  match source.field "version", source.field "validator" with
  | some version, some validator => [("version", version), ("validator", validator)]
  | _, _ => []

def migrateSource (source : Json) (index : Nat) : Json :=
  .object ([("evidenceId", .string ("v1:" ++ toString (index + 1))),
      ("sourceUri", valueOf (some source) "sourceUri"),
      ("observedAt", valueOf (some source) "observedAt")]
    ++ migrateReferences source)

def migrated (v1 : Json) (options : V1MigrationOptions) : Json :=
  let validity := v1.field "validity"
  let migratedAt := (options.migratedAt.map Json.string).getD (valueOf validity "checkedAt")
  let expiresAt := fieldOf validity "expiresAt"
  .object ([("specVersion", .string "premise/2"), ("tenantId", .string options.tenantId),
      ("memoryId", valueOf (some v1) "memoryId")]
    ++ Json.optional "contentDigest" (v1.field "contentDigest")
    ++ [("evidence", .array (((itemsOf (v1.field "provenance")).getD []).zipIdx.map
          (fun p => migrateSource p.1 p.2))),
      ("confidence", .object [("score", .null), ("method", .string "v1-migration"),
        ("assessedAt", migratedAt)]),
      ("conflicts", .array []),
      ("temporal", .object ([("asOf", migratedAt)] ++ Json.optional "validUntil" expiresAt)),
      ("validity", .object ([("status", valueOf validity "status"),
          ("checkedAt", valueOf validity "checkedAt"), ("policy", valueOf validity "policy")]
        ++ Json.optional "expiresAt" expiresAt)),
      ("dependsOn", .array ((itemsOf (v1.field "dependsOn")).getD [])),
      ("signatures", .array [])])

def v1Path (path : String) : String :=
  if path = "$" then "$.v1" else "$.v1" ++ String.ofList (path.toList.drop 1)

/-- `migrateV1Envelope(input, options)`: the issues are those that the error carries. -/
def migrateV1Envelope (input : Json) (options : V1MigrationOptions) :
    Except (List V2ValidationIssue) Json :=
  if options.issues ≠ [] then .error options.issues
  else if validateMemoryEnvelope input ≠ [] then
    .error ((validateMemoryEnvelope input).map (fun issue =>
      ⟨v1Path issue.path, "invalid v1 envelope: " ++ issue.message⟩))
  else if V2Document.validateMemoryEnvelopeV2 (migrated input options) ≠ [] then
    .error (V2Document.validateMemoryEnvelopeV2 (migrated input options))
  else .ok (migrated input options)

def SameField (input envelope : Json) (key : String) : Prop := envelope.field key = input.field key

/-- The evidence of the new envelope stands for the source at its place. -/
structure Carries (source evidence : Json) (index : Nat) : Prop where
  identity : evidence.field "evidenceId" = some (.string ("v1:" ++ toString (index + 1)))
  sourceUri : SameField source evidence "sourceUri"
  version : SameField source evidence "version"
  validator : SameField source evidence "validator"

/-- The new envelope keeps what the old one says. -/
structure Keeps (input envelope : Json) : Prop where
  memoryId : SameField input envelope "memoryId"
  dependsOn : SameField input envelope "dependsOn"
  status : fieldOf (envelope.field "validity") "status" = fieldOf (input.field "validity") "status"
  evidence : ∃ evidence, itemsOf (envelope.field "evidence") = some evidence ∧
    evidence.length = ((itemsOf (input.field "provenance")).getD []).length ∧
    ∀ i source item, ((itemsOf (input.field "provenance")).getD [])[i]? = some source →
      evidence[i]? = some item → Carries source item i

def Migrates (input : Json) (options : V1MigrationOptions) : Prop :=
  ∃ envelope, migrateV1Envelope input options = .ok envelope ∧
    V2Document.validateMemoryEnvelopeV2 envelope = [] ∧ Keeps input envelope

def HasOnly (value : Option Json) (allowed : List String) : Prop :=
  ∀ fields, value = some (.object fields) → ∀ p ∈ fields, p.1 ∈ allowed

/-- The versions and validators of the sources have the fields of the new version only. -/
def PlainReferences (input : Json) : Prop :=
  ∀ source ∈ (itemsOf (input.field "provenance")).getD [],
    HasOnly (source.field "version") ["scheme", "token"] ∧
    HasOnly (source.field "validator") ["id", "operation"]

end Premise.Protocol

/-!
# The text that is signed

`canonicalizeMemoryEnvelopeV2` of a JSON document: the keys of every object are sorted, and the signatures of the
envelope are left out.
-/

namespace Premise.Protocol.V2Document

open Js

/-- `parseMemoryEnvelopeV2(input)`: the issues are those that the error carries. -/
def parseMemoryEnvelopeV2 (input : Json) : Except (List V2ValidationIssue) Json :=
  if validateMemoryEnvelopeV2 input ≠ [] then .error (validateMemoryEnvelopeV2 input) else .ok input

mutual

/-- `canonicalFragment(value, seen)`; it throws on no document. -/
def canonicalFragment : Json → List Char
  | .null => ['n', 'u', 'l', 'l']
  | .string s => (Json.string s).stringify
  | .boolean b => (Json.boolean b).stringify
  | .number value => (Json.number value).stringify
  | .array items => '[' :: ([','].intercalate (canonicalItems items) ++ [']'])
  | .object fields =>
    '{' :: ([','].intercalate ((JsValue.sortByKey (canonicalFields fields)).map (fun p => jsonString p.1 ++ ':' :: p.2))
      ++ ['}'])

def canonicalItems : List Json → List (List Char)
  | [] => []
  | v :: items => canonicalFragment v :: canonicalItems items

def canonicalFields : List (String × Json) → List (String × List Char)
  | [] => []
  | (k, v) :: fields => (k, canonicalFragment v) :: canonicalFields fields

end

def unsignedEnvelope : Json → Json
  | .object fields => .object (fields.filter (fun p => p.1 ≠ "signatures"))
  | v => v

def canonicalizeUnsignedEnvelope (envelope : Json) : String :=
  String.ofList (canonicalFragment (unsignedEnvelope envelope))

def canonicalizeMemoryEnvelopeV2 (input : Json) : Except (List V2ValidationIssue) String := do
  return canonicalizeUnsignedEnvelope (← parseMemoryEnvelopeV2 input)

end Premise.Protocol.V2Document
