import Premise.Protocol.Envelope

/-!
# Events

What `validateV2Event` finds in a document, and `parseV2Event`.
-/

namespace Premise.Protocol

open Js

def eventFields : List String :=
  ["specVersion", "tenantId", "eventId", "operationId", "idempotencyKey", "requestDigest", "type",
    "occurredAt", "memoryId", "payload"]

def eventsWithMemory : List String :=
  ["MemoryRegistered", "MemoryDerived", "MemoryStaled", "MemoryInvalidated", "MemoryRevalidated",
    "MemoryReplaced", "ConflictDetected", "ConflictResolved", "MemoryMigrated"]

def eventTypes : List String := "SourceChanged" :: eventsWithMemory

def isText (p : String → Bool) : Option Json → Bool
  | some (.string s) => p s
  | _ => false

def isRecord : Option Json → Bool
  | some (.object _) => true
  | _ => false

def rejectUnknown (fields : List (String × Json)) (allowed : List String) : List V2ValidationIssue :=
  fields.flatMap (fun p => flag (decide (p.1 ∉ allowed)) ("$." ++ p.1) "is not a permitted field")

def validateV2Event : Json → List V2ValidationIssue
  | .object fields =>
    let input : String → Option Json := fun key => (Json.object fields).field key
    rejectUnknown fields eventFields
      ++ flag (!isText (fun s => s == "premise/2") (input "specVersion")) "$.specVersion"
        "must equal premise/2"
      ++ flag (!isText isTenantId (input "tenantId")) "$.tenantId"
        "must be a non-empty tenant id without surrounding whitespace"
      ++ flag (!isText isNonEmptyString (input "eventId")) "$.eventId" "must be a non-empty string"
      ++ flag (!isText isNonEmptyString (input "operationId")) "$.operationId"
        "must be a non-empty string"
      ++ flag (!isText isNonEmptyString (input "idempotencyKey")) "$.idempotencyKey"
        "must be a non-empty string"
      ++ flag (!isText isDigest (input "requestDigest")) "$.requestDigest"
        "must use the sha256: digest prefix and a non-empty digest"
      ++ flag (!isText (fun s => eventTypes.contains s) (input "type")) "$.type"
        "must be a supported v2 event type"
      ++ flag (!isText isDateTime (input "occurredAt")) "$.occurredAt"
        "must be an ISO date-time string"
      ++ flag ((input "memoryId").isSome && !isText isNonEmptyString (input "memoryId")) "$.memoryId"
        "must be a non-empty string when present"
      ++ flag (isText (fun s => eventsWithMemory.contains s) (input "type")
          && !isText isNonEmptyString (input "memoryId")) "$.memoryId"
        "is required for this event type"
      ++ flag (!isRecord (input "payload")) "$.payload" "must be an object"
  | _ => [⟨"$", "must be an object"⟩]

/-- `parseV2Event(input)`: the issues are those that the `V2EnvelopeValidationError` carries. -/
def parseV2Event (input : Json) : Except (List V2ValidationIssue) Json :=
  if validateV2Event input = [] then .ok input else .error (validateV2Event input)

theorem parseV2Event_valid {input : Json} (h : validateV2Event input = []) : parseV2Event input = .ok input := if_pos h

end Premise.Protocol
