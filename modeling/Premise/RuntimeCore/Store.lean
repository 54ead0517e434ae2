import Premise.Protocol.Event
import Premise.Protocol.Signatures

/-!
# The events of the runtime

An event as the runtime writes it, the compact metadata that stays of it, and what the runtime throws.
-/

namespace Premise.RuntimeCore

open Js Protocol

inductive RuntimeError
  | thrown (error : JsError)
  /-- A `V2EnvelopeValidationError` and its issues. -/
  | invalid (issues : List V2ValidationIssue)
  /-- A `V2SignatureVerificationError` and its issues. -/
  | signature (issues : List V2SignatureVerificationIssue)
deriving DecidableEq

namespace RuntimeError

def error (message : String) : RuntimeError := .thrown (.error message)

def typeError (message : String) : RuntimeError := .thrown (.typeError message)

end RuntimeError

inductive V2EventType
  | memoryRegistered
  | memoryDerived
  | sourceChanged
  | memoryStaled
  | memoryInvalidated
  | memoryRevalidated
  | memoryReplaced
  | conflictDetected
  | conflictResolved
  | memoryMigrated
deriving DecidableEq

def V2EventType.text : V2EventType → String
  | .memoryRegistered => "MemoryRegistered"
  | .memoryDerived => "MemoryDerived"
  | .sourceChanged => "SourceChanged"
  | .memoryStaled => "MemoryStaled"
  | .memoryInvalidated => "MemoryInvalidated"
  | .memoryRevalidated => "MemoryRevalidated"
  | .memoryReplaced => "MemoryReplaced"
  | .conflictDetected => "ConflictDetected"
  | .conflictResolved => "ConflictResolved"
  | .memoryMigrated => "MemoryMigrated"

structure V2Event where
  tenantId : String
  eventId : String
  operationId : String
  idempotencyKey : String
  requestDigest : String
  type : V2EventType
  occurredAt : String
  memoryId : Option String := none
  payload : List (String × Json)

namespace V2Event

def document (event : V2Event) : Json :=
  .object ([("specVersion", .string "premise/2"), ("tenantId", .string event.tenantId),
      ("eventId", .string event.eventId), ("operationId", .string event.operationId),
      ("idempotencyKey", .string event.idempotencyKey), ("requestDigest", .string event.requestDigest),
      ("type", .string event.type.text), ("occurredAt", .string event.occurredAt)]
    ++ optionalText "memoryId" event.memoryId ++ [("payload", .object event.payload)])

/-- `parseV2Event(event)`. -/
def parse (event : V2Event) : Except RuntimeError V2Event :=
  if validateV2Event event.document = [] then .ok event
  else .error (.invalid (validateV2Event event.document))

/-- What an event that is accepted looks like. -/
structure Valid (event : V2Event) : Prop where
  tenantId : isTenantId event.tenantId = true
  eventId : isNonEmptyString event.eventId = true
  operationId : isNonEmptyString event.operationId = true
  idempotencyKey : isNonEmptyString event.idempotencyKey = true
  requestDigest : isDigest event.requestDigest = true
  occurredAt : isDateTime event.occurredAt = true
  memoryId : event.memoryId.all isNonEmptyString = true
  about : event.type.text ∈ eventsWithMemory → event.memoryId.isSome

end V2Event

/-- What is kept of an event when the event is released. -/
structure RuntimeIdempotencyRecord where
  idempotencyKey : String
  tenantId : String
  eventId : String
  operationId : String
  requestDigest : String
  type : V2EventType
  occurredAt : String
  memoryId : Option String := none
deriving DecidableEq

def eventIdempotencyRecord (event : V2Event) : RuntimeIdempotencyRecord where
  idempotencyKey := event.idempotencyKey
  tenantId := event.tenantId
  eventId := event.eventId
  operationId := event.operationId
  requestDigest := event.requestDigest
  type := event.type
  occurredAt := event.occurredAt
  memoryId := event.memoryId

def sameEventIdentity (left right : RuntimeIdempotencyRecord) : Bool := decide (left = right)

/-- The event that `getEvent` makes of metadata: it has an empty payload. -/
def RuntimeIdempotencyRecord.event (metadata : RuntimeIdempotencyRecord) : V2Event where
  tenantId := metadata.tenantId
  eventId := metadata.eventId
  operationId := metadata.operationId
  idempotencyKey := metadata.idempotencyKey
  requestDigest := metadata.requestDigest
  type := metadata.type
  occurredAt := metadata.occurredAt
  memoryId := metadata.memoryId
  payload := []

@[simp] theorem eventIdempotencyRecord_event (metadata : RuntimeIdempotencyRecord) :
    eventIdempotencyRecord metadata.event = metadata := rfl

def conflictingKey (idempotencyKey : String) : RuntimeError :=
  .error ("Conflicting idempotency key: " ++ idempotencyKey)

/-!
# `InMemoryRuntimeStore`

The records, the events that are retained, and the metadata of every event whose key is known. A write that
is made of two writes can stop between them.
-/

open Collections Control

structure RuntimeRecord where
  envelope : MemoryEnvelopeV2
  content : Json

def RuntimeRecord.Same (left right : RuntimeRecord) : Prop :=
  left.envelope = right.envelope ∧ left.content.Same right.content

instance : DecidableRel RuntimeRecord.Same := fun _ _ => inferInstanceAs (Decidable (_ ∧ _ = _))

/-- `parseMemoryEnvelopeV2(input)`, for an input of the right shape. -/
def parseMemoryEnvelopeV2 (input : MemoryEnvelopeV2) : Except RuntimeError MemoryEnvelopeV2 :=
  if validateMemoryEnvelopeV2 input = [] then .ok input
  else .error (.invalid (validateMemoryEnvelopeV2 input))

structure InMemoryRuntimeStore where
  records : OrderedMap String RuntimeRecord := ∅
  events : OrderedMap String V2Event := ∅
  idempotency : OrderedMap String RuntimeIdempotencyRecord := ∅
  revision : Nat := 0

abbrev StoreCommand : Type → Type := Command InMemoryRuntimeStore RuntimeError

namespace InMemoryRuntimeStore

def get (s : InMemoryRuntimeStore) (memoryId : String) : Option RuntimeRecord := s.records.get? memoryId

def getEvent (s : InMemoryRuntimeStore) (idempotencyKey : String) : Option V2Event :=
  match s.events.get? idempotencyKey with
  | some event => some event
  | none => (s.idempotency.get? idempotencyKey).map RuntimeIdempotencyRecord.event

def setRecord (record : RuntimeRecord) (s : InMemoryRuntimeStore) : InMemoryRuntimeStore :=
  { s with records := s.records.set record.envelope.memoryId record, revision := s.revision + 1 }

def put (record : RuntimeRecord) : StoreCommand Unit := do
  let envelope ← .lift (parseMemoryEnvelopeV2 record.envelope)
  .update (setRecord { record with envelope })

def addEvent (event : V2Event) (s : InMemoryRuntimeStore) : InMemoryRuntimeStore :=
  { s with
    idempotency := s.idempotency.set event.idempotencyKey (eventIdempotencyRecord event)
    events := s.events.set event.idempotencyKey event }

def appendEvent (event : V2Event) : StoreCommand Unit := do
  let parsed ← .lift event.parse
  let existingMetadata ← .read (fun s => s.idempotency.get? parsed.idempotencyKey)
  match existingMetadata with
  | some existing =>
    .rejectIf (sameEventIdentity existing (eventIdempotencyRecord parsed) = false)
      (conflictingKey event.idempotencyKey)
  | none => do
    let existing ← .read (fun s => s.events.get? parsed.idempotencyKey)
    match existing with
    | some existing =>
      .rejectIf (existing.eventId ≠ parsed.eventId ∨ existing.requestDigest ≠ parsed.requestDigest)
        (conflictingKey event.idempotencyKey)
    | none => .update (addEvent parsed)

def putAndAppend (record : RuntimeRecord) (event : V2Event) : StoreCommand Unit := do
  put record
  appendEvent event

def unchanged (s : InMemoryRuntimeStore) (expected : RuntimeRecord) : Bool :=
  (s.records.get? expected.envelope.memoryId).any (fun current => decide (current.Same expected))

def putAndAppendIfUnchanged (expected record : RuntimeRecord) (event : V2Event) : StoreCommand Bool := do
  if (← .read (fun s => s.unchanged expected)) then
    putAndAppend record event
    return true
  else return false

/-- What a runtime calls to write to its store. -/
inductive StoreCall
  | put (record : RuntimeRecord)
  | appendEvent (event : V2Event)
  | putAndAppend (record : RuntimeRecord) (event : V2Event)
  | putAndAppendIfUnchanged (expected record : RuntimeRecord) (event : V2Event)

def StoreCall.run (s : InMemoryRuntimeStore) : StoreCall → InMemoryRuntimeStore
  | .put record => (InMemoryRuntimeStore.put record s).1
  | .appendEvent event => (InMemoryRuntimeStore.appendEvent event s).1
  | .putAndAppend record event => (InMemoryRuntimeStore.putAndAppend record event s).1
  | .putAndAppendIfUnchanged expected record event =>
    (InMemoryRuntimeStore.putAndAppendIfUnchanged expected record event s).1

end InMemoryRuntimeStore

end Premise.RuntimeCore
