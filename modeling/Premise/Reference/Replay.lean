import Premise.Collections.OrderedMap
import Premise.Control.Loop
import Premise.Protocol.MemoryEnvelope

/-!
# Events

`PremiseEvent`, what `validatePremiseEvent` finds in an event of the right shape, and the journal.
-/

namespace Premise.Reference

open Js Protocol Protocol.V1

/-- The type of an event with its memory and its payload. -/
inductive EventBody
  | memoryRegistered (memoryId : String) (envelope : MemoryEnvelope)
  | memoryDerived (memoryId : String) (dependsOn : List String)
  | sourceChanged (sourceUri : String) (version : VersionReference)
  | memoryStaled (memoryId : String) (reason : String)
  | memoryInvalidated (memoryId : String) (reason : String)
  | memoryRevalidated (memoryId : String) (result : ValidatorResult) (status : MemoryStatus)
      (version : Option VersionReference)
  | memoryReplaced (memoryId : String) (replacementMemoryId : String)
deriving DecidableEq

structure PremiseEvent where
  eventId : String
  occurredAt : String
  body : EventBody
deriving DecidableEq

/-- `event.memoryId`. -/
def EventBody.memoryId? : EventBody → Option String
  | .memoryRegistered memoryId _ => some memoryId
  | .memoryDerived memoryId _ => some memoryId
  | .sourceChanged _ _ => none
  | .memoryStaled memoryId _ => some memoryId
  | .memoryInvalidated memoryId _ => some memoryId
  | .memoryRevalidated memoryId _ _ _ => some memoryId
  | .memoryReplaced memoryId _ => some memoryId

def PremiseEvent.memoryId? (event : PremiseEvent) : Option String := event.body.memoryId?

def ValidatorResult.text : ValidatorResult → String
  | .unchanged => "UNCHANGED"
  | .changed => "CHANGED"
  | .missing => "MISSING"
  | .unknown => "UNKNOWN"

def MemoryStatus.text : MemoryStatus → String
  | .fresh => "FRESH"
  | .stale => "STALE"
  | .unknown => "UNKNOWN"
  | .invalid => "INVALID"

def envelopePath (path : String) : String := "$.payload.envelope" ++ String.ofList (path.toList.drop 1)

def validatePayload : EventBody → List ValidationIssue
  | .memoryRegistered memoryId envelope =>
    (validateMemoryEnvelope envelope).map (fun issue => ⟨envelopePath issue.path, issue.message⟩)
      ++ addIf (decide (envelope.memoryId ≠ memoryId)) "$.memoryId"
        "must match payload.envelope.memoryId"
  | .memoryDerived _ dependsOn =>
    addIf (dependsOn.isEmpty || !dependsOn.all isNonEmptyString || duplicated dependsOn)
      "$.payload.dependsOn" "must be a non-empty array of unique memory IDs"
  | .sourceChanged sourceUri version =>
    addIf (!isNonEmptyString sourceUri) "$.payload.sourceUri" "is required"
      ++ addIf (!isVersion version) "$.payload.version" "is required and must contain scheme/token"
  | .memoryStaled _ reason => addIf (!isNonEmptyString reason) "$.payload.reason" "is required"
  | .memoryInvalidated _ reason => addIf (!isNonEmptyString reason) "$.payload.reason" "is required"
  | .memoryRevalidated _ result status version =>
    addIf ((decide (result = .unchanged) || decide (result = .changed)) && !version.any isVersion)
        "$.payload.version" "is required for this validator result"
      ++ addIf (decide (status ≠ statusForResult result)) "$.payload.status"
        ("must be " ++ MemoryStatus.text (statusForResult result) ++ " for "
          ++ ValidatorResult.text result)
  | .memoryReplaced _ replacementMemoryId =>
    addIf (!isNonEmptyString replacementMemoryId) "$.payload.replacementMemoryId" "is required"

def validatePremiseEvent (input : PremiseEvent) : List ValidationIssue :=
  addIf (!isNonEmptyString input.eventId) "$.eventId" "must be a non-empty string"
    ++ addIf (!isDateTime input.occurredAt) "$.occurredAt" "must be an ISO date-time string"
    ++ addIf (input.memoryId?.any (fun memoryId => !isNonEmptyString memoryId)) "$.memoryId"
        "is required for this event type"
    ++ validatePayload input.body

def parsePremiseEvent (input : PremiseEvent) : Except JsError PremiseEvent :=
  if validatePremiseEvent input ≠ [] then
    .error (.error (issuesMessage "event" (validatePremiseEvent input)))
  else .ok input

/-- `EventJournal`. Its ids are those of its entries. -/
structure EventJournal where
  entries : List PremiseEvent := []

def EventJournal.append (journal : EventJournal) (input : PremiseEvent) :
    Except JsError EventJournal :=
  match parsePremiseEvent input with
  | .error err => .error err
  | .ok event =>
    if event.eventId ∈ journal.entries.map PremiseEvent.eventId then
      .error (.error ("Duplicate eventId: " ++ event.eventId))
    else .ok ⟨journal.entries ++ [event]⟩

/-!
# `replayEvents`

The replay of a list of events. Every event changes the direct status of a memory, or adds one; after it
the statuses of all memories are computed anew.
-/

open Collections Control

/-- A memory in the replay. -/
structure Replayed where
  direct : MemoryStatus
  status : MemoryStatus
  dependsOn : List String
deriving DecidableEq

abbrev Memories := OrderedMap String Replayed

structure Replay where
  memories : Memories := ∅
  history : OrderedMap String (List String) := ∅
  eventIds : OrderedSet String := ∅

def aggregate (statuses : List MemoryStatus) : MemoryStatus :=
  if .invalid ∈ statuses then .invalid
  else if .unknown ∈ statuses then .unknown
  else if .stale ∈ statuses then .stale
  else .fresh

namespace Memories

def statusOf (memories : Memories) (id : String) : MemoryStatus :=
  ((memories.get? id).map Replayed.status).getD .unknown

def dependenciesOf (memories : Memories) (id : String) : List String :=
  ((memories.get? id).map Replayed.dependsOn).getD []

def resolve (memories : Memories) (id : String) : Memories :=
  match memories.get? id with
  | none => memories
  | some memory => memories.set id
    { memory with status := aggregate (memory.direct :: memory.dependsOn.map memories.statusOf) }

/-- The sets of `recompute`. -/
structure Resolution where
  remaining : List String
  resolved : List String
  memories : Memories

def Resolution.ready (r : Resolution) : List String :=
  sortStrings (r.remaining.filter (fun id =>
    (r.memories.dependenciesOf id).all (fun dependency => decide (dependency ∈ r.resolved))))

def recomputeBody (r : Resolution) : Step Resolution (Except JsError Memories) :=
  if r.remaining = [] then .done (.ok r.memories)
  else if r.ready = [] then
    .done (.error (.error "Replay dependency graph contains a cycle or unknown dependency"))
  else .again
    { remaining := r.remaining.filter (fun id => decide (id ∉ r.ready))
      resolved := r.resolved ++ r.ready
      memories := r.ready.foldl resolve r.memories }

def recompute (memories : Memories) : Except JsError Memories :=
  (run recomputeBody (memories.size + 1) ⟨memories.keys, [], memories⟩).getD
    (.error (.error "Replay dependency graph contains a cycle or unknown dependency"))

/-- `requireMemory(memoryId)`, with what is done to the memory. -/
def withMemory (memories : Memories) (memoryId : String) (next : Replayed → Replayed) :
    Except JsError Memories :=
  match memories.get? memoryId with
  | none => .error (.error ("Replay event references unknown memory: " ++ memoryId))
  | some current => .ok (memories.set memoryId (next current))

/-- The `switch` on the type of an event. -/
def applyEvent (memories : Memories) : EventBody → Except JsError Memories
  | .memoryRegistered memoryId envelope =>
    if (memories.get? memoryId).any (fun current =>
      decide (current.direct ≠ envelope.validity.status ∨ current.dependsOn ≠ envelope.dependsOn))
    then .error (.error ("Conflicting replay registration: " ++ memoryId))
    else .ok (memories.set memoryId
      ⟨envelope.validity.status, envelope.validity.status, envelope.dependsOn⟩)
  | .memoryDerived memoryId dependsOn =>
    if dependsOn.any (fun dependency => !memories.has dependency) then
      .error (.error ("Replay derived event has unknown dependency: " ++ memoryId))
    else if (memories.get? memoryId).any (fun current => decide (current.dependsOn ≠ dependsOn)) then
      .error (.error ("Conflicting replay derivation: " ++ memoryId))
    else .ok (memories.set memoryId
      ⟨((memories.get? memoryId).map Replayed.direct).getD .fresh,
        ((memories.get? memoryId).map Replayed.status).getD .fresh, dependsOn⟩)
  | .memoryStaled memoryId _ => memories.withMemory memoryId (fun current =>
      if current.direct ≠ .invalid then { current with direct := .stale } else current)
  | .memoryInvalidated memoryId _ =>
    memories.withMemory memoryId (fun current => { current with direct := .invalid })
  | .memoryRevalidated memoryId result _ _ => memories.withMemory memoryId (fun current =>
      if current.direct = .invalid ∧ statusForResult result ≠ .invalid then current
      else { current with direct := statusForResult result })
  | .memoryReplaced memoryId _ =>
    memories.withMemory memoryId (fun current => { current with direct := .fresh })
  | .sourceChanged _ _ => .ok memories

end Memories

def Replay.record (r : Replay) (event : PremiseEvent) : OrderedMap String (List String) :=
  match event.memoryId? with
  | none => r.history
  | some memoryId =>
    r.history.set memoryId ((r.history.get? memoryId).getD [] ++ [event.eventId])

def Replay.step (r : Replay) (input : PremiseEvent) : Except JsError Replay := do
  let event ← parsePremiseEvent input
  if event.eventId ∈ r.eventIds then
    .error (.error ("Duplicate replay eventId: " ++ event.eventId))
  let memories ← r.memories.applyEvent event.body
  let memories ← memories.recompute
  return { memories := memories
           history := r.record event
           eventIds := r.eventIds.add event.eventId }

structure ReplayMemory where
  memoryId : String
  status : MemoryStatus
  dependsOn : List String
deriving DecidableEq

structure ReplaySnapshot where
  memories : List ReplayMemory
  history : List (String × List String)
  eventCount : Nat

/-- The records that are returned, in the order of their keys. -/
def Replay.snapshot (r : Replay) (eventCount : Nat) : ReplaySnapshot where
  memories := (sortStrings r.memories.keys).filterMap (fun id =>
    (r.memories.get? id).map (fun memory => ⟨id, memory.status, memory.dependsOn⟩))
  history := (sortStrings r.history.keys).filterMap (fun id =>
    (r.history.get? id).map (fun ids => (id, ids)))
  eventCount := eventCount

def replayEvents (inputs : List PremiseEvent) : Except JsError ReplaySnapshot :=
  (inputs.foldlM Replay.step {}).map (fun r => r.snapshot inputs.length)

end Premise.Reference
