import Premise.Control.System
import Premise.RuntimeCore.Mutations

/-!
# Signals

The reverse indexes find the memories that a source change affects, and these become `STALE`.
-/

namespace Premise.RuntimeCore

open Collections Control FrontierEngine Js Protocol

def InMemoryRuntimeStore.list (s : InMemoryRuntimeStore) : List RuntimeRecord := s.records.values

structure RuntimeSourceChange where
  sourceUri : String
  version : VersionReference
  eventId : Option String := none
  observation : Option (List (String × Json)) := none

namespace RuntimeSourceChange

/-- `sourceChangePayload(change)`. -/
def payload (change : RuntimeSourceChange) : List (String × Json) :=
  [("sourceUri", .string change.sourceUri), ("version", change.version.document)]
    ++ Json.optional "observation" (change.observation.map .object)

def document (change : RuntimeSourceChange) : Json :=
  .object (change.payload ++ optionalText "eventId" change.eventId)

def key (change : RuntimeSourceChange) : String :=
  change.eventId.getD
    ("source:" ++ change.sourceUri ++ ":" ++ change.version.scheme ++ ":" ++ change.version.token)

end RuntimeSourceChange

/-- The changes, of which equal ones are one. -/
def uniqueChanges (changes : List RuntimeSourceChange) : List RuntimeSourceChange :=
  (OrderedMap.ofList (changes.map (fun change => (change.document.sorted, change)))).values

namespace PremiseRuntime

variable {P K : Type} (host : RuntimeHost) (o : RuntimeOptions P K)

/-! ## Indexes -/

/-- `orderedIds(ids)`: a missing order counts as `Number.MAX_SAFE_INTEGER`. -/
def orderedIds (w : RuntimeState) (ids : List String) : List String :=
  ids.insertionSort (fun left right =>
    (w.recordOrder.get? left).getD 9007199254740991 ≤ (w.recordOrder.get? right).getD 9007199254740991)

/-- `new IncrementalFrontierEngine(nodes)`, where `none` is a throw. -/
def newFrontier (records : List RuntimeRecord) : Option IncrementalFrontierEngine :=
  (IncrementalFrontierEngine.create host.maxFrontierWork (records.map (fun record =>
    ⟨record.envelope.memoryId, record.envelope.dependsOn⟩))).toOption

/-- The engine for the records of a store; an empty one that knows nothing when anything throws. -/
def rebuiltFrontier (records : List RuntimeRecord) : Option IncrementalFrontierEngine :=
  let tenantRecords := records.filter (fun record => decide (record.envelope.tenantId = o.tenantId))
  let knownIds := tenantRecords.map (fun record => record.envelope.memoryId)
  let states := tenantRecords.map (fun record =>
    (record.envelope.memoryId, frontierStatus record.envelope.validity.status))
  let restored := (newFrontier host tenantRecords).bind (fun engine =>
    match engine.restoreStates states with
    | (engine, .ok ()) => some engine
    | (_, .error _) => none)
  match restored with
  | none => (newFrontier host []).map IncrementalFrontierEngine.markUnknown
  | some engine =>
    if tenantRecords.any (fun record => record.envelope.dependsOn.any (fun id => decide (id ∉ knownIds)))
    then some engine.markUnknown else some engine

/-- `rebuildIndexes()`. -/
def rebuildIndexes (w : RuntimeState) : RuntimeState :=
  let cleared := { w with
    sourceMemoryIds := ∅
    dependentsByDependency := ∅
    recordOrder := ∅
    nextRecordOrder := 0
    frontierEngine := w.frontierEngine.bind (fun _ => rebuiltFrontier host o w.store.list) }
  { w.store.list.foldl (fun w record => indexed o record w) cleared with
    indexedStoreRevision := some w.store.revision }

def refreshIndexesIfStoreChanged : RuntimeCommand Unit :=
  .update (fun w => if w.indexedStoreRevision = some w.store.revision then w else rebuildIndexes host o w)

/-- `new PremiseRuntime(options)` over a store. -/
def opened (store : InMemoryRuntimeStore) : RuntimeState :=
  rebuildIndexes host o
    { store, frontierEngine := if o.incrementalFrontier then newFrontier host [] else none }

/-- The memories that depend on one, in the order of the records. -/
def dependents (w : RuntimeState) (memoryId : String) : List String :=
  orderedIds w ((w.dependentsByDependency.get? memoryId).getD ∅).elems

/-- All memories that depend on one. -/
def allDependents (w : RuntimeState) : List String := w.dependentsByDependency.values.flatMap OrderedSet.elems

def dependentClosure (w : RuntimeState) (seeds : List String) : List String :=
  (Graph.closure (dependents w) ((unique seeds).length + (allDependents w).length + 1) (unique seeds)).elems

/-- `affectedBySourceChange(direct)`: an answer that is not complete is not used. -/
def affectedBySourceChange (direct : List String) : RuntimeCommand (List String) := fun w =>
  match w.frontierEngine with
  | none => (w, .ok (dependentClosure w direct))
  | some engine =>
    match engine.markDirty direct .stale with
    | (engine, .ok impact) =>
      if impact.frontierComplete then
        ({ w with frontierEngine := some engine }, .ok (orderedIds w impact.affected))
      else ({ w with frontierEngine := some engine.markUnknown }, .ok (dependentClosure w direct))
    | (engine, .error _) =>
      ({ w with frontierEngine := some engine.markUnknown }, .ok (dependentClosure w direct))

/-! ## Signals -/

/-- `withStatus(envelope, status)`. -/
def withStatus (envelope : MemoryEnvelopeV2) (status : V2MemoryStatus) : RuntimeCommand MemoryEnvelopeV2 := do
  let checkedAt ← now host
  .lift (parseMemoryEnvelopeV2 { envelope with validity := { envelope.validity with status, checkedAt } })

/-- The key of a stale event is made of the events of the changes. -/
def staleKey (sourceEvents : List V2Event) (memoryId : String) : String :=
  ":".intercalate (sourceEvents.map V2Event.eventId) ++ ":stale:" ++ memoryId

/-- One round of the loop over the affected memories. -/
def staleRecord (payload : List (String × Json)) (sourceEvents : List V2Event) (memoryId : String) :
    RuntimeCommand Unit := do
  match (← stored memoryId) with
  | none => return ()
  | some record =>
    invalidateRecordReceipts host o record
    if record.envelope.tenantId ≠ o.tenantId ∨ record.envelope.validity.status = .invalid
        ∨ record.envelope.validity.status = .stale then return ()
    let envelope ← withStatus host record.envelope .stale
    let staleEvent ← emit host o .memoryStaled (some memoryId) payload (staleKey sourceEvents memoryId) false
      (.object payload)
    persistRecordAndEvent host o { record with envelope } staleEvent

def emitSourceChanged (change : RuntimeSourceChange) : RuntimeCommand V2Event :=
  emit host o .sourceChanged none change.payload change.key true (.object change.payload)

/-- The memories that cite one of the sources. -/
def directIds (changes : List RuntimeSourceChange) (w : RuntimeState) : List String :=
  orderedIds w (unique (changes.flatMap (fun change => ((w.sourceMemoryIds.get? change.sourceUri).getD ∅).elems)))

/-- The changes as one traversal. -/
def propagate (changes : List RuntimeSourceChange) (payload : List (String × Json)) :
    RuntimeCommand (List String) := do
  refreshIndexesIfStoreChanged host o
  let sourceEvents ← Command.mapEach (emitSourceChanged host o) changes
  let direct ← .read (directIds changes)
  let affected ← affectedBySourceChange direct
  .forEach (staleRecord host o payload sourceEvents) affected
  syncStoreRevision
  return affected

/-- `signalSourcesChanged(changes)`, and `signalSingleSourceChanged(change)` of a single one. -/
def signalSourcesChanged (changes : List RuntimeSourceChange) : RuntimeCommand (List String) := do
  if changes = [] then return []
  .rejectIf (∃ change ∈ changes, change.sourceUri = "") (.typeError "sourceUri must be non-empty")
  match uniqueChanges changes with
  | [change] => propagate host o [change] change.payload
  | changes =>
    propagate host o changes [("changes", .array (changes.map (fun change => .object change.payload)))]

/-! ## Runs -/

inductive RuntimeStep
  | mutation (eventId : Option String) (call : MutationCall)
  | signal (changes : List RuntimeSourceChange)
  /-- Another writer writes to the store. -/
  | write (call : InMemoryRuntimeStore.StoreCall)

def RuntimeStep.perform (w : RuntimeState) : RuntimeStep → RuntimeState
  | .mutation eventId call => (call.perform host o eventId w).1
  | .signal changes => (signalSourcesChanged host o changes w).1
  | .write call => { w with store := call.run w.store }

/-- A runtime that is opened on what other writers have written. -/
def runtimeSystem : System RuntimeState RuntimeStep where
  init w := ∃ calls : List InMemoryRuntimeStore.StoreCall,
    w = opened host o (calls.foldl InMemoryRuntimeStore.StoreCall.run {})
  step w i w' := w' = i.perform host o w

/-- A mutation is called when no one else has written to the store since the runtime looked at it. -/
def InStep (w : RuntimeState) : RuntimeStep → RuntimeState → Prop
  | .mutation _ _, _ => w.indexedStoreRevision = some w.store.revision
  | _, _ => True

/-! ## What a signal does -/

/-- What a record names: the sources that it cites, and the memories that it depends on. -/
inductive Link
  | source
  | dependency

def Link.keys : Link → RuntimeRecord → List String
  | .source, record => record.envelope.evidence.map EvidenceReference.sourceUri
  | .dependency, record => record.envelope.dependsOn

def Linked (s : InMemoryRuntimeStore) (link : Link) (id key : String) : Prop :=
  ∃ record, s.get id = some record ∧ record.envelope.tenantId = o.tenantId ∧ key ∈ link.keys record

/-- A memory that cites one of the sources, or depends on such a one, directly or through others. -/
def Affected (changes : List RuntimeSourceChange) (s : InMemoryRuntimeStore) (id : String) : Prop :=
  ∃ root, (∃ change ∈ changes, Linked o s .source root change.sourceUri) ∧
    Relation.ReflTransGen (fun dependency id => Linked o s .dependency id dependency) root id

/-- A record that is neither `STALE` nor `INVALID` becomes `STALE`. -/
def Staled (record record' : RuntimeRecord) : Prop :=
  if record.envelope.validity.status = .invalid ∨ record.envelope.validity.status = .stale then record' = record
  else ∃ checkedAt, record' = { record with
    envelope := { record.envelope with validity := { record.envelope.validity with status := .stale, checkedAt } } }

/-- Exactly the affected memories of the tenant become `STALE`, and these are the answer. -/
structure Propagates (changes : List RuntimeSourceChange) (s s' : InMemoryRuntimeStore) (affected : List String) :
    Prop where
  answer : ∀ id, id ∈ affected ↔ Affected o changes s id
  staled : ∀ id ∈ affected, ∃ record record',
    s.get id = some record ∧ s'.get id = some record' ∧ Staled record record'
  others : ∀ id, id ∉ affected → s'.get id = s.get id

end PremiseRuntime

end Premise.RuntimeCore
