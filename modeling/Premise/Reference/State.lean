import Premise.FrontierEngine.Engine
import Premise.Graph.Search
import Premise.Graph.Topological
import Premise.Protocol.MemoryEnvelope

/-!
# `DependencyGraph` of the reference implementation

Two adjacency maps: the dependencies of the nodes, and their dependents.
-/

namespace Premise.Reference

open Collections Js FrontierEngine

structure DependencyGraph where
  dependencies : Adjacency := ∅
  dependents : Adjacency := ∅

namespace DependencyGraph

def ensureNode (g : DependencyGraph) (nodeId : String) : DependencyGraph where
  dependencies := if g.dependencies.has nodeId then g.dependencies else g.dependencies.set nodeId ∅
  dependents := if g.dependents.has nodeId then g.dependents else g.dependents.set nodeId ∅

def addNode (g : DependencyGraph) (nodeId : String) : Except JsError DependencyGraph :=
  if nodeId = "" then .error (.typeError "nodeId must be non-empty") else .ok (g.ensureNode nodeId)

def dependenciesOf (g : DependencyGraph) (nodeId : String) : List String :=
  sortStrings (g.dependencies.neighbours nodeId)

def hasPath (g : DependencyGraph) (start target : String) : Bool :=
  Graph.reaches g.dependenciesOf (g.dependencies.edgeCount + 2) start target

/-- `new DependencyCycleError(nodeId, dependencyId)`. -/
def dependencyCycleError (nodeId dependencyId : String) : JsError :=
  .error ("Adding " ++ nodeId ++ " -> " ++ dependencyId ++ " would create a dependency cycle")

/-- The loop of `setDependencies` that looks for cycles. -/
def checkDependencies (g : DependencyGraph) (nodeId : String) (nodeWasKnown : Bool) :
    List String → Except JsError Unit
  | [] => .ok ()
  | dependencyId :: rest =>
    if dependencyId = "" then .error (.typeError "dependencyId must be non-empty")
    else if nodeId = dependencyId ∨ (nodeWasKnown ∧ g.hasPath dependencyId nodeId) then
      .error (dependencyCycleError nodeId dependencyId)
    else checkDependencies g nodeId nodeWasKnown rest

/-- `this.dependents.get(oldDependency)?.delete(nodeId)`. -/
def unlink (nodeId : String) (dependents : Adjacency) (oldDependency : String) : Adjacency :=
  match dependents.get? oldDependency with
  | none => dependents
  | some ids => dependents.set oldDependency (ids.erase nodeId)

def clearDependencies (g : DependencyGraph) (nodeId : String) : DependencyGraph where
  dependencies := g.dependencies.set nodeId ∅
  dependents := (g.dependencies.neighbours nodeId).foldl (unlink nodeId) g.dependents

def link (nodeId : String) (g : DependencyGraph) (dependencyId : String) : DependencyGraph where
  dependencies := (g.ensureNode dependencyId).dependencies.addEdge nodeId dependencyId
  dependents := (g.ensureNode dependencyId).dependents.addEdge dependencyId nodeId

def setDependencies (g : DependencyGraph) (nodeId : String) (dependencyIds : List String) :
    DependencyGraph × Except JsError Unit :=
  let nodeWasKnown := g.dependencies.has nodeId
  match g.addNode nodeId with
  | .error err => (g, .error err)
  | .ok g =>
    let next := sortStrings (unique dependencyIds)
    match g.checkDependencies nodeId nodeWasKnown next with
    | .error err => (g, .error err)
    | .ok () => (next.foldl (link nodeId) (g.clearDependencies nodeId), .ok ())

end DependencyGraph

/-!
# `MemoryStateStore`

Memories with their cached statuses. Every operation gets the instant that the clock shows during it, in
milliseconds; it is `none` when the clock shows no date. An operation returns the store as it leaves it,
also when it throws.
-/

open Protocol.V1

structure MemoryState where
  memoryId : String
  envelope : MemoryEnvelope
  status : MemoryStatus
deriving DecidableEq

structure UsabilityReportItem where
  memoryId : String
  status : MemoryStatus
  decision : UsabilityDecision
deriving DecidableEq

structure StatusChange where
  state : MemoryState
  previousStatus : MemoryStatus
deriving DecidableEq

structure StateRecord where
  envelope : MemoryEnvelope
  baseStatus : MemoryStatus
  status : MemoryStatus
  directlyInvalid : Bool
  ttlExpired : Bool
  expiresAtMs : Option Int
deriving DecidableEq

namespace StateRecord

def isTtl (r : StateRecord) : Bool := decide (r.envelope.validity.policy = .ttl)

/-- `now >= expiresAtMs`. -/
def expired (r : StateRecord) (now : Option Int) : Bool :=
  r.expiresAtMs.any (fun expiresAtMs => now.any (fun now => decide (expiresAtMs ≤ now)))

def own (r : StateRecord) : MemoryStatus :=
  if r.directlyInvalid then .invalid
  else if r.ttlExpired ∧ r.baseStatus = .fresh then .stale
  else r.baseStatus

end StateRecord

def expiresAtOf (envelope : MemoryEnvelope) : Option Int :=
  if envelope.validity.policy = .ttl then envelope.validity.expiresAt.bind dateParse else none

def createRecord (envelope : MemoryEnvelope) : StateRecord where
  envelope := envelope
  baseStatus := envelope.validity.status
  status := envelope.validity.status
  directlyInvalid := decide (envelope.validity.status = .invalid)
  ttlExpired := false
  expiresAtMs := expiresAtOf envelope

structure MemoryStateStore where
  graph : DependencyGraph := {}
  records : OrderedMap String StateRecord := ∅
  sourceIndex : Adjacency := ∅
  ttlRecordCount : Int := 0

namespace MemoryStateStore

def unknownMemory (memoryId : String) : JsError := .error ("Unknown memory: " ++ memoryId)

def indexSources (s : MemoryStateStore) (envelope : MemoryEnvelope) : MemoryStateStore :=
  { s with
      sourceIndex := (envelope.provenance.getD []).foldl
        (fun index source => index.addEdge source.sourceUri envelope.memoryId) s.sourceIndex }

def unindexSources (s : MemoryStateStore) (envelope : MemoryEnvelope) : MemoryStateStore :=
  { s with
      sourceIndex := (envelope.provenance.getD []).foldl
        (fun index source =>
          match index.get? source.sourceUri with
          | none => index
          | some memoryIds =>
            if (memoryIds.erase envelope.memoryId).size = 0 then index.erase source.sourceUri
            else index.set source.sourceUri (memoryIds.erase envelope.memoryId)) s.sourceIndex }

def memoryIdsForSource (s : MemoryStateStore) (sourceUri : String) : List String :=
  sortStrings (s.sourceIndex.neighbours sourceUri)

def stateOf (s : MemoryStateStore) (memoryId : String) : Option MemoryState :=
  (s.records.get? memoryId).map (fun r => ⟨memoryId, r.envelope, r.status⟩)

def setRecord (s : MemoryStateStore) (memoryId : String) (r : StateRecord) : MemoryStateStore :=
  { s with records := s.records.set memoryId r }

/-- The number of rounds that a search from `memoryIds` takes at most. -/
def rounds (s : MemoryStateStore) (memoryIds : List String) : Nat :=
  memoryIds.length + s.graph.dependencies.size + 1

def collectDependents (s : MemoryStateStore) (memoryIds : List String) : OrderedSet String :=
  Graph.closure s.graph.dependents.neighbours (s.rounds memoryIds) memoryIds

def collectDependencies (s : MemoryStateStore) (memoryIds : List String) : OrderedSet String :=
  Graph.closure s.graph.dependencies.neighbours (s.rounds memoryIds) memoryIds

/-- `nowFor(memoryIds)`: the clock is read if there is a TTL memory among them. -/
def nowFor (s : MemoryStateStore) (clock : Option Int) (memoryIds : List String) :
    Option (Option Int) :=
  if s.ttlRecordCount = 0 then none
  else if memoryIds.any (fun id => (s.records.get? id).any StateRecord.isTtl) then some clock
  else none

def combine (status dependencyStatus : MemoryStatus) : MemoryStatus :=
  if status = .invalid then status
  else if dependencyStatus = .invalid then .invalid
  else if dependencyStatus = .unknown then .unknown
  else if dependencyStatus = .stale ∧ status = .fresh then .stale
  else status

def dependencyStatus (s : MemoryStateStore) (dependencyId : String) : MemoryStatus :=
  ((s.records.get? dependencyId).map StateRecord.status).getD .unknown

def recompute (s : MemoryStateStore) (clock : Option Int) (nowMs : Option (Option Int))
    (memoryId : String) : MemoryStateStore :=
  match s.records.get? memoryId with
  | none => s
  | some r =>
    let r := if r.isTtl then { r with ttlExpired := r.expired (nowMs.getD clock) } else r
    let status :=
      if r.own ≠ .invalid then
        (s.graph.dependencies.neighbours memoryId).foldl
          (fun status dependencyId => combine status (s.dependencyStatus dependencyId)) r.own
      else r.own
    s.setRecord memoryId { r with status := status }

def recomputeSet (s : MemoryStateStore) (clock : Option Int) (memoryIds : OrderedSet String)
    (nowMs : Option (Option Int)) : MemoryStateStore × Except JsError Unit :=
  if memoryIds.size = 0 then (s, .ok ())
  else
    let updated := Graph.updateInOrder s.graph.dependencies.neighbours s.graph.dependents.neighbours
      (fun s id => s.recompute clock nowMs id) memoryIds s
    if updated.1 ≠ memoryIds.size then (updated.2, .error (.error "Dependency graph contains a cycle"))
    else (updated.2, .ok ())

/-! ## Operations -/

def addRecord (s : MemoryStateStore) (envelope : MemoryEnvelope) : MemoryStateStore :=
  { s.setRecord envelope.memoryId (createRecord envelope) with
      ttlRecordCount := s.ttlRecordCount + if envelope.validity.policy = .ttl then 1 else 0 }

/-- `this.stateOf(memoryId)!`, as what an operation returns. -/
def returnState (s : MemoryStateStore) (memoryId : String) :
    MemoryStateStore × Except JsError MemoryState :=
  match s.stateOf memoryId with
  | none => (s, .error (unknownMemory memoryId))
  | some state => (s, .ok state)

/-- `register(input)`. Two envelopes are equal when their texts are. -/
def register (s : MemoryStateStore) (input : MemoryEnvelope) :
    MemoryStateStore × Except JsError MemoryState :=
  match parseMemoryEnvelope input with
  | .error err => (s, .error err)
  | .ok envelope =>
    match s.records.get? envelope.memoryId with
    | some existing =>
      if existing.envelope = envelope then s.returnState envelope.memoryId
      else (s, .error (.error ("Memory already registered: " ++ envelope.memoryId)))
    | none =>
      if envelope.dependsOn ≠ [] then
        (s, .error (.error "Use derive() for envelopes with dependencies"))
      else
        match s.graph.addNode envelope.memoryId with
        | .error err => (s, .error err)
        | .ok graph =>
          (({ s with graph := graph }.addRecord envelope).indexSources envelope).returnState
            envelope.memoryId

def derive (s : MemoryStateStore) (clock : Option Int) (input : MemoryEnvelope) :
    MemoryStateStore × Except JsError MemoryState :=
  match parseMemoryEnvelope input with
  | .error err => (s, .error err)
  | .ok envelope =>
    if s.records.has envelope.memoryId then
      (s, .error (.error ("Memory already registered: " ++ envelope.memoryId)))
    else if envelope.dependsOn = [] then
      (s, .error (.error "derive() requires at least one dependency"))
    else if envelope.memoryId ∈ envelope.dependsOn then
      (s, .error (DependencyGraph.dependencyCycleError envelope.memoryId envelope.memoryId))
    else
      match envelope.dependsOn.find? (fun dependencyId => !s.records.has dependencyId) with
      | some dependencyId => (s, .error (.error ("Unknown dependency: " ++ dependencyId)))
      | none =>
        match s.graph.setDependencies envelope.memoryId envelope.dependsOn with
        | (graph, .error err) => ({ s with graph := graph }, .error err)
        | (graph, .ok ()) =>
          let s := ({ s with graph := graph }.addRecord envelope).indexSources envelope
          let s := s.recompute clock (s.nowFor clock [envelope.memoryId]) envelope.memoryId
          s.returnState envelope.memoryId

def replaceRecord (current : StateRecord) (envelope : MemoryEnvelope) : StateRecord :=
  { current with
      envelope := envelope
      baseStatus := envelope.validity.status
      directlyInvalid := decide (envelope.validity.status = .invalid)
      ttlExpired := false
      expiresAtMs := expiresAtOf envelope }

def recomputeAffected (s : MemoryStateStore) (clock : Option Int) (memoryId : String) :
    MemoryStateStore × Except JsError Unit :=
  let affected := s.collectDependents [memoryId]
  s.recomputeSet clock affected (s.nowFor clock affected.elems)

/-- The store with the record replaced, before the statuses are computed. -/
def putReplacement (s : MemoryStateStore) (current : StateRecord) (envelope : MemoryEnvelope) :
    MemoryStateStore :=
  let currentIsTtl := current.isTtl
  let nextIsTtl := decide (envelope.validity.policy = .ttl)
  let s := (s.unindexSources current.envelope).setRecord envelope.memoryId
    (replaceRecord current envelope)
  let s := { s with ttlRecordCount := s.ttlRecordCount +
    if currentIsTtl ≠ nextIsTtl then (if nextIsTtl then 1 else -1) else 0 }
  s.indexSources envelope

/-- What `replace(input)` does once the graph is changed. -/
def replaceWith (s : MemoryStateStore) (clock : Option Int) (current : StateRecord)
    (envelope : MemoryEnvelope) : MemoryStateStore × Except JsError MemoryState :=
  match (s.putReplacement current envelope).recomputeAffected clock envelope.memoryId with
  | (s, .error err) => (s, .error err)
  | (s, .ok ()) => s.returnState envelope.memoryId

def replace (s : MemoryStateStore) (clock : Option Int) (input : MemoryEnvelope) :
    MemoryStateStore × Except JsError MemoryState :=
  match parseMemoryEnvelope input with
  | .error err => (s, .error err)
  | .ok envelope =>
    match s.records.get? envelope.memoryId with
    | none => (s, .error (unknownMemory envelope.memoryId))
    | some current =>
      match envelope.dependsOn.find? (fun dependencyId => !s.records.has dependencyId) with
      | some dependencyId => (s, .error (.error ("Unknown dependency: " ++ dependencyId)))
      | none =>
        match s.graph.setDependencies envelope.memoryId envelope.dependsOn with
        | (graph, .error err) => ({ s with graph := graph }, .error err)
        | (graph, .ok ()) => { s with graph := graph }.replaceWith clock current envelope

/-- The status that a memory gets from `markStatusesWithPrevious`. -/
def nextStatus (r : StateRecord) (status : MemoryStatus) : MemoryStatus :=
  if r.directlyInvalid ∧ status ≠ .invalid then .invalid else status

def markRecord (status : MemoryStatus) (s : MemoryStateStore) (memoryId : String) :
    MemoryStateStore :=
  match s.records.get? memoryId with
  | none => s
  | some r => s.setRecord memoryId
    { r with
        baseStatus := nextStatus r status
        directlyInvalid := r.directlyInvalid || decide (nextStatus r status = .invalid) }

def changesOf (before after : MemoryStateStore) (affected : OrderedSet String) : List StatusChange :=
  (sortStrings affected.elems).filterMap (fun id => (after.stateOf id).bind (fun state =>
    (before.stateOf id).map (fun previous => ⟨state, previous.status⟩)))

def markStatusesWithPrevious (s : MemoryStateStore) (clock : Option Int) (memoryIds : List String)
    (status : MemoryStatus) : MemoryStateStore × Except JsError (List StatusChange) :=
  let roots := unique memoryIds
  match roots.find? (fun memoryId => !s.records.has memoryId) with
  | some memoryId => (s, .error (unknownMemory memoryId))
  | none =>
    let alreadyStale := roots.all (fun memoryId => (s.records.get? memoryId).any (fun r =>
      decide (nextStatus r status = .stale ∧ r.status = .stale)))
    let marked := roots.foldl (markRecord status) s
    let affected := marked.collectDependents roots
    let nowMs := marked.nowFor clock affected.elems
    if !alreadyStale || nowMs.isSome then
      match marked.recomputeSet clock affected nowMs with
      | (s', .error err) => (s', .error err)
      | (s', .ok ()) => (s', .ok (changesOf s s' affected))
    else (marked, .ok (changesOf s marked affected))

/-- One memory in the loop of `check`: the store, and the memories whose expiry has changed. -/
def checkExpiry (nowMs : Option Int) (p : MemoryStateStore × List String) (memoryId : String) :
    MemoryStateStore × List String :=
  match p.1.records.get? memoryId with
  | none => p
  | some r =>
    if r.isTtl ∧ r.ttlExpired ≠ r.expired nowMs then
      (p.1.setRecord memoryId { r with ttlExpired := r.expired nowMs }, p.2 ++ [memoryId])
    else p

/-- The report of `check`. -/
def report (s : MemoryStateStore) (memoryIds : List String) : List UsabilityReportItem :=
  memoryIds.filterMap (fun memoryId => (s.stateOf memoryId).map (fun state =>
    ⟨memoryId, state.status, usabilityForStatus state.status⟩))

def check (s : MemoryStateStore) (clock : Option Int) (memoryIds : List String) :
    MemoryStateStore × Except JsError (List UsabilityReportItem) :=
  match memoryIds.find? (fun memoryId => !s.records.has memoryId) with
  | some memoryId => (s, .error (unknownMemory memoryId))
  | none =>
    if s.ttlRecordCount = 0 then (s, .ok (s.report memoryIds))
    else
      let dependencyClosure := s.collectDependencies memoryIds
      match s.nowFor clock dependencyClosure.elems with
      | none => (s, .ok (s.report memoryIds))
      | some nowMs =>
        let checked := dependencyClosure.elems.foldl (checkExpiry nowMs) (s, [])
        if checked.2 = [] then (checked.1, .ok (checked.1.report memoryIds))
        else
          match checked.1.recomputeSet clock (checked.1.collectDependents checked.2) (some nowMs) with
          | (s', .error err) => (s', .error err)
          | (s', .ok ()) => (s', .ok (s'.report memoryIds))

end MemoryStateStore

end Premise.Reference
