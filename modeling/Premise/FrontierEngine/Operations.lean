import Premise.FrontierEngine.Engine

/-!
# `IncrementalFrontierEngine`: propagation and public operations

An operation returns the engine as it leaves it, also when it throws, next to its result or the
thrown error. The traversal counters of an impact are instrumentation and are left out.
-/

namespace Premise.FrontierEngine

open Collections Control Js

structure FrontierNode where
  id : String
  dependsOn : List String := []
deriving DecidableEq

structure FrontierImpact where
  generation : Nat
  affected : List String
  direct : List String
  frontierComplete : Bool
deriving DecidableEq

/-- `Unknown node: ${id}`. -/
def unknownNodeError (id : String) : JsError := .error ("Unknown node: " ++ id)

namespace IncrementalFrontierEngine

/-! ## Propagation -/

/-- The closure of one root as `affectedFromRoots` reads it. -/
def affectedOfRoot (e : IncrementalFrontierEngine) (root : String) :
    IncrementalFrontierEngine × List String :=
  let cached := e.affectedClosureCache.get? root
  let e := e.count
  match cached with
  | some nodes => (e, nodes)
  | none =>
    let nodes := ((e.dirtyNodesByRoot.get? root).getD ∅).elems
    (nodes.foldl (fun e _ => e.count) e, nodes)

/-- The loop of `affectedFromRoots`. -/
def collectAffected : List String → OrderedSet String → IncrementalFrontierEngine →
    IncrementalFrontierEngine × OrderedSet String
  | [], affected, e => (e, affected)
  | root :: roots, affected, e =>
    let (e, nodes) := e.affectedOfRoot root
    collectAffected roots ((affected.add root).addAll nodes) e

/-- Store the closure of one root, evicting the oldest entry of a full cache. -/
def cacheClosure (e : IncrementalFrontierEngine) (root : String) (result : List String) :
    IncrementalFrontierEngine :=
  let e :=
    if !e.affectedClosureCache.has root
        && decide (e.affectedClosureCache.size ≥ maxAffectedClosureCacheEntries) then
      match e.affectedClosureCache.keys with
      | [] => e
      | oldest :: _ => count { e with affectedClosureCache := e.affectedClosureCache.erase oldest }
    else e
  count { e with affectedClosureCache := e.affectedClosureCache.set root result }

def affectedFromRoots (e : IncrementalFrontierEngine) (roots : List String) :
    IncrementalFrontierEngine × List String :=
  match roots with
  | [root] =>
    let cached := e.affectedClosureCache.get? root
    let e := e.count
    match cached with
    | some result => (e, result)
    | none =>
      let (e, affected) := collectAffected [root] ∅ e
      let result := sortStrings affected.elems
      (e.cacheClosure root result, result)
  | roots =>
    let (e, affected) := collectAffected roots ∅ e
    (e, sortStrings affected.elems)

/-- The variables of `propagateDirty`; a queued node stands for its live roots. -/
structure PropagateState where
  affected : OrderedSet String
  queue : List String
  engine : IncrementalFrontierEngine

/-- The loop of `propagateDirty` over its seeds. -/
def propagateSeeds : List (String × FrontierStatus) → PropagateState → PropagateState
  | [], s => s
  | (id, value) :: rest, s =>
    if s.engine.frontierBudgetExceeded then s
    else
      let affected := s.affected.add id
      let (e, changed) := s.engine.mergeDirtyState id (OrderedMap.ofList [(id, value)])
      let queue := if changed then s.queue ++ [id] else s.queue
      let (e, known) := e.affectedFromRoots [id]
      propagateSeeds rest ⟨affected.addAll known, queue, e⟩

/-- The loop of `propagateDirty` over the sorted dependents of one queued node. -/
def propagateEdges (roots : OrderedMap String FrontierStatus) :
    List String → PropagateState → PropagateState
  | [], s => s
  | dependent :: rest, s =>
    let affected := roots.keys.foldl (fun affected _ => affected.add dependent) s.affected
    let (e, changed) := s.engine.mergeDirtyState dependent roots
    propagateEdges roots rest
      ⟨affected, if changed then s.queue ++ [dependent] else s.queue, e⟩

/-- One round of the loop of `propagateDirty` over its queue. -/
def propagateBody (s : PropagateState) : Step PropagateState PropagateState :=
  match s.queue with
  | [] => .done s
  | id :: queue =>
    if s.engine.frontierBudgetExceeded then .done s
    else
      let roots := (s.engine.activeDirtyRoots.get? id).getD ∅
      .again (propagateEdges roots (sortStrings (s.engine.dependents.neighbours id))
        { s with queue := queue })

/-- A number of rounds that suffices: every round that queues a node raises one of its roots. -/
def propagationRounds (e : IncrementalFrontierEngine) (seeds : List (String × FrontierStatus)) :
    Nat := seeds.length + 3 * (e.dependencies.size * e.directDirty.size) + 2

/-- `propagateDirty(seeds)`; the result is `affected`. -/
def propagateDirty (e : IncrementalFrontierEngine) (seeds : List (String × FrontierStatus)) :
    IncrementalFrontierEngine × List String :=
  let s := propagateSeeds seeds ⟨∅, [], e⟩
  let s := (run propagateBody (e.propagationRounds seeds) s).getD s
  (s.engine, sortStrings s.affected.elems)

/-- The `clear` calls of `rebuildDirtyState`. -/
def clearIndexes (e : IncrementalFrontierEngine) : IncrementalFrontierEngine :=
  { e with
    activeDirtyRoots := ∅
    activeFrontiers := ∅
    dirtyNodesByRoot := ∅
    affectedClosureCache := ∅
    inactiveDirtyRoots := ∅
    inactiveRootEntryCounts := ∅
    rootEntryCounts := ∅
    tombstonedRootEntries := 0 }

def rebuildDirtyState (e : IncrementalFrontierEngine) : IncrementalFrontierEngine :=
  let e := e.clearIndexes
  if e.directDirty.size > 0 then (e.propagateDirty e.directDirty.entries).1 else e

def invalidateTargets (e : IncrementalFrontierEngine) (targets : List String) :
    IncrementalFrontierEngine :=
  { e with frontierCache := targets.foldl OrderedMap.erase e.frontierCache }

/-- The entry count of `root` when it is set again among the `roots` of a node. -/
def countReactivated (e : IncrementalFrontierEngine) (root : String) (status : FrontierStatus)
    (roots : OrderedMap String FrontierStatus) : IncrementalFrontierEngine :=
  match roots.get? root with
  | none => count { e with
      rootEntryCounts := e.rootEntryCounts.set root ((e.rootEntryCounts.get? root).getD 0 + 1) }
  | some previous => if previous = status then e else e.count

/-- The loop of `reactivateRoot` over the nodes that have, or had, the root. -/
def reactivateNodes (root : String) (status : FrontierStatus) : List String →
    IncrementalFrontierEngine → IncrementalFrontierEngine
  | [], e => e
  | nodeId :: rest, e =>
    if e.frontierBudgetExceeded then e
    else
      let roots := (e.activeDirtyRoots.get? nodeId).getD ∅
      let e := e.countReactivated root status roots
      let roots := roots.set root status
      let e := { e with activeDirtyRoots := e.activeDirtyRoots.set nodeId roots }
      let (e, frontier) := e.computeFrontier roots.keys
      let e := { e with activeFrontiers := e.activeFrontiers.set nodeId frontier }
      reactivateNodes root status rest (e.updateDirtyState nodeId)

def reactivateRoot (e : IncrementalFrontierEngine) (root : String) (status : FrontierStatus) :
    IncrementalFrontierEngine :=
  if root ∈ e.inactiveDirtyRoots then
    let tombstones := (e.inactiveRootEntryCounts.get? root).getD 0
    let e := { e with
      tombstonedRootEntries := e.tombstonedRootEntries - tombstones
      inactiveRootEntryCounts := e.inactiveRootEntryCounts.erase root
      inactiveDirtyRoots := e.inactiveDirtyRoots.erase root }
    match e.dirtyNodesByRoot.get? root with
    | none => e
    | some affected => reactivateNodes root status affected.elems e
  else e

/-! ## Graph operations -/

def addInitialDependencies (nodeId : String) : List String → Adjacency → Except JsError Adjacency
  | [], dependencies => .ok dependencies
  | dependencyId :: rest, dependencies => do
    assertId dependencyId "dependency id"
    if dependencyId = nodeId then throw (cycleError nodeId)
    addInitialDependencies nodeId rest
      (if dependencies.has dependencyId then dependencies else dependencies.set dependencyId ∅)

def addInitialNodes : List FrontierNode → Adjacency → Except JsError Adjacency
  | [], dependencies => .ok dependencies
  | node :: rest, dependencies => do
    assertId node.id "node id"
    let dependsOn := unique node.dependsOn
    let dependencies ← addInitialDependencies node.id dependsOn dependencies
    addInitialNodes rest (dependencies.set node.id (OrderedSet.ofList dependsOn))

def initialDependents (dependencies : Adjacency) : Adjacency :=
  dependencies.entries.foldl
    (fun g p => p.2.elems.foldl (fun g dependencyId => g.addEdge dependencyId p.1) g)
    (dependencies.keys.foldl (fun g id => g.set id ∅) ∅)

/-- `new IncrementalFrontierEngine(nodes)`. -/
def create (maxWork : Nat) (nodes : List FrontierNode) : Except JsError IncrementalFrontierEngine :=
  do
    let dependencies ← addInitialNodes nodes ∅
    assertAcyclicGraph dependencies
    return rebuildDirtyState {
      maxWork := maxWork
      dependencies := dependencies
      dependents := initialDependents dependencies
      directDirty := ∅
      activeDirtyRoots := ∅
      activeFrontiers := ∅
      dirtyNodesByRoot := ∅
      affectedClosureCache := ∅
      inactiveDirtyRoots := ∅
      inactiveRootEntryCounts := ∅
      rootEntryCounts := ∅
      tombstonedRootEntries := 0
      frontierCache := ∅
      generation := nodes.length
      graphRevision := nodes.length
      trusted := true
      trustRecoveryRequired := false
      frontierBudgetExceeded := false
      frontierWorkUsed := 0 }

/-- Remove `id` from the dependents of `dependencyId`; an emptied set is deleted. -/
def removeReverseEdge (id : String) (g : Adjacency) (dependencyId : String) : Adjacency :=
  match g.get? dependencyId with
  | none => g
  | some set =>
    if (set.erase id).size = 0 then g.erase dependencyId else g.set dependencyId (set.erase id)

def removeReverseEdges (dependencies dependents : Adjacency) (id : String) : Adjacency :=
  (dependencies.neighbours id).foldl (removeReverseEdge id) dependents

/-- The loop of `setDependencies` that adds the missing nodes; those added before an error stay. -/
def addMissingNodes (id : String) : List String → Adjacency → Adjacency × Except JsError Unit
  | [], dependencies => (dependencies, .ok ())
  | dependencyId :: rest, dependencies =>
    match assertId dependencyId "dependency id" with
    | .error err => (dependencies, .error err)
    | .ok () =>
      if dependencyId = id then (dependencies, .error (cycleError id))
      else addMissingNodes id rest
        (if dependencies.has dependencyId then dependencies else dependencies.set dependencyId ∅)

def setDependencies (e : IncrementalFrontierEngine) (id : String) (dependsOn : List String) :
    IncrementalFrontierEngine × Except JsError Unit :=
  let e := e.resetFrontierWorkBudget
  match assertId id "node id" with
  | .error err => (e, .error err)
  | .ok () =>
    let next := unique dependsOn
    match addMissingNodes id next e.dependencies with
    | (dependencies, .error err) => ({ e with dependencies := dependencies }, .error err)
    | (dependencies, .ok ()) =>
      let dependents :=
        if dependencies.has id then removeReverseEdges dependencies e.dependents id
        else e.dependents
      let dependencies := dependencies.set id (OrderedSet.ofList next)
      let dependents := next.foldl (fun g dependencyId => g.addEdge dependencyId id) dependents
      match assertAcyclic dependencies id with
      | .error err => (e, .error err)
      | .ok () =>
        let e := { e with
          dependencies := dependencies
          dependents := dependents
          graphRevision := e.graphRevision + 1
          generation := e.generation + 1 }
        (e.rebuildDirtyState.invalidateAllCaches, .ok ())

def addNode (e : IncrementalFrontierEngine) (id : String) (dependsOn : List String) :
    IncrementalFrontierEngine × Except JsError Unit :=
  match assertId id "node id" with
  | .error err => (e, .error err)
  | .ok () =>
    if e.dependencies.has id then (e, .error (.error ("Node already exists: " ++ id)))
    else e.setDependencies id dependsOn

def removeNode (e : IncrementalFrontierEngine) (id : String) :
    IncrementalFrontierEngine × Except JsError Unit :=
  let e := e.resetFrontierWorkBudget
  match assertId id "node id" with
  | .error err => (e, .error err)
  | .ok () =>
    if !e.dependencies.has id then (e, .ok ())
    else if ((e.dependents.get? id).getD ∅).size > 0 then
      (e, .error (.error ("Cannot remove node with dependents: " ++ id)))
    else
      let dependents := removeReverseEdges e.dependencies e.dependents id
      let e := { e with
        dependencies := e.dependencies.erase id
        dependents := dependents.erase id
        directDirty := e.directDirty.erase id
        graphRevision := e.graphRevision + 1
        generation := e.generation + 1 }
      (e.rebuildDirtyState.invalidateAllCaches, .ok ())

/-! ## Dirty roots -/

/-- `assertId` and the node lookup that `markDirty` makes for each requested id. -/
def checkKnown (e : IncrementalFrontierEngine) : List String → Except JsError Unit
  | [] => .ok ()
  | id :: rest => do
    assertId id "node id"
    if !e.dependencies.has id then throw (unknownNodeError id)
    checkKnown e rest

/-- Whether `id` is an active root of at least the severity `status`. -/
def coveredRoot (e : IncrementalFrontierEngine) (status : FrontierStatus) (id : String) : Bool :=
  match e.directDirty.get? id with
  | none => false
  | some previous =>
    decide (id ∉ e.inactiveDirtyRoots) && decide (previous.priority ≥ status.priority)

/-- The severity that `markDirty` gives a root. -/
def raisedStatus (e : IncrementalFrontierEngine) (status : FrontierStatus) (id : String) :
    FrontierStatus :=
  match e.directDirty.get? id with
  | none => status
  | some previous => statusMax previous status

/-- The loop of `markDirty` that records the direct roots. -/
def recordDirect (status : FrontierStatus) : List String → IncrementalFrontierEngine →
    IncrementalFrontierEngine
  | [], e => e
  | id :: rest, e =>
    let raised := e.raisedStatus status id
    let e := { e with directDirty := e.directDirty.set id raised }
    recordDirect status rest (if id ∈ e.inactiveDirtyRoots then e.reactivateRoot id raised else e)

def markDirty (e : IncrementalFrontierEngine) (nodeIds : List String) (status : FrontierStatus) :
    IncrementalFrontierEngine × Except JsError FrontierImpact :=
  let e := e.resetFrontierWorkBudget
  if status = .fresh then (e, .error (.typeError "FRESH is not a dirty status"))
  else
    let direct := unique nodeIds
    match e.checkKnown direct with
    | .error err => (e, .error err)
    | .ok () =>
      let propagationIsNoop := direct.all (e.coveredRoot status)
      let e := { e with generation := e.generation + 1 }
      if propagationIsNoop then
        let (e, affected) := e.affectedFromRoots direct
        (e, .ok ⟨e.generation, affected, direct, e.frontierIsComplete⟩)
      else
        let e := recordDirect status direct e
        let (e, affected) := e.propagateDirty
          (direct.map (fun id => (id, (e.directDirty.get? id).getD .fresh)))
        let e := e.invalidateTargets affected
        (e, .ok ⟨e.generation, affected, direct, e.frontierIsComplete⟩)

/-- The loop of `restoreStates` over the snapshot: the direct roots it names, and the ids seen. -/
def checkStates (e : IncrementalFrontierEngine) : List (String × FrontierStatus) →
    OrderedMap String FrontierStatus → OrderedSet String →
    Except JsError (OrderedMap String FrontierStatus × OrderedSet String)
  | [], next, seen => .ok (next, seen)
  | (id, status) :: rest, next, seen => do
    assertId id "node id"
    if id ∈ seen then throw (.error ("Duplicate frontier state: " ++ id))
    if !e.dependencies.has id then throw (unknownNodeError id)
    checkStates e rest (if status = .fresh then next else next.set id status) (seen.add id)

/-- `restoreStates(states)`, and `restoreTrustedSnapshot`. -/
def restoreStates (e : IncrementalFrontierEngine) (states : List (String × FrontierStatus)) :
    IncrementalFrontierEngine × Except JsError Unit :=
  let e := e.resetFrontierWorkBudget
  match e.checkStates states ∅ ∅ with
  | .error err => (e, .error err)
  | .ok (next, seen) =>
    match e.dependencies.keys.find? (fun id => id ∉ seen) with
    | some id => (e, .error (.error ("Incomplete frontier state snapshot: " ++ id)))
    | none =>
      let e := { e with
        directDirty := next
        generation := e.generation + 1
        frontierBudgetExceeded := false
        trustRecoveryRequired := false
        trusted := true }
      (e.rebuildDirtyState.invalidateAllCaches, .ok ())

/-- One round of the loop of `descendantClosure` over its queue. -/
def descendantBody (dependents : Adjacency) (s : OrderedSet String × List String) :
    Step (OrderedSet String × List String) (OrderedSet String) :=
  match s.2 with
  | [] => .done s.1
  | id :: queue =>
    let new := (dependents.neighbours id).filter (fun dependent => dependent ∉ s.1)
    .again (s.1.addAll new, queue ++ new)

def descendantClosure (e : IncrementalFrontierEngine) (start : String) : OrderedSet String :=
  (run (descendantBody e.dependents) (e.dependencies.size + 2)
    (OrderedSet.ofList [start], [start])).getD ∅

def replaceStatus (e : IncrementalFrontierEngine) (nodeId : String) (status : FrontierStatus) :
    IncrementalFrontierEngine × Except JsError FrontierImpact :=
  let e := e.resetFrontierWorkBudget
  match assertId nodeId "node id" with
  | .error err => (e, .error err)
  | .ok () =>
    if !e.dependencies.has nodeId then (e, .error (unknownNodeError nodeId))
    else
      let affected := e.descendantClosure nodeId
      let directDirty := e.directDirty.erase nodeId
      let directDirty := if status = .fresh then directDirty else directDirty.set nodeId status
      let e := rebuildDirtyState { e with
        directDirty := directDirty
        generation := e.generation + 1 }
      let e := e.invalidateTargets affected.elems
      (e, .ok ⟨e.generation, sortStrings affected.elems, [nodeId], e.frontierIsComplete⟩)

def markUnknown (e : IncrementalFrontierEngine) : IncrementalFrontierEngine :=
  invalidateAllCaches { e.resetFrontierWorkBudget with
    trusted := false
    trustRecoveryRequired := true
    generation := e.generation + 1 }

def restoreTrust (e : IncrementalFrontierEngine) : IncrementalFrontierEngine :=
  invalidateAllCaches { e with
    trusted := false
    trustRecoveryRequired := true
    generation := e.generation + 1 }

def resolve (e : IncrementalFrontierEngine) (nodeId : String) :
    IncrementalFrontierEngine × Except JsError FrontierImpact :=
  let e := e.resetFrontierWorkBudget
  match assertId nodeId "node id" with
  | .error err => (e, .error err)
  | .ok () =>
    if !e.dependencies.has nodeId then (e, .error (unknownNodeError nodeId))
    else
      let affected := sortStrings
        (match e.dirtyNodesByRoot.get? nodeId with
          | some known => known.elems
          | none => [nodeId])
      match e.directDirty.get? nodeId with
      | none => (e, .ok ⟨e.generation, [], [nodeId], e.frontierIsComplete⟩)
      | some .unknown =>
        let e := e.markUnknown.invalidateTargets affected
        (e, .ok ⟨e.generation, affected, [nodeId], false⟩)
      | some _ =>
        let existingEntries := (e.rootEntryCounts.get? nodeId).getD 0
        let e := { e with
          generation := e.generation + 1
          directDirty := e.directDirty.erase nodeId
          inactiveDirtyRoots := e.inactiveDirtyRoots.add nodeId
          inactiveRootEntryCounts := e.inactiveRootEntryCounts.set nodeId existingEntries
          tombstonedRootEntries := e.tombstonedRootEntries + existingEntries }
        let e := if e.tombstonedRootEntries > e.maxWork then e.failClosed else e
        let e := e.invalidateTargets affected
        (e, .ok ⟨e.generation, affected, [nodeId], e.frontierIsComplete⟩)

def cache (e : IncrementalFrontierEngine) (nodeId : String) (result : FrontierResult) :
    IncrementalFrontierEngine × Except JsError FrontierResult :=
  ({ e with frontierCache := e.frontierCache.set nodeId ⟨e.graphRevision, result⟩ }, .ok result)

def unknownResult (e : IncrementalFrontierEngine) (impactGeneration : Nat) : FrontierResult :=
  ⟨.unknown, [], false, false, e.graphRevision, impactGeneration⟩

/-- The loop of `frontier` over the roots of the node. -/
def foldStatus : List (String × FrontierStatus) → FrontierStatus → IncrementalFrontierEngine →
    IncrementalFrontierEngine × FrontierStatus
  | [], status, e => (e, status)
  | (root, value) :: rest, status, e =>
    let e := e.count
    if root ∈ e.inactiveDirtyRoots then foldStatus rest status e
    else foldStatus rest (statusMax status value) e

/-- The part of `frontier(nodeId)` that a current cache entry saves. -/
def answerFrontier (e : IncrementalFrontierEngine) (nodeId : String) :
    IncrementalFrontierEngine × Except JsError FrontierResult :=
  let impactGeneration := e.generation
  if !e.trusted || e.frontierBudgetExceeded then
    e.cache nodeId (e.unknownResult impactGeneration)
  else
    let (e, _) := e.compactResolvedRoots nodeId
    if !e.trusted || e.frontierBudgetExceeded then
      e.cache nodeId (e.unknownResult impactGeneration)
    else
      let roots := ((e.activeDirtyRoots.get? nodeId).getD ∅).entries
      let e := e.count
      let (e, status) := foldStatus roots .fresh e
      let frontier := ((e.activeFrontiers.get? nodeId).getD ∅).elems
      let e := e.count
      e.cache nodeId
        ⟨status, sortStrings frontier, true, false, e.graphRevision, impactGeneration⟩

def frontier (e : IncrementalFrontierEngine) (nodeId : String) :
    IncrementalFrontierEngine × Except JsError FrontierResult :=
  let e := e.resetFrontierWorkBudget
  match assertId nodeId "node id" with
  | .error err => (e, .error err)
  | .ok () =>
    if !e.dependencies.has nodeId then (e, .error (unknownNodeError nodeId))
    else
      match e.frontierCache.get? nodeId with
      | some cached =>
        if cached.graphRevision = e.graphRevision then
          (e, .ok { cached.result with
            cacheHit := true
            impactGeneration := e.generation })
        else e.answerFrontier nodeId
      | none => e.answerFrontier nodeId

end IncrementalFrontierEngine

end Premise.FrontierEngine
