import Premise.Collections.CodeUnits
import Premise.Collections.OrderedMap
import Premise.Control.Loop
import Premise.Js.Basic

/-!
# The dependency graph of the frontier engine and its cycle checks

`dependencies` maps a node to the nodes it depends on, `dependents` is the reverse index. The two
checks are the depth-first searches of `assertAcyclic` (from one node) and `assertAcyclicGraph` (from
every node of the initial graph).
-/

namespace Premise.FrontierEngine

open Collections Control Js

abbrev Adjacency := OrderedMap String (OrderedSet String)

namespace Adjacency

/-- `map.get(id) ?? []`, in insertion order. -/
def neighbours (g : Adjacency) (id : String) : List String := ((g.get? id).getD ∅).elems

/-- `map.get(id) ?? new Set()` with `member` added, stored back under `id`. -/
def addEdge (g : Adjacency) (id member : String) : Adjacency :=
  g.set id (((g.get? id).getD ∅).add member)

def edgeCount (g : Adjacency) : Nat := (g.entries.map (fun p => p.2.size)).sum

end Adjacency

/-- `Dependency cycle at ${id}`. -/
def cycleError (id : String) : JsError := .error ("Dependency cycle at " ++ id)

def assertId (id : String) (name : String) : Except JsError Unit :=
  if id = "" then .error (.typeError (name ++ " must be a non-empty string")) else .ok ()

/-- An entry of the search stack: a node to be entered, or to be left. -/
structure DfsFrame where
  id : String
  exit : Bool
deriving DecidableEq

/-- The variables of `assertAcyclic`. The head of `stack` is the frame that `pop` returns. -/
structure DfsState where
  visiting : OrderedSet String
  visited : OrderedSet String
  stack : List DfsFrame

/-- The loop over the dependencies of the node that is entered. -/
def pushDependencies (visiting visited : OrderedSet String) :
    List String → List DfsFrame → Except JsError (List DfsFrame)
  | [], stack => .ok stack
  | dependencyId :: rest, stack =>
    if dependencyId ∈ visiting then .error (cycleError dependencyId)
    else if dependencyId ∈ visited then pushDependencies visiting visited rest stack
    else pushDependencies visiting visited rest (⟨dependencyId, false⟩ :: stack)

/-- One round of the `while` loop of `assertAcyclic`. -/
def assertAcyclicBody (dependencies : Adjacency) (s : DfsState) :
    Step DfsState (Except JsError Unit) :=
  match s.stack with
  | [] => .done (.ok ())
  | frame :: stack =>
    if frame.exit then
      .again ⟨s.visiting.erase frame.id, s.visited.add frame.id, stack⟩
    else if frame.id ∈ s.visited then .again { s with stack := stack }
    else if frame.id ∈ s.visiting then .done (.error (cycleError frame.id))
    else
      let visiting := s.visiting.add frame.id
      match pushDependencies visiting s.visited (dependencies.neighbours frame.id).reverse
          (⟨frame.id, true⟩ :: stack) with
      | .error e => .done (.error e)
      | .ok stack => .again ⟨visiting, s.visited, stack⟩

def assertAcyclic (dependencies : Adjacency) (start : String) : Except JsError Unit :=
  (run (assertAcyclicBody dependencies) (2 * dependencies.edgeCount + 3)
    ⟨∅, ∅, [⟨start, false⟩]⟩).getD (.error (cycleError start))

/-- The search states `1` and `2` of a node; `0` is the absence of a mark. -/
inductive Mark
  | open_
  | closed
deriving DecidableEq

/-- A frame of the search: a node and its dependencies from `index` on. -/
structure GraphFrame where
  id : String
  remaining : List String

/-- One round of the inner `while` loop of `assertAcyclicGraph`. -/
def assertAcyclicGraphBody (dependencies : Adjacency)
    (s : OrderedMap String Mark × List GraphFrame) :
    Step (OrderedMap String Mark × List GraphFrame) (Except JsError (OrderedMap String Mark)) :=
  match s.2 with
  | [] => .done (.ok s.1)
  | ⟨id, []⟩ :: stack => .again (s.1.set id .closed, stack)
  | ⟨id, dependencyId :: remaining⟩ :: stack =>
    match s.1.get? dependencyId with
    | some .open_ => .done (.error (cycleError dependencyId))
    | some .closed => .again (s.1, ⟨id, remaining⟩ :: stack)
    | none => .again (s.1.set dependencyId .open_,
        ⟨dependencyId, dependencies.neighbours dependencyId⟩ :: ⟨id, remaining⟩ :: stack)

/-- The outer `for` loop of `assertAcyclicGraph`. -/
def assertAcyclicFrom (dependencies : Adjacency) :
    List String → OrderedMap String Mark → Except JsError Unit
  | [], _ => .ok ()
  | start :: starts, state =>
    if state.get? start = some .closed then assertAcyclicFrom dependencies starts state
    else
      match (run (assertAcyclicGraphBody dependencies) (2 * dependencies.edgeCount + 2)
          (state.set start .open_, [⟨start, dependencies.neighbours start⟩])).getD
          (.error (cycleError start)) with
      | .error e => .error e
      | .ok state => assertAcyclicFrom dependencies starts state

def assertAcyclicGraph (dependencies : Adjacency) : Except JsError Unit :=
  assertAcyclicFrom dependencies dependencies.keys ∅

/-!
# `IncrementalFrontierEngine`: state, work budget and lazily repaired indexes

The private fields of the engine and the private methods that maintain the dirty-root indexes. A
method that mutates `this` returns the new engine next to its result. Work counters that no decision
reads (everything but the keys of `FRONTIER_WORK_COUNTER_KEYS`) are left out, and so is
`dirtyStates`, which is written and never read; the budgeted reads that its update makes are kept.
-/

inductive FrontierStatus
  | fresh
  | stale
  | unknown
  | invalid
deriving DecidableEq, Repr

/-- `STATUS_PRIORITY`. -/
def FrontierStatus.priority : FrontierStatus → Nat
  | .fresh => 0
  | .stale => 1
  | .unknown => 2
  | .invalid => 3

def statusMax (left right : FrontierStatus) : FrontierStatus :=
  if left.priority ≥ right.priority then left else right

structure FrontierResult where
  status : FrontierStatus
  frontier : List String
  complete : Bool
  cacheHit : Bool
  graphRevision : Nat
  impactGeneration : Nat
deriving DecidableEq

structure FrontierCacheEntry where
  graphRevision : Nat
  result : FrontierResult

/-- `MAX_AFFECTED_CLOSURE_CACHE_ENTRIES`. -/
def maxAffectedClosureCacheEntries : Nat := 256

/-- The engine. `maxWork` is the constant `MAX_FRONTIER_ROOT_STATE_WORK`, kept as a field so that
    results hold for every value of it. -/
structure IncrementalFrontierEngine where
  maxWork : Nat
  dependencies : Adjacency
  dependents : Adjacency
  directDirty : OrderedMap String FrontierStatus
  activeDirtyRoots : OrderedMap String (OrderedMap String FrontierStatus)
  activeFrontiers : OrderedMap String (OrderedSet String)
  dirtyNodesByRoot : OrderedMap String (OrderedSet String)
  affectedClosureCache : OrderedMap String (List String)
  inactiveDirtyRoots : OrderedSet String
  inactiveRootEntryCounts : OrderedMap String Nat
  rootEntryCounts : OrderedMap String Nat
  tombstonedRootEntries : Nat
  frontierCache : OrderedMap String FrontierCacheEntry
  generation : Nat
  graphRevision : Nat
  trusted : Bool
  trustRecoveryRequired : Bool
  frontierBudgetExceeded : Bool
  frontierWorkUsed : Nat

namespace IncrementalFrontierEngine

def invalidateAllCaches (e : IncrementalFrontierEngine) : IncrementalFrontierEngine :=
  { e with frontierCache := ∅ }

def failClosed (e : IncrementalFrontierEngine) : IncrementalFrontierEngine :=
  invalidateAllCaches
    { e with frontierBudgetExceeded := true, trusted := false, trustRecoveryRequired := true }

def consumeFrontierWork (e : IncrementalFrontierEngine) (amount : Nat) : IncrementalFrontierEngine :=
  if e.frontierBudgetExceeded then e
  else
    let e := { e with frontierWorkUsed := e.frontierWorkUsed + amount }
    if e.frontierWorkUsed > e.maxWork then e.failClosed else e

/-- `count(key)` for a key of `FRONTIER_WORK_COUNTER_KEYS`. -/
def count (e : IncrementalFrontierEngine) : IncrementalFrontierEngine := e.consumeFrontierWork 1

def resetFrontierWorkBudget (e : IncrementalFrontierEngine) : IncrementalFrontierEngine :=
  { e with frontierWorkUsed := 0 }

def frontierIsComplete (e : IncrementalFrontierEngine) : Bool :=
  e.trusted && !e.frontierBudgetExceeded

/-- The variables of `reaches`. -/
structure ReachState where
  seen : OrderedSet String
  queue : List String
  engine : IncrementalFrontierEngine

/-- The inner loop of `reaches`, over the dependents of one node. -/
def reachesEdges (target : String) : List String → ReachState →
    Step ReachState (IncrementalFrontierEngine × Bool)
  | [], s => .again s
  | dependent :: rest, s =>
    let e := s.engine.count
    if e.frontierBudgetExceeded then .done (e, false)
    else if dependent = target then .done (e, true)
    else if dependent ∈ s.seen then reachesEdges target rest { s with engine := e }
    else reachesEdges target rest ⟨s.seen.add dependent, s.queue ++ [dependent], e⟩

/-- One round of the loop of `reaches` over its queue. -/
def reachesBody (target : String) (s : ReachState) :
    Step ReachState (IncrementalFrontierEngine × Bool) :=
  match s.queue with
  | [] => .done (s.engine, false)
  | id :: queue =>
    let e := s.engine.count
    if e.frontierBudgetExceeded then .done (e, false)
    else reachesEdges target (e.dependents.neighbours id) ⟨s.seen, queue, e⟩

/-- `reaches(start, target)`: whether a non-empty path of `dependents` leads to `target`. -/
def reaches (e : IncrementalFrontierEngine) (start target : String) :
    IncrementalFrontierEngine × Bool :=
  let e := e.count
  (run (reachesBody target) (e.dependencies.size + 2) ⟨∅, [start], e⟩).getD (e, false)

/-- The loop of `addFrontierRoot` over a copy of the frontier. -/
def addFrontierRootFrom (root : String) : List String → OrderedSet String →
    IncrementalFrontierEngine → IncrementalFrontierEngine × OrderedSet String
  | [], frontier, e => (e, frontier.add root)
  | existing :: rest, frontier, e =>
    let e := e.count
    if e.frontierBudgetExceeded then (e, frontier)
    else if existing = root then (e, frontier)
    else
      let (e, below) := e.reaches existing root
      if below then (e, frontier)
      else
        let (e, above) := e.reaches root existing
        let frontier := if above then frontier.erase existing else frontier
        if e.frontierBudgetExceeded then (e, frontier)
        else addFrontierRootFrom root rest frontier e

def addFrontierRoot (e : IncrementalFrontierEngine) (frontier : OrderedSet String) (root : String) :
    IncrementalFrontierEngine × OrderedSet String :=
  addFrontierRootFrom root frontier.elems frontier e

/-- The loop of `computeFrontier`. -/
def computeFrontierFrom : List String → OrderedSet String → IncrementalFrontierEngine →
    IncrementalFrontierEngine × OrderedSet String
  | [], result, e => (e, result)
  | root :: roots, result, e =>
    if root ∈ e.inactiveDirtyRoots then computeFrontierFrom roots result e
    else
      let (e, result) := e.addFrontierRoot result root
      if e.frontierBudgetExceeded then (e, result) else computeFrontierFrom roots result e

def computeFrontier (e : IncrementalFrontierEngine) (roots : List String) :
    IncrementalFrontierEngine × OrderedSet String :=
  computeFrontierFrom roots ∅ e

/-- `updateDirtyState(nodeId)`: one budgeted read for each root of the node. -/
def updateDirtyState (e : IncrementalFrontierEngine) (nodeId : String) : IncrementalFrontierEngine :=
  match e.activeDirtyRoots.get? nodeId with
  | none => e
  | some roots => roots.keys.foldl (fun e _ => e.count) e

def activeRootEntryCountsCleanup (e : IncrementalFrontierEngine) (root : String) :
    IncrementalFrontierEngine :=
  { e with
    rootEntryCounts := e.rootEntryCounts.erase root
    inactiveRootEntryCounts := e.inactiveRootEntryCounts.erase root
    dirtyNodesByRoot := e.dirtyNodesByRoot.erase root
    affectedClosureCache := e.affectedClosureCache.erase root
    inactiveDirtyRoots := e.inactiveDirtyRoots.erase root }

/-- Remove the tombstone of `root` from the roots of `nodeId`. -/
def dropTombstone (e : IncrementalFrontierEngine) (nodeId root : String) :
    IncrementalFrontierEngine :=
  let roots := (e.activeDirtyRoots.get? nodeId).getD ∅
  let e := { e with activeDirtyRoots := e.activeDirtyRoots.set nodeId (roots.erase root) }
  let e := e.count
  let activeCount := (e.rootEntryCounts.get? root).getD 0 - 1
  let inactiveCount := (e.inactiveRootEntryCounts.get? root).getD 0 - 1
  let e := { e with
    rootEntryCounts := e.rootEntryCounts.set root activeCount
    inactiveRootEntryCounts := e.inactiveRootEntryCounts.set root inactiveCount
    tombstonedRootEntries := e.tombstonedRootEntries - 1 }
  if activeCount = 0 ∧ inactiveCount = 0 then e.activeRootEntryCountsCleanup root else e

/-- The loop of `compactResolvedRoots` over a copy of the node's roots; the flag is `changed`. -/
def compactFrom (nodeId : String) : List String → Bool → IncrementalFrontierEngine →
    IncrementalFrontierEngine × Bool
  | [], changed, e => (e, changed)
  | root :: rest, changed, e =>
    let e := e.count
    if e.frontierBudgetExceeded then (e, changed)
    else if root ∈ e.inactiveDirtyRoots then compactFrom nodeId rest true (e.dropTombstone nodeId root)
    else compactFrom nodeId rest changed e

def compactResolvedRoots (e : IncrementalFrontierEngine) (nodeId : String) :
    IncrementalFrontierEngine × Bool :=
  match e.activeDirtyRoots.get? nodeId with
  | none => (e, false)
  | some roots =>
    if e.inactiveDirtyRoots.size = 0 then (e, false)
    else
      let (e, changed) := compactFrom nodeId roots.keys false e
      if !changed || e.frontierBudgetExceeded then (e, changed)
      else
        let roots := (e.activeDirtyRoots.get? nodeId).getD ∅
        if roots.size = 0 then
          ({ e with
            activeDirtyRoots := e.activeDirtyRoots.erase nodeId
            activeFrontiers := e.activeFrontiers.erase nodeId }, true)
        else
          let (e, frontier) := e.computeFrontier roots.keys
          let e := { e with activeFrontiers := e.activeFrontiers.set nodeId frontier }
          (e.updateDirtyState nodeId, true)

/-- Enter `nodeId` in the reverse index of `root`. -/
def noteRoot (e : IncrementalFrontierEngine) (nodeId root : String) : IncrementalFrontierEngine :=
  let nodes := (e.dirtyNodesByRoot.get? root).getD ∅
  let added := nodeId ∉ nodes
  let e := { e with dirtyNodesByRoot := e.dirtyNodesByRoot.set root (nodes.add nodeId) }
  if added ∧ e.affectedClosureCache.has root then
    count { e with affectedClosureCache := e.affectedClosureCache.erase root }
  else e

/-- The loop of `mergeDirtyState` over the incoming roots. -/
def mergeRoots (nodeId : String) : List (String × FrontierStatus) →
    OrderedMap String FrontierStatus → Bool → IncrementalFrontierEngine →
    IncrementalFrontierEngine × OrderedMap String FrontierStatus × Bool
  | [], roots, changed, e => (e, roots, changed)
  | (root, status) :: rest, roots, changed, e =>
    if root ∈ e.inactiveDirtyRoots then mergeRoots nodeId rest roots changed e
    else
      let e := e.count
      if e.frontierBudgetExceeded then (e, roots, changed)
      else
        match roots.get? root with
        | some previous =>
          if previous.priority ≥ status.priority then mergeRoots nodeId rest roots changed e
          else mergeRoots nodeId rest (roots.set root status) true (e.noteRoot nodeId root)
        | none =>
          let e := e.noteRoot nodeId root
          mergeRoots nodeId rest (roots.set root status) true
            { e with
              rootEntryCounts :=
                e.rootEntryCounts.set root ((e.rootEntryCounts.get? root).getD 0 + 1) }

/-- The loop of `mergeDirtyState` that adds the incoming roots to the frontier. -/
def addFrontierRoots : List String → OrderedSet String → IncrementalFrontierEngine →
    IncrementalFrontierEngine × OrderedSet String
  | [], frontier, e => (e, frontier)
  | root :: roots, frontier, e =>
    if root ∈ e.inactiveDirtyRoots then addFrontierRoots roots frontier e
    else
      let (e, frontier) := e.addFrontierRoot frontier root
      if e.frontierBudgetExceeded then (e, frontier) else addFrontierRoots roots frontier e

/-- `mergeDirtyState(nodeId, incoming)`: whether the node's roots changed. -/
def mergeDirtyState (e : IncrementalFrontierEngine) (nodeId : String)
    (incoming : OrderedMap String FrontierStatus) : IncrementalFrontierEngine × Bool :=
  let (e, repaired) :=
    if e.inactiveDirtyRoots.size > 0 then e.compactResolvedRoots nodeId else (e, false)
  if e.frontierBudgetExceeded then (e, false)
  else
    let (e, roots, changed) :=
      mergeRoots nodeId incoming.entries ((e.activeDirtyRoots.get? nodeId).getD ∅) false e
    if !changed then (e, false)
    else
      let e := count { e with activeDirtyRoots := e.activeDirtyRoots.set nodeId roots }
      let (e, frontier) :=
        if repaired then e.computeFrontier roots.keys
        else (e, (e.activeFrontiers.get? nodeId).getD ∅)
      let e := e.count
      if e.frontierBudgetExceeded then (e, false)
      else
        let (e, frontier) := addFrontierRoots incoming.keys frontier e
        if e.frontierBudgetExceeded then (e, false)
        else
          let e := count { e with activeFrontiers := e.activeFrontiers.set nodeId frontier }
          (e.updateDirtyState nodeId, true)

end IncrementalFrontierEngine

end Premise.FrontierEngine
