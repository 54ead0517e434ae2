import Premise.Control.System
import Premise.FrontierEngine.Operations
import Premise.FrontierEngine.Proofs.GraphProofs
import Premise.Graph.Frontier

/-!
# What the frontier engine maintains

The answer that `frontier` is meant to give, read off the graph and the direct dirty roots alone, and
the invariant by which the lazily repaired indexes keep giving it.
-/

namespace Premise.FrontierEngine

open Collections Premise.Graph Relation

namespace IncrementalFrontierEngine

/-- `n` directly depends on `d`. -/
def DependsOn (e : IncrementalFrontierEngine) (n d : String) : Prop := e.dependencies.Dep n d

/-- `m` is a direct dependent of `n`, as the reverse index has it. -/
def Edge (e : IncrementalFrontierEngine) (n m : String) : Prop := m ∈ e.dependents.neighbours n

/-- `m` is `n` or a transitive dependent of it. -/
def Reach (e : IncrementalFrontierEngine) (n m : String) : Prop := ReflTransGen e.Edge n m

/-- `m` is a transitive dependent of `n`. -/
def Below (e : IncrementalFrontierEngine) (n m : String) : Prop := TransGen e.Edge n m

structure GraphInv (e : IncrementalFrontierEngine) : Prop where
  /-- `dependents` is the reverse of `dependencies`. -/
  mirror : ∀ n d, e.DependsOn n d ↔ e.Edge d n
  known : ∀ n d, e.DependsOn n d → d ∈ e.dependencies.keys
  acyclic : WellFounded (fun d n => e.DependsOn n d)
  named : "" ∉ e.dependencies.keys

/-- `r` is a direct dirty root of severity `s` that `n` is or transitively depends on. -/
def Cause (e : IncrementalFrontierEngine) (n r : String) (s : FrontierStatus) : Prop :=
  e.directDirty.get? r = some s ∧ ReflTransGen e.DependsOn n r

/-- The answer for `n` computed from the graph and the direct dirty roots alone. -/
structure NaiveAnswer (e : IncrementalFrontierEngine) (n : String) (res : FrontierResult) :
    Prop where
  status_attained : res.status = .fresh ∨ ∃ r, e.Cause n r res.status
  status_bound : ∀ r s, e.Cause n r s → s.priority ≤ res.status.priority
  frontier_sorted : res.frontier.Pairwise UnitsLe
  frontier_nodup : res.frontier.Nodup
  mem_frontier : ∀ r, r ∈ res.frontier ↔
    (∃ s, e.Cause n r s) ∧ ∀ q ∈ e.directDirty.keys, ¬ TransGen e.DependsOn r q
  complete : res.complete = true

/-- The severity that the roots of `n` give `r`. -/
def rootStatus (e : IncrementalFrontierEngine) (n r : String) : Option FrontierStatus :=
  ((e.activeDirtyRoots.get? n).getD ∅).get? r

/-- The nodes that have, or had, the root `r`. -/
def rootNodes (e : IncrementalFrontierEngine) (r : String) : OrderedSet String :=
  (e.dirtyNodesByRoot.get? r).getD ∅

/-- The maintained frontier of `n`. -/
def nodeFrontier (e : IncrementalFrontierEngine) (n : String) : OrderedSet String :=
  (e.activeFrontiers.get? n).getD ∅

/-- The number of nodes that have the root `r`. -/
def rootEntries (e : IncrementalFrontierEngine) (r : String) : Nat :=
  e.activeDirtyRoots.countWhere (fun roots => roots.has r)

/-- The indexes agree with the graph and the direct roots `dirty`; `dead` are the tombstoned roots.
    The frontiers of the `stale` nodes, the dependents of the `queued` nodes and the `pending` direct
    roots are still to be brought up to date. -/
structure Indexed (dirty : String → Option FrontierStatus) (dead stale queued pending : Set String)
    (e : IncrementalFrontierEngine) : Prop where
  status_dirty : ∀ n r s, e.rootStatus n r = some s → s ≠ .fresh
  reach : ∀ n r s, e.rootStatus n r = some s → e.Reach r n
  sound : ∀ n r s, e.rootStatus n r = some s →
    r ∈ dead ∨ ∃ t, dirty r = some t ∧ s.priority ≤ t.priority
  nodes_reach : ∀ r, ∀ n ∈ e.rootNodes r, e.Reach r n
  nodes_mem : ∀ n r s, e.rootStatus n r = some s → n ∈ e.rootNodes r
  dead_nodes : ∀ r ∈ dead, ∀ n, e.Reach r n → n ∈ e.rootNodes r
  entries_le : ∀ r, e.rootEntries r ≤ (e.rootEntryCounts.get? r).getD 0
  closure : ∀ r l, e.affectedClosureCache.get? r = some l → ∀ n, n ∈ l ↔ n = r ∨ n ∈ e.rootNodes r
  frontier : ∀ n, n ∉ stale → (∀ r s, e.rootStatus n r = some s → r ∉ dead) →
    IsFrontier e.Below {m | m ∈ e.nodeFrontier n} {r | ∃ s, e.rootStatus n r = some s}
  closed : ∀ n r s, n ∉ queued → r ∉ dead → e.rootStatus n r = some s → ∀ m, e.Edge n m →
    ∃ s', e.rootStatus m r = some s' ∧ s.priority ≤ s'.priority
  dirty_severe : ∀ r t, dirty r = some t → t ≠ .fresh
  dirty_known : ∀ r t, dirty r = some t → r ∈ e.dependencies.keys
  dirty_alive : ∀ r t, dirty r = some t → r ∉ dead
  seeded : ∀ r t, dirty r = some t → r ∉ pending →
    ∃ s, e.rootStatus r r = some s ∧ t.priority ≤ s.priority

def dead (e : IncrementalFrontierEngine) : Set String := {r | r ∈ e.inactiveDirtyRoots}

/-- The indexes up to `queued` nodes and `pending` roots, as propagation finds them. -/
def Propagating (e : IncrementalFrontierEngine) (queued pending : Set String) : Prop :=
  e.Indexed e.directDirty.get? e.dead ∅ queued pending

/-- The invariant between operations. -/
structure Settled (e : IncrementalFrontierEngine) : Prop where
  graph : e.GraphInv
  indexed : e.Propagating ∅ ∅
  trusted : e.trusted = true
  cached : ∀ n entry, e.frontierCache.get? n = some entry →
    entry.graphRevision = e.graphRevision → e.NaiveAnswer n entry.result

/-- The fields that no index maintenance touches. -/
structure Frame (e e' : IncrementalFrontierEngine) : Prop where
  maxWork : e'.maxWork = e.maxWork
  dependencies : e'.dependencies = e.dependencies
  dependents : e'.dependents = e.dependents
  directDirty : e'.directDirty = e.directDirty
  frontierCache : e'.frontierCache = e.frontierCache
  generation : e'.generation = e.generation
  graphRevision : e'.graphRevision = e.graphRevision
  trusted : e'.trusted = e.trusted

/-- `e'` is `e` after budgeted reads: unless the budget ran out, only the work used differs. -/
structure Charged (e e' : IncrementalFrontierEngine) : Prop where
  dependencies : e'.dependencies = e.dependencies
  dependents : e'.dependents = e.dependents
  within : e'.frontierBudgetExceeded = false →
    e.frontierBudgetExceeded = false ∧ ∃ w, e' = { e with frontierWorkUsed := w }

end IncrementalFrontierEngine

/-!
# Runs of the frontier engine

The public operations as the labels of a transition system. An operation that throws is a step as
well: the engine goes on from the state that it left.
-/

open Control

inductive EngineOp
  | addNode (id : String) (dependsOn : List String)
  | setDependencies (id : String) (dependsOn : List String)
  | removeNode (id : String)
  | markDirty (nodeIds : List String) (status : FrontierStatus)
  | replaceStatus (nodeId : String) (status : FrontierStatus)
  | resolve (nodeId : String)
  | restoreStates (states : List (String × FrontierStatus))
  | frontier (nodeId : String)

namespace IncrementalFrontierEngine

def perform (e : IncrementalFrontierEngine) : EngineOp → IncrementalFrontierEngine
  | .addNode id dependsOn => (e.addNode id dependsOn).1
  | .setDependencies id dependsOn => (e.setDependencies id dependsOn).1
  | .removeNode id => (e.removeNode id).1
  | .markDirty nodeIds status => (e.markDirty nodeIds status).1
  | .replaceStatus nodeId status => (e.replaceStatus nodeId status).1
  | .resolve nodeId => (e.resolve nodeId).1
  | .restoreStates states => (e.restoreStates states).1
  | .frontier nodeId => (e.frontier nodeId).1

/-- Only a root that is not `UNKNOWN` is resolved. -/
def ResolvesKnown (e : IncrementalFrontierEngine) : EngineOp → Prop
  | .resolve nodeId => e.directDirty.get? nodeId ≠ some .unknown
  | _ => True

end IncrementalFrontierEngine

open IncrementalFrontierEngine

/-- Engines with the work budget `maxWork`, none of whose operations exceeds it. -/
def withinBudget (maxWork : Nat) : System IncrementalFrontierEngine EngineOp where
  init := fun e => ∃ nodes, create maxWork nodes = .ok e
  step := fun e op e' => e.ResolvesKnown op ∧ e' = e.perform op ∧ e'.frontierBudgetExceeded = false

/-!
# Trust in the frontier engine

The calls after which the engine is meant to answer `UNKNOWN` until a full restore succeeds. Unlike
`withinBudget`, a run here may exceed the work budget anywhere.
-/

open Js

/-- A call of the engine. `restoreStates` stands for `restoreTrustedSnapshot` as well. -/
inductive EngineCall
  | op (op : EngineOp)
  | markUnknown
  | restoreTrust

namespace IncrementalFrontierEngine

def call (e : IncrementalFrontierEngine) : EngineCall → IncrementalFrontierEngine
  | .op op => e.perform op
  | .markUnknown => e.markUnknown
  | .restoreTrust => e.restoreTrust

/-- The call is `markUnknown`, `restoreTrust` or the `resolve` of an `UNKNOWN` root. -/
def Withdraws (e : IncrementalFrontierEngine) : EngineCall → Prop
  | .op (.resolve nodeId) =>
    (∃ impact, (e.resolve nodeId).2 = .ok impact) ∧ e.directDirty.get? nodeId = some .unknown
  | .op _ => False
  | .markUnknown => True
  | .restoreTrust => True

/-- The call withdraws trust, or the work budget is exceeded in it or was before. -/
def LosesTrust (e : IncrementalFrontierEngine) (c : EngineCall) : Prop :=
  e.Withdraws c ∨ (e.call c).frontierBudgetExceeded = true

/-- The call is a `restoreStates` that succeeds. -/
def Restores (e : IncrementalFrontierEngine) : EngineCall → Prop
  | .op (.restoreStates states) => (e.restoreStates states).2 = .ok ()
  | _ => False

/-- `frontier(nodeId)` gets as far as computing its answer. -/
structure Computes (e : IncrementalFrontierEngine) (nodeId : String) : Prop where
  named : assertId nodeId "node id" = .ok ()
  known : e.dependencies.has nodeId = true
  uncached : ∀ cached, e.frontierCache.get? nodeId = some cached →
    cached.graphRevision ≠ e.graphRevision
  complete : e.frontierIsComplete = true
  compacted : (e.resetFrontierWorkBudget.compactResolvedRoots nodeId).1.frontierIsComplete = true

/-- A query that computes its answer has budget for the reads it makes after its last look at the
    budget: one for each root of the node, and two more. -/
def QueryFits (e : IncrementalFrontierEngine) : EngineCall → Prop
  | .op (.frontier nodeId) =>
    let compacted := (e.resetFrontierWorkBudget.compactResolvedRoots nodeId).1
    e.Computes nodeId → compacted.frontierWorkUsed
      + ((compacted.activeDirtyRoots.get? nodeId).getD ∅).size + 2 ≤ compacted.maxWork
  | _ => True

end IncrementalFrontierEngine

open IncrementalFrontierEngine

/-- Engines with the work budget `maxWork` under every sequence of calls. -/
def engine (maxWork : Nat) : System IncrementalFrontierEngine EngineCall where
  init := fun e => ∃ nodes, create maxWork nodes = .ok e
  step := fun e c e' => e' = e.call c

/-- Once a run has lost trust, every query answers `UNKNOWN` and incomplete until a restore of all
    states succeeds. -/
def FailsClosed (M : System IncrementalFrontierEngine EngineCall) : Prop :=
  ∀ e c e', M.Reachable e → M.step e c e' → e.LosesTrust c →
    ∀ later, ((M.startingAt e').restrict (fun e c _ => ¬ e.Restores c)).Reachable later →
      ∀ nodeId result, (later.frontier nodeId).2 = .ok result →
        result.status = .unknown ∧ result.complete = false

/-!
# Graph mutations

What an atomic `addNode` or `setDependencies` leaves behind when it throws, and when it throws.
-/

/-- A call of `addNode` or `setDependencies`. -/
inductive GraphMutation
  | addNode (id : String) (dependsOn : List String)
  | setDependencies (id : String) (dependsOn : List String)

namespace GraphMutation

def id : GraphMutation → String
  | .addNode id _ => id
  | .setDependencies id _ => id

def dependsOn : GraphMutation → List String
  | .addNode _ dependsOn => dependsOn
  | .setDependencies _ dependsOn => dependsOn

/-- The requested dependency is neither empty nor the node itself. -/
def accepts (m : GraphMutation) (dependencyId : String) : Bool :=
  decide (dependencyId ≠ "") && decide (dependencyId ≠ m.id)

end GraphMutation

namespace IncrementalFrontierEngine

/-- The engine that a mutation leaves, next to its result. -/
def mutate (e : IncrementalFrontierEngine) :
    GraphMutation → IncrementalFrontierEngine × Except JsError Unit
  | .addNode id dependsOn => e.addNode id dependsOn
  | .setDependencies id dependsOn => e.setDependencies id dependsOn

def Throws (e : IncrementalFrontierEngine) (m : GraphMutation) : Prop :=
  ∃ err, (e.mutate m).2 = .error err

/-- The mutation is an `addNode` of a node that exists. -/
def AddsExisting (e : IncrementalFrontierEngine) : GraphMutation → Prop
  | .addNode id _ => id ∈ e.dependencies.keys
  | .setDependencies _ _ => False

/-- `e'` has the nodes and edges of `e`, and after any further calls it answers as `e` would. -/
structure Unchanged (e e' : IncrementalFrontierEngine) : Prop where
  nodes : ∀ n, n ∈ e'.dependencies.keys ↔ n ∈ e.dependencies.keys
  dependsOn : ∀ n d, e'.DependsOn n d ↔ e.DependsOn n d
  edges : ∀ d n, e'.Edge d n ↔ e.Edge d n
  answers : ∀ (later : List EngineCall) (nodeId : String),
    ((later.foldl call e').frontier nodeId).2 = ((later.foldl call e).frontier nodeId).2

/-- `n` depends on `d` once the node of the mutation has the requested dependencies. -/
def Requested (e : IncrementalFrontierEngine) (m : GraphMutation) (n d : String) : Prop :=
  (n = m.id ∧ d ∈ m.dependsOn) ∨ (n ≠ m.id ∧ e.DependsOn n d)

def ClosesCycle (e : IncrementalFrontierEngine) (m : GraphMutation) : Prop :=
  ∃ n, TransGen (e.Requested m) n n

/-- No id is empty, and a node to be added is new. -/
structure WellFormed (e : IncrementalFrontierEngine) (m : GraphMutation) : Prop where
  named : m.id ≠ ""
  dependencies_named : ∀ d ∈ m.dependsOn, d ≠ ""
  fresh : ¬ e.AddsExisting m

/-- A mutation that throws changes nothing, and a well-formed one throws exactly on cycles. -/
structure MutatesAtomically (e : IncrementalFrontierEngine) (m : GraphMutation) : Prop where
  unchanged : e.Throws m → Unchanged e (e.mutate m).1
  throws_iff : e.WellFormed m → (e.Throws m ↔ e.ClosesCycle m)

/-- The mutation is refused before it looks at the requested dependencies, or accepts all of them,
    or only meets nodes of the graph before the first that it does not accept. -/
def MeetsNoNewNode (e : IncrementalFrontierEngine) (m : GraphMutation) : Prop :=
  m.id = "" ∨ e.AddsExisting m ∨ (∀ d ∈ m.dependsOn, m.accepts d) ∨
    ∀ d ∈ (unique m.dependsOn).takeWhile m.accepts, d ∈ e.dependencies.keys

end IncrementalFrontierEngine

end Premise.FrontierEngine
