import Premise.Graph.SmallestOrder
import Premise.Reference.State

/-!
# Calls on `DependencyGraph`

The calls that change a graph, and what a graph answers about paths and orders. A call returns the graph as it
leaves it, also when it throws.
-/

namespace Premise.Reference

open Collections Premise.Graph Js FrontierEngine

namespace DependencyGraph

def hasNode (g : DependencyGraph) (nodeId : String) : Bool := g.dependencies.has nodeId

def dependentsOf (g : DependencyGraph) (nodeId : String) : List String := sortStrings (g.dependents.neighbours nodeId)

def addDependency (g : DependencyGraph) (nodeId dependencyId : String) : DependencyGraph × Except JsError Unit :=
  let nodeWasKnown := g.dependencies.has nodeId
  match g.addNode nodeId with
  | .error err => (g, .error err)
  | .ok g =>
    match g.addNode dependencyId with
    | .error err => (g, .error err)
    | .ok g =>
      if nodeId = dependencyId ∨ (nodeWasKnown ∧ g.hasPath dependencyId nodeId) then
        (g, .error (dependencyCycleError nodeId dependencyId))
      else if dependencyId ∈ g.dependencies.neighbours nodeId then (g, .ok ())
      else (⟨g.dependencies.addEdge nodeId dependencyId, g.dependents.addEdge dependencyId nodeId⟩, .ok ())

def reachableDependents (g : DependencyGraph) (nodeId : String) : List String :=
  let queue := g.dependentsOf nodeId
  sortStrings (flood g.dependentsOf (queue.length + g.dependents.edgeCount + 1) queue).elems

def topologicalOrder (g : DependencyGraph) : Except JsError (List String) :=
  let (result, size) :=
    (countdown sortStrings g.dependencies.neighbours g.dependentsOf g.dependencies.keys).getD ([], 0)
  if result.length ≠ size then .error (.error "Dependency graph contains a cycle") else .ok result

/-- A call that changes the graph. -/
inductive Call
  | addNode (nodeId : String)
  | addDependency (nodeId dependencyId : String)
  | setDependencies (nodeId : String) (dependencyIds : List String)
deriving DecidableEq

def perform (g : DependencyGraph) : Call → DependencyGraph × Except JsError Unit
  | .addNode nodeId =>
    match g.addNode nodeId with
    | .error err => (g, .error err)
    | .ok g => (g, .ok ())
  | .addDependency nodeId dependencyId => g.addDependency nodeId dependencyId
  | .setDependencies nodeId dependencyIds => g.setDependencies nodeId dependencyIds

/-- The graph after the calls; a call that throws leaves what it has done. -/
def after (calls : List Call) : DependencyGraph := calls.foldl (fun g call => (g.perform call).1) {}

end DependencyGraph

end Premise.Reference
