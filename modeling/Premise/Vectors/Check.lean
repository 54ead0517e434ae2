import Premise.Graph.Aggregate
import Premise.Protocol.MemoryEnvelope

/-!
# The check of the reference vectors

`check` of the premise/1 references, in TypeScript and in Python, and the recursion that it shares with the
premise/1.1 references. The fields of a vector have their types; a field that a vector may leave out is `none`.
-/

namespace Premise.Vectors

open Graph Js Protocol.V1

/-- What the recursion reads of a memory. -/
structure Entry where
  memoryId : String
  /-- It belongs to the requested tenant. -/
  permitted : Bool
  invalidated : Bool
  dependencies : List String
  /-- The states of its evidence items. -/
  evidence : List MemoryStatus

def lookup (entries : List Entry) (memoryId : String) : Option Entry :=
  entries.find? (fun entry => entry.memoryId = memoryId)

/-- The loop over the states of the dependencies: the first `INVALID` or `UNKNOWN` one ends it. -/
def dependencyState (stale : Bool) : List MemoryStatus → MemoryStatus
  | [] => if stale then .stale else .fresh
  | .invalid :: _ => .invalid
  | .unknown :: _ => .unknown
  | .stale :: rest => dependencyState true rest
  | .fresh :: rest => dependencyState stale rest

/-- The loop over the states of the evidence: the first one that is not `FRESH` ends it. -/
def evidenceState : List MemoryStatus → MemoryStatus
  | [] => .fresh
  | .fresh :: rest => evidenceState rest
  | state :: _ => state

/-- The state of a memory whose dependencies are in the listed states. -/
def combine (entry : Entry) (states : List MemoryStatus) : MemoryStatus :=
  if entry.invalidated then .invalid
  else if dependencyState false states = .fresh then evidenceState entry.evidence
  else dependencyState false states

theorem unseen_lt {entries : List Entry} {seen : List String} {memoryId : String} {entry : Entry}
    (h : lookup entries memoryId = some entry) (hseen : memoryId ∉ seen) :
    (entries.filter (fun e => e.memoryId ∉ memoryId :: seen)).length <
      (entries.filter (fun e => e.memoryId ∉ seen)).length := by
  have hmem := List.mem_of_find?_eq_some h
  have hid : entry.memoryId = memoryId := by simpa using List.find?_some h
  have hsub : entries.filter (fun e => e.memoryId ∉ memoryId :: seen) =
      (entries.filter (fun e => e.memoryId ∉ seen)).filter (fun e => e.memoryId ≠ memoryId) := by
    rw [List.filter_filter]
    refine List.filter_congr fun e _ => ?_
    simp
  rw [hsub]
  refine List.length_filter_lt_length_iff_exists.mpr ⟨entry, List.mem_filter.mpr ⟨hmem, ?_⟩, ?_⟩
  · simpa [hid] using hseen
  · simp [hid]

/-- The state of a memory, where `seen` are the memories on the way to it. -/
def stateFor (entries : List Entry) (seen : List String) (memoryId : String) : MemoryStatus :=
  match h : lookup entries memoryId with
  | none => .unknown
  | some entry =>
    if hseen : entry.permitted = false ∨ memoryId ∈ seen then .unknown
    else combine entry (entry.dependencies.map (fun dependency => stateFor entries (memoryId :: seen) dependency))
termination_by (entries.filter (fun e => e.memoryId ∉ seen)).length
decreasing_by exact unseen_lt h (fun hmem => hseen (Or.inr hmem))

structure Evidence where
  validity : Option String := none
  source : Option String
  version : Option String

structure Observation where
  available : Option Bool
  version : Option String

structure Memory where
  memoryId : String
  tenantId : Option String := none
  invalidation : Option Json := none
  dependencies : List String := []
  evidence : List Evidence := []

structure Vector where
  tenant : Option String := none
  memories : Option (List Memory) := none
  memory : Option Memory := none
  observations : List (String × Observation) := []

namespace Vector

def memoriesIn (vector : Vector) : List Memory := vector.memories.getD vector.memory.toList

def stateOf (vector : Vector) (entry : Evidence) : MemoryStatus :=
  if entry.validity = some "INVALID" then .invalid
  else if entry.validity = some "UNKNOWN" then .unknown
  else if entry.validity = some "STALE" then .stale
  else
    match entry.source.bind (fun source => vector.observations.lookup source) with
    | none => .unknown
    | some current =>
      if current.available ≠ some true then .unknown
      else
        match entry.version, current.version with
        | some version, some currentVersion => if version ≠ currentVersion then .stale else .fresh
        | _, _ => .unknown

def entries (vector : Vector) : List Entry :=
  vector.memoriesIn.map (fun memory =>
    { memoryId := memory.memoryId
      permitted := vector.tenant.all (fun tenant => memory.tenantId = some tenant)
      invalidated := memory.invalidation.any (fun invalidation => invalidation ≠ .null)
      dependencies := memory.dependencies
      evidence := memory.evidence.map vector.stateOf })

/-- `stateForMemory(vector, memoryId, seen)`, and `_check_memory(vector, memory_id, seen)`. -/
def stateForMemory (vector : Vector) (memoryId : String) (seen : List String) : MemoryStatus :=
  stateFor vector.entries seen memoryId

end Vector

/-- A memory's own state: the greatest of its invalidation and of the states of its evidence. -/
def Entry.own (entry : Entry) : MemoryStatus :=
  maxOf (if entry.invalidated then .invalid else .fresh) entry.evidence

def ownOf (entries : List Entry) (memoryId : String) : MemoryStatus :=
  ((lookup entries memoryId).map Entry.own).getD .unknown

def dependsOn (entries : List Entry) (memoryId : String) : List String :=
  ((lookup entries memoryId).map Entry.dependencies).getD []

/-- The state of a memory is the greatest of its own and of the states of its dependencies. -/
abbrev Effective (entries : List Entry) : String → MemoryStatus → Prop :=
  Aggregate (ownOf entries) (dependsOn entries)

/-- The dependencies have no cycle, are present, and belong to the requested tenant. -/
structure Complete (entries : List Entry) : Prop where
  acyclic : WellFounded (fun d n => d ∈ dependsOn entries n)
  present : ∀ memoryId, ∀ d ∈ dependsOn entries memoryId, ∃ entry, lookup entries d = some entry ∧ entry.permitted = true

/-- Nothing is worse than what ends the loops: the first dependency that is `INVALID` or `UNKNOWN`, else a
    `STALE` one, else the first evidence item that is not `FRESH`. -/
structure FirstIsWorst (evidence states : List MemoryStatus) : Prop where
  dependency : ∀ s, states.find? (fun s => decide (MemoryStatus.unknown ≤ s)) = some s → ∀ t ∈ states ++ evidence, t ≤ s
  stale : (∀ s ∈ states, s ≤ .stale) → MemoryStatus.stale ∈ states → ∀ t ∈ evidence, t ≤ .stale
  evidence : (∀ s ∈ states, s = .fresh) → ∀ s, evidence.find? (fun s => decide (s ≠ .fresh)) = some s →
    ∀ t ∈ evidence, t ≤ s

/-- At every memory nothing is worse than what ends the loops, when its dependencies are in their greatest states. -/
def EndsWithWorst (entries : List Entry) : Prop :=
  ∀ memoryId entry, lookup entries memoryId = some entry → entry.permitted = true → entry.invalidated = false →
    ∀ states, List.Forall₂ (Effective entries) entry.dependencies states → FirstIsWorst entry.evidence states

def Vector.AnswersMaximum (vector : Vector) : Prop :=
  ∀ memoryId entry, lookup vector.entries memoryId = some entry → entry.permitted = true →
    Effective vector.entries memoryId (vector.stateForMemory memoryId [])

/-- The memories are the same up to the order of their dependencies and of their evidence. -/
structure Memory.Reorders (memory memory' : Memory) : Prop where
  memoryId : memory.memoryId = memory'.memoryId
  tenantId : memory.tenantId = memory'.tenantId
  invalidation : memory.invalidation = memory'.invalidation
  dependencies : memory.dependencies.Perm memory'.dependencies
  evidence : memory.evidence.Perm memory'.evidence

structure Vector.Reorders (vector vector' : Vector) : Prop where
  tenant : vector.tenant = vector'.tenant
  observations : vector.observations = vector'.observations
  memories : List.Forall₂ Memory.Reorders vector.memoriesIn vector'.memoriesIn

end Premise.Vectors
