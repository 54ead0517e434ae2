import Premise.Js.JsonText
import Premise.Vectors.Check

/-!
# The scopes of the premise/1.1 vectors

`scopeOverlaps` of the evolution references, in TypeScript and in Python, and the operations that use it:
`check`, `receipt` and `invalidate`. The fields of a vector have their types.
-/

namespace Premise.Vectors

open Collections Js Protocol.V1

/-- `value.startsWith(start)`. -/
def startsWith (value start : List Char) : Bool := start.isPrefixOf value

/-- `value.endsWith(last)`. -/
def endsWith (value last : List Char) : Bool := last.isSuffixOf value

def wildcard (scope : List Char) : List Char :=
  if endsWith scope ['/', '*'] then scope.dropLast
  else if endsWith scope ['/'] then scope
  else scope ++ ['/']

def scopeOverlaps (left right : List Char) : Bool :=
  if left = ['/'] ∨ right = ['/'] ∨ left = right then true
  else if endsWith left ['/', '*'] then startsWith right (wildcard left)
  else if endsWith right ['/', '*'] then startsWith left (wildcard right)
  else startsWith left (wildcard right) || startsWith right (wildcard left)

local instance lawfulBEq_chars : LawfulBEq (List Char) := List.instLawfulBEq

/-- `_scope_overlaps(left, right)` of the Python reference. -/
def pythonScopeOverlaps (left right : List Char) : Bool :=
  if left ∈ [['/'], right] ∨ right = ['/'] ∨ left = right then true
  else if endsWith left ['/', '*'] then startsWith right left.dropLast
  else if endsWith right ['/', '*'] then startsWith left right.dropLast
  else
    let leftPrefix := if endsWith left ['/'] then left else left ++ ['/']
    let rightPrefix := if endsWith right ['/'] then right else right ++ ['/']
    startsWith left rightPrefix || startsWith right leftPrefix

abbrev Segment := {s : List Char // s ≠ [] ∧ '/' ∉ s}

abbrev Path := List Segment

inductive Ending
  /-- `/p`. -/
  | plain
  /-- `/p/`; the root is one of these. -/
  | slash
  /-- `/p/*`. -/
  | below
deriving DecidableEq

def Ending.text : Ending → List Char
  | .plain => []
  | .slash => ['/']
  | .below => ['/', '*']

/-- A scope: an absolute path with its ending. -/
structure Scope where
  path : Path
  ending : Ending
  root : path = [] → ending ≠ .plain
  /-- A path that ends with `*` is not a plain one: its text is read as a wildcard. -/
  not_wildcard : ending = .plain → ∀ s ∈ path.getLast?, s.val ≠ ['*']

def pathText (path : Path) : List Char := path.flatMap (fun s => '/' :: s.val)

namespace Scope

def text (scope : Scope) : List Char := pathText scope.path ++ scope.ending.text

/-- The paths that a scope names: its own and those below it, or only those below it. -/
def Names (scope : Scope) (path : Path) : Prop :=
  scope.path <+: path ∧ (scope.ending = .below → scope.path ≠ path)

def Meets (s t : Scope) : Prop := ∃ path, s.Names path ∧ t.Names path

def Within (s t : Scope) : Prop := ∀ path, s.Names path → t.Names path

/-- The scope, not the root, is at or above a wildcard: a proper prefix of its path, or its path without a slash
    at the end. -/
def Above (s w : Scope) : Prop :=
  s.text ≠ ['/'] ∧ s.path <+: w.path ∧ (s.path = w.path → s.ending = .plain)

/-- The comparison of two scopes that meet fails: the wildcard whose branch is taken is not met from above. -/
def Missed (s t : Scope) : Prop :=
  (s.ending = .below ∧ t.Above s) ∨ (s.ending ≠ .below ∧ t.ending = .below ∧ s.Above t)

end Scope

def intersects (left right : List Scope) : Bool :=
  left.any (fun a => right.any (fun b => scopeOverlaps a.text b.text))

def covers (available required : List Scope) : Bool :=
  required.all (fun need => available.any (fun held => scopeOverlaps held.text need.text))

/-! ## Vectors -/

structure Identity where
  tenantId : String
  resourceId : String
  incarnationId : String
deriving DecidableEq

structure ScopedEvidence where
  identity : Identity
  versionToken : String
  scopes : List Scope

structure ScopedObservation where
  identity : Identity
  available : Option Bool
  versionToken : String
  changedScopes : List Scope

structure ScopedMemory where
  memoryId : String
  identity : Identity
  invalidated : Bool
  dependsOn : List String
  evidence : List ScopedEvidence
  scopes : List Scope

structure Receipt where
  identity : Identity
  versionToken : String
  validatorId : String
  authorizationContextDigest : String
  scopes : List Scope
  causalFrontier : Json

structure ReceiptRequest where
  identity : Identity
  versionToken : String
  validatorId : String
  authorizationContextDigest : String
  requiredScopes : List Scope
  causalFrontier : Json

structure Change where
  identity : Identity
  changedScopes : List Scope

structure CheckVector where
  tenantId : String
  memories : List ScopedMemory
  observations : List ScopedObservation

def CheckVector.findObservation (vector : CheckVector) (evidence : ScopedEvidence) : Option ScopedObservation :=
  vector.observations.find? (fun candidate => candidate.identity.resourceId = evidence.identity.resourceId)

def CheckVector.checkEvidence (vector : CheckVector) (evidence : ScopedEvidence) : MemoryStatus :=
  match vector.findObservation evidence with
  | none => .unknown
  | some observation =>
    if observation.identity.tenantId ≠ evidence.identity.tenantId then .unknown
    else if observation.identity.incarnationId ≠ evidence.identity.incarnationId then .invalid
    else if observation.available = some false then .unknown
    else if evidence.versionToken = observation.versionToken then .fresh
    else if observation.changedScopes ≠ [] && !intersects evidence.scopes observation.changedScopes then .fresh
    else .stale

def CheckVector.entries (vector : CheckVector) : List Entry :=
  vector.memories.map (fun memory =>
    { memoryId := memory.memoryId
      permitted := vector.tenantId = "" || memory.identity.tenantId = vector.tenantId
      invalidated := memory.invalidated
      dependencies := memory.dependsOn
      evidence := memory.evidence.map vector.checkEvidence })

def CheckVector.checkMemory (vector : CheckVector) (memoryId : String) (seen : List String) : MemoryStatus :=
  stateFor vector.entries seen memoryId

/-- The reason that `receiptVector(vector)` gives. -/
def receiptReason (receipt : Receipt) (request : ReceiptRequest) : String :=
  if receipt.identity ≠ request.identity then
    if receipt.identity.tenantId ≠ request.identity.tenantId then "TENANT_MISMATCH" else "IDENTITY_MISMATCH"
  else if receipt.versionToken ≠ request.versionToken then "VERSION_MISMATCH"
  else if receipt.validatorId ≠ request.validatorId then "VALIDATOR_MISMATCH"
  else if receipt.authorizationContextDigest ≠ request.authorizationContextDigest then "AUTHORIZATION_MISMATCH"
  else if !covers receipt.scopes request.requiredScopes then "SCOPE_INSUFFICIENT"
  else if receipt.causalFrontier.sorted.stringify ≠ request.causalFrontier.sorted.stringify then
    "CAUSAL_FRONTIER_MISMATCH"
  else "MATCH"

def invalidationVector (change : Change) (memories : List ScopedMemory) : List String :=
  sortStrings ((memories.filter (fun memory => memory.identity = change.identity &&
    intersects memory.scopes change.changedScopes)).map ScopedMemory.memoryId)

/-- `_invalidation(vector)` of the Python reference: the changed scopes are on the left. -/
def pythonInvalidation (change : Change) (memories : List ScopedMemory) : List String :=
  ((memories.filter (fun memory => change.identity = memory.identity &&
    change.changedScopes.any (fun a => memory.scopes.any (fun b => pythonScopeOverlaps a.text b.text)))).map
      ScopedMemory.memoryId).insertionSort (· ≤ ·)

/-- Some scope of the one list and some scope of the other one meet. -/
def Touch (left right : List Scope) : Prop := ∃ s ∈ left, ∃ t ∈ right, s.Meets t

def Seen (left right : List Scope) : Prop := ∃ s ∈ left, ∃ t ∈ right, s.Meets t ∧ ¬ s.Missed t

/-- Every memory of the changed identity is listed when one of its scopes and a changed scope meet. -/
def ListsTouched (change : Change) (memories : List ScopedMemory) (affected : List String) : Prop :=
  ∀ memory ∈ memories, memory.identity = change.identity → Touch memory.scopes change.changedScopes →
    memory.memoryId ∈ affected

/-- The comparisons, made by `seen`, do not miss all memories of an id that should be listed. -/
def SeesTouched (change : Change) (memories : List ScopedMemory) (seen : List Scope → List Scope → Prop) : Prop :=
  ∀ memory ∈ memories, memory.identity = change.identity → Touch memory.scopes change.changedScopes →
    ∃ other ∈ memories, other.memoryId = memory.memoryId ∧ other.identity = change.identity ∧
      seen other.scopes change.changedScopes

/-- Its observation has another version than the evidence, changed where the evidence has scopes. -/
structure CheckVector.Changed (vector : CheckVector) (evidence : ScopedEvidence) (observation : ScopedObservation) :
    Prop where
  observed : vector.findObservation evidence = some observation
  version : evidence.versionToken ≠ observation.versionToken
  touch : Touch evidence.scopes observation.changedScopes

/-- The observation is one of the evidence's resource, and available. -/
structure ScopedObservation.Comparable (observation : ScopedObservation) (evidence : ScopedEvidence) : Prop where
  tenant : observation.identity.tenantId = evidence.identity.tenantId
  incarnation : observation.identity.incarnationId = evidence.identity.incarnationId
  available : observation.available ≠ some false

/-- Every required scope is contained in a scope of the receipt. -/
def Contains (available required : List Scope) : Prop := ∀ need ∈ required, ∃ held ∈ available, need.Within held

/-- Apart from the scopes, the receipt is for the request. -/
structure Receipt.Answers (receipt : Receipt) (request : ReceiptRequest) : Prop where
  identity : receipt.identity = request.identity
  version : receipt.versionToken = request.versionToken
  validator : receipt.validatorId = request.validatorId
  authorization : receipt.authorizationContextDigest = request.authorizationContextDigest
  frontier : receipt.causalFrontier.sorted.stringify = request.causalFrontier.sorted.stringify

end Premise.Vectors
