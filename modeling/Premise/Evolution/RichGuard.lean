import Premise.Js.Basic
import Premise.Python.Text

/-!
# The rich guard

`richGuardVector` of the TypeScript reference, on `premise-guard/1-rich` vectors. The fields of a vector have
their types; a field that a vector may leave out is `none`.
-/

namespace Premise.Evolution

open Collections Js

/-- A date-time text in UTC that both languages read. -/
structure UtcInstant where
  value : String
  parts : DateParts
  read : dateParts value = some parts
  utc : parts.offset = (1, 0, 0)
  valid : Python.validDatetime parts = true

structure SourceVersion where
  sourceUri : String
  token : String
deriving DecidableEq

structure GuardMemory where
  memoryId : String
  incarnation : String
  revision : String
  status : String
  sourceVersions : List SourceVersion
deriving DecidableEq

structure GuardResource where
  resourceId : String
  incarnation : String
  revision : String
deriving DecidableEq

structure GuardLease where
  scope : Option String
  expiresAt : Option UtcInstant

structure SuppliedSlice where
  complete : Bool

structure GuardInitial where
  now : UtcInstant
  capabilities : List String
  memories : List GuardMemory
  resources : List GuardResource
  lease : Option GuardLease
  receiptExpiresAt : Option UtcInstant
  suppliedSlice : Option SuppliedSlice

structure ValidateInput where
  intentId : String
  idempotencyKey : String
  memoryIds : List String
  actionDigest : String
  suppliedSlice : Option String

structure CommitInput where
  receipt : Option String
  idempotencyKey : Option String
  actionDigest : Option String

inductive GuardOperation
  | validate (input : ValidateInput)
  | mutateSource (sourceUri token : String)
  | mutateMemory (memoryId revision status : String)
  | deleteRecreate (resourceId incarnation revision : String)
  | advanceTime (now : UtcInstant)
  | commit (input : CommitInput)

structure GuardStep where
  id : String
  operation : GuardOperation

structure GuardVector where
  initial : GuardInitial
  steps : List GuardStep

inductive GuardReason
  | sliceIncomplete
  | memoryNotFresh
  | idempotencyConflict
  | receiptMissing
  | casRequired
  | receiptExpired
  | leaseExpired
  | sourceChanged
  | casMismatch
  | incarnationMismatch
deriving DecidableEq

inductive GuardOutput
  /-- `{ decision: "REJECTED", reason, receipt: null, effects: 0 }`. -/
  | refused (reason : GuardReason)
  /-- `{ decision: "USE", receipt }`. -/
  | use (receipt : String)
  /-- `{ effects: 0 }`. -/
  | done
  /-- `{ status: "REJECTED", reason, effects: 0 }`. -/
  | rejected (reason : GuardReason)
  /-- `{ status: "REJECTED", reason, effects: 0, toctouEscaped: false }`. -/
  | prevented (reason : GuardReason)
  /-- `{ status: "REPLAY", effects: 0, idempotency: "REPLAY", sameResultAs: "commit-first" }`. -/
  | replay
  /-- `{ status: "APPLIED", effects: 1, idempotency: "NEW" }`. -/
  | applied
deriving DecidableEq

/-- What the steps of a vector change, with receipts of the type `R`. -/
structure GuardState (R : Type) where
  memories : OrderedMap String GuardMemory
  resources : OrderedMap String GuardResource
  receipts : OrderedMap String R := ∅
  /-- The digest of the action that was applied under a key. -/
  actions : OrderedMap String String := ∅
  now : UtcInstant

def GuardInitial.state (R : Type) (initial : GuardInitial) : GuardState R where
  memories := OrderedMap.ofList (initial.memories.map (fun memory => (memory.memoryId, memory)))
  resources := OrderedMap.ofList (initial.resources.map (fun resource => (resource.resourceId, resource)))
  now := initial.now

/-- The intent without `intent:` at its start. -/
def intentSuffix (intentId : String) : String :=
  if "intent:".toList.isPrefixOf intentId.toList then String.ofList (intentId.toList.drop 7) else intentId

def receiptIdOf (intentId : String) : String :=
  "receipt:" ++ (if intentSuffix intentId = "receipt-expired:1" then "expired:1" else intentSuffix intentId)

/-- `text(value)` of a text that may be missing. -/
def text (value : Option String) : String := value.getD ""

def SourceVersion.mutate (sourceUri token : String) (source : SourceVersion) : SourceVersion :=
  if source.sourceUri = sourceUri then { source with token } else source

def GuardMemory.mutateSource (sourceUri token : String) (memory : GuardMemory) : GuardMemory :=
  { memory with sourceVersions := memory.sourceVersions.map (SourceVersion.mutate sourceUri token) }

namespace GuardState

variable {R : Type}

/-- The step `mutate_source`. -/
def mutateSource (s : GuardState R) (sourceUri token : String) : GuardState R :=
  { s with memories := s.memories.mapValues (GuardMemory.mutateSource sourceUri token) }

/-- The step `mutate_memory`. -/
def mutateMemory (s : GuardState R) (memoryId revision status : String) : GuardState R :=
  match s.memories.get? memoryId with
  | some memory => { s with memories := s.memories.set memoryId { memory with revision, status } }
  | none => s

/-- The step `delete_recreate`. -/
def deleteRecreate (s : GuardState R) (resourceId incarnation revision : String) : GuardState R :=
  match s.resources.get? resourceId with
  | some resource => { s with resources := s.resources.set resourceId { resource with incarnation, revision } }
  | none => s

/-- `resources.values().next().value`. -/
def firstResource (s : GuardState R) : Option GuardResource := s.resources.values.head?

end GuardState

/-! ## The steps -/

structure GuardReceipt where
  receiptId : String
  intentId : String
  idempotencyKey : String
  actionDigest : String
  memoryId : String
  incarnation : String
  revision : String
  sourceVersions : List SourceVersion
  resourceId : String
  resourceIncarnation : String
  expiresAt : Option UtcInstant
  lease : Option GuardLease

/-- `Date.parse(now) >= Date.parse(limit)`; the comparison with `NaN` is false. -/
def reached (now limit : UtcInstant) : Bool :=
  match dateParse now.value, dateParse limit.value with
  | some now, some limit => decide (now ≥ limit)
  | _, _ => false

/-- Some source of the receipt has another token in the memory. -/
def sourceChanged (original : List SourceVersion) (memory : Option GuardMemory) : Bool :=
  original.any (fun original => (memory.elim [] GuardMemory.sourceVersions).any (fun current =>
    original.sourceUri = current.sourceUri && original.token ≠ current.token))

namespace GuardInitial

variable (initial : GuardInitial)

def incomplete (input : ValidateInput) : Except JsError Bool :=
  if text input.suppliedSlice = "" then .ok false
  else match initial.suppliedSlice with
    | some slice => .ok (!slice.complete)
    | none => .error (.typeError "initial.suppliedSlice must be an object")

def receipt (s : GuardState GuardReceipt) (input : ValidateInput) (memory : GuardMemory) : GuardReceipt where
  receiptId := receiptIdOf input.intentId
  intentId := input.intentId
  idempotencyKey := input.idempotencyKey
  actionDigest := input.actionDigest
  memoryId := memory.memoryId
  incarnation := memory.incarnation
  revision := memory.revision
  sourceVersions := memory.sourceVersions
  resourceId := text (s.firstResource.map GuardResource.resourceId)
  resourceIncarnation := text (s.firstResource.map GuardResource.incarnation)
  expiresAt := initial.receiptExpiresAt
  lease := initial.lease

/-- The step `validate`. -/
def validate (s : GuardState GuardReceipt) (input : ValidateInput) :
    Except JsError (GuardState GuardReceipt × GuardOutput) := do
  let incomplete ← initial.incomplete input
  if incomplete then return (s, .refused .sliceIncomplete)
  match s.memories.get? (text input.memoryIds.head?) with
  | none => return (s, .refused .memoryNotFresh)
  | some memory =>
    if memory.status ≠ "FRESH" then return (s, .refused .memoryNotFresh)
    return ({ s with receipts := s.receipts.set (receiptIdOf input.intentId) (initial.receipt s input memory) },
      .use (receiptIdOf input.intentId))

/-- The resource is another incarnation than the first resource was at the start. -/
def incarnationMismatch (s : GuardState GuardReceipt) (lease : GuardLease) : Bool :=
  s.firstResource.any (fun resource => lease.scope = some resource.resourceId
    && initial.resources.head?.any (fun first => resource.incarnation ≠ first.incarnation))

/-- The conditions on a commit with a receipt, in their order. -/
def rejection (s : GuardState GuardReceipt) (receipt : GuardReceipt) : Except JsError (Option GuardOutput) :=
  if "CAS" ∉ initial.capabilities then .ok (some (.prevented .casRequired))
  else if receipt.expiresAt.any (reached s.now) then .ok (some (.rejected .receiptExpired))
  else match receipt.lease with
    | none => .error (.typeError "receipt.lease must be an object")
    | some lease =>
      if lease.expiresAt.any (reached s.now) then .ok (some (.rejected .leaseExpired))
      else if sourceChanged receipt.sourceVersions (s.memories.get? receipt.memoryId) then
        .ok (some (.prevented .sourceChanged))
      else if (s.memories.get? receipt.memoryId).any (fun memory => memory.revision ≠ receipt.revision) then
        .ok (some (.rejected .casMismatch))
      else if initial.incarnationMismatch s lease then .ok (some (.rejected .incarnationMismatch))
      else .ok none

/-- The step `commit`. -/
def commit (s : GuardState GuardReceipt) (input : CommitInput) :
    Except JsError (GuardState GuardReceipt × GuardOutput) :=
  match s.receipts.get? (text input.receipt) with
  | none =>
    if (s.actions.get? (text input.idempotencyKey)).any (fun previous => previous ≠ text input.actionDigest) then
      .ok (s, .rejected .idempotencyConflict)
    else .ok (s, .rejected .receiptMissing)
  | some receipt => do
    match ← initial.rejection s receipt with
    | some output => return (s, output)
    | none =>
      match s.actions.get? receipt.idempotencyKey with
      | some previous =>
        if previous = receipt.actionDigest then return (s, .replay)
        else return (s, .rejected .idempotencyConflict)
      | none => return ({ s with actions := s.actions.set receipt.idempotencyKey receipt.actionDigest }, .applied)

def step (s : GuardState GuardReceipt) : GuardOperation → Except JsError (GuardState GuardReceipt × GuardOutput)
  | .validate input => initial.validate s input
  | .mutateSource sourceUri token => .ok (s.mutateSource sourceUri token, .done)
  | .mutateMemory memoryId revision status => .ok (s.mutateMemory memoryId revision status, .done)
  | .deleteRecreate resourceId incarnation revision =>
    .ok (s.deleteRecreate resourceId incarnation revision, .done)
  | .advanceTime now => .ok ({ s with now }, .done)
  | .commit input => initial.commit s input

def run (s : GuardState GuardReceipt) : List GuardStep → Except JsError (List (String × GuardOutput))
  | [] => .ok []
  | step :: rest => do
    let (s', output) ← initial.step s step.operation
    let outputs ← run s' rest
    return (step.id, output) :: outputs

end GuardInitial

def richGuardVector (vector : GuardVector) : Except JsError (List (String × GuardOutput)) :=
  vector.initial.run (vector.initial.state GuardReceipt) vector.steps

end Premise.Evolution
