import Premise.Evolution.PythonRichGuard

/-!
# What is expected of the rich guard

The two references answer every vector alike, and a commit is applied at most once, under the state that its
receipt was issued for.
-/

namespace Premise.Evolution

open Collections Js

def UtcInstant.instant (time : UtcInstant) : Int := time.parts.instant

namespace GuardInitial

variable (initial : GuardInitial) (s : GuardState GuardReceipt)

/-- The adapter offers CAS, and the receipt has not expired. -/
structure Offered (receipt : GuardReceipt) : Prop where
  cas : "CAS" ∈ initial.capabilities
  unexpired : ∀ limit ∈ receipt.expiresAt, s.now.instant < limit.instant

/-- The lease of the receipt has not expired, and its memory has not changed. -/
structure Current (receipt : GuardReceipt) : Prop extends Offered initial s receipt where
  leased : ∀ lease ∈ receipt.lease, ∀ limit ∈ lease.expiresAt, s.now.instant < limit.instant
  sources : ∀ memory ∈ s.memories.get? receipt.memoryId, ∀ original ∈ receipt.sourceVersions,
    ∀ current ∈ memory.sourceVersions, original.sourceUri = current.sourceUri → original.token = current.token
  revision : ∀ memory ∈ s.memories.get? receipt.memoryId, memory.revision = receipt.revision

/-- The lease names the first resource, and that is another incarnation than at the start. -/
def Recreated (lease : GuardLease) (resource : GuardResource) : Prop :=
  lease.scope = some resource.resourceId ∧ ∃ first ∈ initial.resources.head?, resource.incarnation ≠ first.incarnation

/-- Nothing that the references read in different ways decides the step: whether the vector has a slice, what an
empty list of memories names, what a commit without a receipt and without a key names, and the incarnation that
the first resource is compared with. -/
def AgreesAt : GuardOperation → Prop
  | .validate input =>
    (text input.suppliedSlice ≠ "" → initial.suppliedSlice ≠ none) ∧
      (input.memoryIds = [] → (text input.suppliedSlice = "" ∨ ∃ slice ∈ initial.suppliedSlice, slice.complete = true) →
        ∀ memory ∈ s.memories.get? "", memory.status ≠ "FRESH")
  | .commit input =>
    match s.receipts.get? (text input.receipt) with
    | none =>
      (∃ previous ∈ s.actions.get? (text input.idempotencyKey), previous ≠ text input.actionDigest) ↔
        ∃ key ∈ input.idempotencyKey, ∃ previous ∈ s.actions.get? key, some previous ≠ input.actionDigest
    | some receipt =>
      (initial.Offered s receipt → receipt.lease ≠ none) ∧
        (initial.Current s receipt → ∀ lease ∈ receipt.lease, ∀ resource ∈ s.firstResource,
          (initial.Recreated lease resource ↔ resource.incarnation ≠ receipt.resourceIncarnation))
  | _ => True

def AgreesAlong (s : GuardState GuardReceipt) : List GuardStep → Prop
  | [] => True
  | next :: rest => initial.AgreesAt s next.operation ∧
    ∀ s' output, initial.step s next.operation = .ok (s', output) → AgreesAlong s' rest

end GuardInitial

/-- A step that has returned, with the state before it. -/
structure GuardEvent where
  before : GuardState GuardReceipt
  operation : GuardOperation
  output : GuardOutput

def GuardInitial.events (initial : GuardInitial) (s : GuardState GuardReceipt) : List GuardStep → List GuardEvent
  | [] => []
  | next :: rest =>
    match initial.step s next.operation with
    | .ok (s', output) => ⟨s, next.operation, output⟩ :: initial.events s' rest
    | .error _ => []

namespace GuardEvent

def receipt (e : GuardEvent) : Option GuardReceipt :=
  match e.operation with
  | .commit input => e.before.receipts.get? (text input.receipt)
  | _ => none

/-- The idempotency key of a commit: that of its receipt, or the one that it names. -/
def key (e : GuardEvent) : Option String :=
  match e.operation with
  | .commit input => some (e.receipt.elim (text input.idempotencyKey) GuardReceipt.idempotencyKey)
  | _ => none

/-- The action digest of a commit: that of its receipt, or the one that it names. -/
def digest (e : GuardEvent) : Option String :=
  match e.operation with
  | .commit input => some (e.receipt.elim (text input.actionDigest) GuardReceipt.actionDigest)
  | _ => none

/-- What a receipt was issued for is still so. -/
structure SameSince (v e : GuardEvent) (receipt : GuardReceipt) : Prop where
  revision : (e.before.memories.get? receipt.memoryId).map GuardMemory.revision
    = (v.before.memories.get? receipt.memoryId).map GuardMemory.revision
  sources : (e.before.memories.get? receipt.memoryId).map GuardMemory.sourceVersions
    = (v.before.memories.get? receipt.memoryId).map GuardMemory.sourceVersions
  incarnation : (e.before.resources.get? receipt.resourceId).map GuardResource.incarnation
    = (v.before.resources.get? receipt.resourceId).map GuardResource.incarnation

end GuardEvent

/-- The validation that has issued a receipt, which is the last one under its id. -/
def issued (events : List GuardEvent) (receiptId : String) : Option GuardEvent :=
  events.reverse.find? (fun v => v.output = .use receiptId)

/-- What allows a commit after these steps. -/
structure Guarded (initial : GuardInitial) (events : List GuardEvent) (e : GuardEvent) (receipt : GuardReceipt)
    (v : GuardEvent) : Prop where
  presented : e.receipt = some receipt
  validated : issued events receipt.receiptId = some v
  same : v.SameSince e receipt
  unexpired : ∀ limit ∈ receipt.expiresAt, e.before.now.instant < limit.instant
  leased : ∀ lease ∈ receipt.lease, ∀ limit ∈ lease.expiresAt, e.before.now.instant < limit.instant
  cas : "CAS" ∈ initial.capabilities

/-- What the guard promises of the steps of a vector. -/
structure GuardSafe (initial : GuardInitial) (events : List GuardEvent) : Prop where
  once : events.Pairwise (fun a e => a.output = .applied → e.output = .applied → a.key ≠ e.key)
  guarded : ∀ before e after, events = before ++ e :: after → e.output = .applied →
    ∃ receipt v, Guarded initial before e receipt v
  answered : events.Pairwise (fun a e => a.output = .applied → e.key = a.key →
    e.output = if e.digest = a.digest then .replay else .rejected .idempotencyConflict)

/-- A commit under a key that has been applied passes the conditions that come before the lookup of the key, and
presents its receipt unless its digest is another one. A commit that would be applied finds the incarnation that its
receipt was issued for. -/
def GuardInitial.SafeAt (initial : GuardInitial) (s : GuardState GuardReceipt) : GuardOperation → Prop
  | .commit input =>
    match s.receipts.get? (text input.receipt) with
    | none => s.actions.get? (text input.idempotencyKey) ≠ some (text input.actionDigest)
    | some receipt =>
      if s.actions.has receipt.idempotencyKey then
        initial.Current s receipt ∧ ∀ lease ∈ receipt.lease, ∀ resource ∈ s.firstResource, ¬ initial.Recreated lease resource
      else initial.Current s receipt →
        (∀ lease ∈ receipt.lease, ∀ resource ∈ s.firstResource, ¬ initial.Recreated lease resource) →
        ∀ resource ∈ s.firstResource, resource.incarnation = receipt.resourceIncarnation
  | _ => True

end Premise.Evolution
