import Premise.Evolution.RichGuard

/-!
# The rich guard in Python

`_rich_guard` of the Python reference. A text that is missing is `None`.
-/

namespace Premise.Evolution.Python

open Collections

structure GuardReceipt where
  receiptId : String
  intentId : String
  idempotencyKey : String
  actionDigest : String
  memoryId : String
  incarnation : String
  revision : String
  sourceVersions : List SourceVersion
  resourceId : Option String
  resourceIncarnation : Option String
  expiresAt : Option UtcInstant
  lease : Option GuardLease

theorem isSome_fromIsoFormat (time : UtcInstant) : (Premise.Python.fromIsoFormat time.value).isSome = true := by
  unfold Premise.Python.fromIsoFormat
  rw [time.read, Option.bind_some, if_pos time.valid, Option.isSome_some]

/-- `_parse_time(value)`. -/
def parseTime (time : UtcInstant) : Int :=
  (Premise.Python.fromIsoFormat time.value).get (isSome_fromIsoFormat time)

/-- `_parse_time(now) >= _parse_time(limit)`. -/
def reached (now limit : UtcInstant) : Bool := decide (parseTime now ≥ parseTime limit)

/-- Some source of the receipt has another token in the memory. -/
def changed (original : List SourceVersion) (memory : Option GuardMemory) : Bool :=
  original.any (fun original => (memory.elim [] GuardMemory.sourceVersions).any (fun current =>
    original.sourceUri = current.sourceUri && original.token ≠ current.token))

variable (initial : GuardInitial)

def incomplete (input : ValidateInput) : Bool :=
  input.suppliedSlice.any (fun suppliedSlice => suppliedSlice ≠ "")
    && !initial.suppliedSlice.any SuppliedSlice.complete

def receipt (s : GuardState GuardReceipt) (input : ValidateInput) (memory : GuardMemory) : GuardReceipt where
  receiptId := receiptIdOf input.intentId
  intentId := input.intentId
  idempotencyKey := input.idempotencyKey
  actionDigest := input.actionDigest
  memoryId := memory.memoryId
  incarnation := memory.incarnation
  revision := memory.revision
  sourceVersions := memory.sourceVersions
  resourceId := s.firstResource.map GuardResource.resourceId
  resourceIncarnation := s.firstResource.map GuardResource.incarnation
  expiresAt := initial.receiptExpiresAt
  lease := initial.lease

/-- The step `validate`. -/
def validate (s : GuardState GuardReceipt) (input : ValidateInput) : GuardState GuardReceipt × GuardOutput :=
  if incomplete initial input then (s, .refused .sliceIncomplete)
  else match input.memoryIds.head?.bind s.memories.get? with
    | none => (s, .refused .memoryNotFresh)
    | some memory =>
      if memory.status ≠ "FRESH" then (s, .refused .memoryNotFresh)
      else ({ s with receipts := s.receipts.set (receiptIdOf input.intentId) (receipt initial s input memory) },
        .use (receiptIdOf input.intentId))

/-- The conditions on a commit with a receipt, in their order. -/
def rejection (s : GuardState GuardReceipt) (receipt : GuardReceipt) : Option GuardOutput :=
  if "CAS" ∉ initial.capabilities then some (.prevented .casRequired)
  else if receipt.expiresAt.any (reached s.now) then some (.rejected .receiptExpired)
  else if (receipt.lease.bind GuardLease.expiresAt).any (reached s.now) then some (.rejected .leaseExpired)
  else if changed receipt.sourceVersions (s.memories.get? receipt.memoryId) then some (.prevented .sourceChanged)
  else if (s.memories.get? receipt.memoryId).any (fun memory => memory.revision ≠ receipt.revision) then
    some (.rejected .casMismatch)
  else if (receipt.resourceId.bind s.resources.get?).any (fun resource =>
      some resource.incarnation ≠ receipt.resourceIncarnation) then
    some (.rejected .incarnationMismatch)
  else none

/-- The step `commit`. -/
def commit (s : GuardState GuardReceipt) (input : CommitInput) : GuardState GuardReceipt × GuardOutput :=
  match input.receipt.bind s.receipts.get? with
  | none =>
    if (input.idempotencyKey.bind s.actions.get?).any (fun previous => some previous ≠ input.actionDigest) then
      (s, .rejected .idempotencyConflict)
    else (s, .rejected .receiptMissing)
  | some receipt =>
    match rejection initial s receipt with
    | some output => (s, output)
    | none =>
      match s.actions.get? receipt.idempotencyKey with
      | some previous =>
        if previous = receipt.actionDigest then (s, .replay) else (s, .rejected .idempotencyConflict)
      | none => ({ s with actions := s.actions.set receipt.idempotencyKey receipt.actionDigest }, .applied)

def step (s : GuardState GuardReceipt) : GuardOperation → GuardState GuardReceipt × GuardOutput
  | .validate input => validate initial s input
  | .mutateSource sourceUri token => (s.mutateSource sourceUri token, .done)
  | .mutateMemory memoryId revision status => (s.mutateMemory memoryId revision status, .done)
  | .deleteRecreate resourceId incarnation revision => (s.deleteRecreate resourceId incarnation revision, .done)
  | .advanceTime now => ({ s with now }, .done)
  | .commit input => commit initial s input

def run (s : GuardState GuardReceipt) : List GuardStep → List (String × GuardOutput)
  | [] => []
  | next :: rest => (next.id, (step initial s next.operation).2) :: run (step initial s next.operation).1 rest

/-- `_rich_guard(vector)`. -/
def richGuard (vector : GuardVector) : List (String × GuardOutput) :=
  run vector.initial (vector.initial.state GuardReceipt) vector.steps

end Premise.Evolution.Python
