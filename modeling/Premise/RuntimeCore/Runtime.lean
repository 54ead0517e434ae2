import Premise.FrontierEngine.Operations
import Premise.Graph.Search
import Premise.Js.JsonText
import Premise.RuntimeCore.Store
import Premise.ValidationScope.Scope

/-!
# `PremiseRuntime`: state and private methods

What a runtime keeps, and what its methods share: the clock, events, the audit journal, the indexes, the
frontier engine and the receipts. The clock, random ids, digests, `Date.parse` and the fate of a journal
append are parameters: the `i`-th reading, and the `i`-th append.
-/

namespace Premise.RuntimeCore

open Collections Control FrontierEngine Js Protocol
  ValidationScope

structure RuntimeHost where
  now : Nat → String
  randomUUID : Nat → String
  digestFor : Json → String
  digest_valid : ∀ value, isDigest (digestFor value) = true
  /-- The hexadecimal SHA-256 digest of a text. -/
  sha256 : String → String
  dateParse : String → Option Int
  journalAccepts : Nat → Bool
  maxFrontierWork : Nat

inductive ValidationOutcome
  | unchanged
  | changed
  | missing
  | unknown
deriving DecidableEq

structure RuntimeValidationReport where
  memoryId : String
  result : ValidationOutcome
  status : V2MemoryStatus
  checkedAt : String
  sourceUri : Option String := none
  version : Option VersionReference := none
  evidenceId : Option String := none
  reason : Option String := none
deriving DecidableEq

inductive Usability
  | usable
  | revalidate
  | reject
deriving DecidableEq

def usability : V2MemoryStatus → Usability
  | .fresh => .usable
  | .invalid => .reject
  | .stale => .revalidate
  | .unknown => .revalidate

structure RuntimeCheckItem where
  memoryId : String
  status : V2MemoryStatus
  decision : Usability
  reason : Option String := none
deriving DecidableEq

inductive JournalEntry
  | event (event : V2Event)
  | decision (tenantId : String) (item : RuntimeCheckItem) (occurredAt : String)

structure RuntimeJournal where
  entries : List JournalEntry := []
  appends : Nat := 0

def journalKey (event : V2Event) : String :=
  event.tenantId ++ "\x00" ++ event.idempotencyKey

namespace RuntimeJournal

def events (j : RuntimeJournal) : List V2Event :=
  j.entries.filterMap (fun entry => match entry with
    | .event event => some event
    | .decision _ _ _ => none)

/-- `appendEvent(event)`, whose error is caught: an event that the journal has is not appended again. -/
def appendEvent (accepts : Nat → Bool) (event : V2Event) (j : RuntimeJournal) : RuntimeJournal :=
  if accepts j.appends = false ∨ validateV2Event event.document ≠ []
      ∨ journalKey event ∈ j.events.map journalKey then { j with appends := j.appends + 1 }
  else { entries := j.entries ++ [.event event], appends := j.appends + 1 }

/-- `appendDecision(tenantId, decision, occurredAt)`, whose error is caught. -/
def appendDecision (accepts : Nat → Bool) (dateParse : String → Option Int) (tenantId : String)
    (item : RuntimeCheckItem) (occurredAt : String) (j : RuntimeJournal) : RuntimeJournal :=
  if accepts j.appends = false ∨ validText tenantId = false ∨ (dateParse occurredAt).isNone
      ∨ validText item.memoryId = false ∨ item.reason.any (fun reason => !validText reason) then
    { j with appends := j.appends + 1 }
  else { entries := j.entries ++ [.decision tenantId item occurredAt], appends := j.appends + 1 }

end RuntimeJournal

/-! ## State -/

/-- What the runtime remembers of a stream. -/
structure StreamState where
  nextSequence : Nat := 0
  seen : OrderedMap Nat String := ∅
  hasSnapshot : Bool := false

/-- A receipt in the cache, with the instant at which it expires. -/
structure RuntimeReceipt where
  value : RuntimeValidationReport
  expiresAt : Int
deriving DecidableEq

structure RuntimeState where
  store : InMemoryRuntimeStore := {}
  replayStore : MemoryV2SignatureReplayStore := {}
  journal : RuntimeJournal := {}
  /-- The readings of the clock. -/
  readings : Nat := 0
  /-- The random ids that were drawn. -/
  uuids : Nat := 0
  receipts : OrderedMap String RuntimeReceipt := ∅
  receiptGeneration : Nat := 0
  frontierEngine : Option IncrementalFrontierEngine := none
  streamStates : OrderedMap String StreamState := ∅
  validationInvocation : Nat := 0
  sourceMemoryIds : OrderedMap String (OrderedSet String) := ∅
  dependentsByDependency : OrderedMap String (OrderedSet String) := ∅
  recordOrder : OrderedMap String Nat := ∅
  nextRecordOrder : Nat := 0
  indexedStoreRevision : Option Nat := none

abbrev RuntimeCommand : Type → Type := Command RuntimeState RuntimeError

abbrev RuntimeReceiptScopeFactory : Type :=
  EvidenceReference → RuntimeRecord → Option PremiseValidationScope

/-- The options. Envelopes must be signed when signatures are verified. -/
structure RuntimeOptions (P K : Type) where
  tenantId : String := "default"
  /-- The tenant of the principal of the runtime. -/
  principalTenant : String := tenantId
  signatureVerification : Option (V2SignatureVerificationOptions P K) := none
  /-- The number of receipts that a cache may have. -/
  receiptCache : Option Nat := none
  /-- A factory that throws has no scope to supply. -/
  receiptScope : Option RuntimeReceiptScopeFactory := none
  receiptTtlMs : Nat := 60000
  /-- There is a journal. -/
  journal : Bool := false
  incrementalFrontier : Bool := false
  cache_scoped : receiptCache.isSome → receiptScope.isSome := by decide
  ttl_positive : 1 ≤ receiptTtlMs := by decide

namespace PremiseRuntime

variable {P K : Type} (host : RuntimeHost) (o : RuntimeOptions P K)

def now : RuntimeCommand String := fun w =>
  ({ w with readings := w.readings + 1 }, .ok (host.now w.readings))

def randomUUID : RuntimeCommand String := fun w =>
  ({ w with uuids := w.uuids + 1 }, .ok (host.randomUUID w.uuids))

def onStore {α : Type} (c : StoreCommand α) : RuntimeCommand α :=
  c.zoom RuntimeState.store (fun store w => { w with store })

/-- `this.store.get(memoryId)`. -/
def stored (memoryId : String) : RuntimeCommand (Option RuntimeRecord) :=
  .read (fun w => w.store.get memoryId)

def eventFor (idempotencyKey : String) : RuntimeCommand (Option V2Event) :=
  .read (fun w => w.store.getEvent idempotencyKey)

def auditEvent (event : V2Event) : RuntimeCommand Unit :=
  if o.journal then
    .update (fun w => { w with journal := w.journal.appendEvent host.journalAccepts event })
  else pure ()

/-- `emitDecision(item)`: the instant is only read when there is a journal. -/
def emitDecision (item : RuntimeCheckItem) : RuntimeCommand Unit :=
  if o.journal then do
    let occurredAt ← now host
    .update (fun w => { w with
      journal := w.journal.appendDecision host.journalAccepts host.dateParse o.tenantId item occurredAt })
  else pure ()

def requestDocument (type : V2EventType) (memoryId : Option String) (request : Json) : Json :=
  .object [("type", .string type.text), ("memoryId", Json.nullable memoryId), ("request", request)]

def requestDigest (type : V2EventType) (memoryId : Option String) (request : Json) : String :=
  host.digestFor (requestDocument type memoryId request)

def emit (type : V2EventType) (memoryId : Option String) (payload : List (String × Json))
    (idempotencyKey : String) (persist : Bool) (requestPayload : Json) : RuntimeCommand V2Event := do
  match (← eventFor idempotencyKey) with
  | some existing =>
    .rejectIf (existing.type ≠ type ∨ existing.memoryId ≠ memoryId
      ∨ existing.requestDigest ≠ requestDigest host type memoryId requestPayload)
      (conflictingKey idempotencyKey)
    return existing
  | none =>
    let uuid ← randomUUID host
    let occurredAt ← now host
    let eventId := "evt_" ++ o.tenantId ++ "_" ++ uuid
    let event : V2Event := {
      tenantId := o.tenantId
      eventId
      operationId := eventId
      idempotencyKey
      requestDigest := requestDigest host type memoryId requestPayload
      type
      occurredAt
      memoryId := memoryId.filter (fun id => decide (id ≠ ""))
      payload }
    if persist then
      onStore (InMemoryRuntimeStore.appendEvent event)
      auditEvent host o event
    return event

def persistRecordAndEvent (record : RuntimeRecord) (event : V2Event) : RuntimeCommand Unit := do
  onStore (InMemoryRuntimeStore.putAndAppend record event)
  auditEvent host o event

def notFound (memoryId : String) : RuntimeError :=
  .error ("Memory not found or inaccessible: " ++ memoryId)

def get (principalTenant memoryId : String) : RuntimeCommand (Option RuntimeRecord) :=
  .read (fun w => (w.store.get memoryId).filter
    (fun record => decide (record.envelope.tenantId = principalTenant)))

def require (memoryId : String) : RuntimeCommand RuntimeRecord := do
  match (← get o.principalTenant memoryId) with
  | some record => return record
  | none => .throw (notFound memoryId)

def assertTenant (tenantId : String) : RuntimeCommand Unit :=
  .rejectIf (tenantId ≠ o.tenantId) (.error ("Tenant boundary violation: " ++ tenantId))

/-- `trustedEnvelope(input, idempotentReplay)`: a replay is verified against a replay store of its own. -/
def trustedEnvelope (input : MemoryEnvelopeV2) (idempotentReplay : Bool) :
    RuntimeCommand MemoryEnvelopeV2 :=
  match o.signatureVerification with
  | none => .lift (parseMemoryEnvelopeV2 input)
  | some options =>
    let verify := (parseAndVerifyMemoryEnvelopeV2 options input).mapError RuntimeError.signature
    if idempotentReplay then .lift (verify {}).2
    else verify.zoom RuntimeState.replayStore (fun replayStore w => { w with replayStore })

end PremiseRuntime

/-!
# Indexes, the frontier and receipts

The reverse indexes of the runtime, the memories that a source change affects, and the scopes under which
validations are shared.
-/

def addUnder (id : String) (index : OrderedMap String (OrderedSet String)) (key : String) :
    OrderedMap String (OrderedSet String) :=
  index.set key (((index.get? key).getD ∅).add id)

/-- The sets under the keys without an element; an empty one is removed. -/
def removeUnder (id : String) (index : OrderedMap String (OrderedSet String)) (key : String) :
    OrderedMap String (OrderedSet String) :=
  match index.get? key with
  | none => index
  | some ids =>
    let ids := ids.erase id
    if ids.size = 0 then index.erase key else index.set key ids

def frontierStatus : V2MemoryStatus → FrontierStatus
  | .fresh => .fresh
  | .stale => .stale
  | .invalid => .invalid
  | .unknown => .unknown

namespace PremiseRuntime

variable {P K : Type} (host : RuntimeHost) (o : RuntimeOptions P K)

/-- `indexRecord(record)`. -/
def indexed (record : RuntimeRecord) (w : RuntimeState) : RuntimeState :=
  if record.envelope.tenantId ≠ o.tenantId then w
  else
    let memoryId := record.envelope.memoryId
    let known := w.recordOrder.has memoryId
    { w with
      recordOrder := if known then w.recordOrder else w.recordOrder.set memoryId w.nextRecordOrder
      nextRecordOrder := if known then w.nextRecordOrder else w.nextRecordOrder + 1
      sourceMemoryIds := (record.envelope.evidence.map EvidenceReference.sourceUri).foldl
        (addUnder memoryId) w.sourceMemoryIds
      dependentsByDependency := record.envelope.dependsOn.foldl (addUnder memoryId)
        w.dependentsByDependency }

/-- `deindexRecord(record)`. -/
def deindexed (record : RuntimeRecord) (w : RuntimeState) : RuntimeState :=
  if record.envelope.tenantId ≠ o.tenantId then w
  else
    let memoryId := record.envelope.memoryId
    { w with
      sourceMemoryIds := (record.envelope.evidence.map EvidenceReference.sourceUri).foldl
        (removeUnder memoryId) w.sourceMemoryIds
      dependentsByDependency := record.envelope.dependsOn.foldl (removeUnder memoryId)
        w.dependentsByDependency }

def syncStoreRevision : RuntimeCommand Unit :=
  .update (fun w => { w with indexedStoreRevision := some w.store.revision })

/-- `try { … } catch { this.frontierEngine.markUnknown() }`. -/
def tryFrontier {α : Type} (c : Command IncrementalFrontierEngine JsError α) : RuntimeCommand Unit :=
  .update (fun w => { w with
    frontierEngine := w.frontierEngine.map (fun engine =>
      match c engine with
      | (engine, .ok _) => engine
      | (engine, .error _) => engine.markUnknown) })

/-- The engine takes over the dependencies and the status of a record. -/
def frontierRecord (record : RuntimeRecord) : RuntimeCommand Unit :=
  tryFrontier (do
    (fun engine => engine.setDependencies record.envelope.memoryId record.envelope.dependsOn
      : Command IncrementalFrontierEngine JsError Unit)
    (fun engine => engine.replaceStatus record.envelope.memoryId
      (frontierStatus record.envelope.validity.status)
      : Command IncrementalFrontierEngine JsError FrontierImpact))

def isolatedKey (evidence : EvidenceReference) (record : RuntimeRecord) (invocation : Nat) : String :=
  "isolated:" ++ record.envelope.memoryId ++ ":" ++ evidence.evidenceId ++ ":" ++ toString invocation

/-- The scope that a factory supplies, bound to what the runtime observes; it must be complete before. -/
def boundScope (evidence : EvidenceReference) (record : RuntimeRecord) : Option PremiseValidationScope := do
  let factory ← o.receiptScope
  let supplied ← factory evidence record
  let _ ← (premiseValidationScopeKey host.sha256 supplied).toOption
  let evidenceVersion := match evidence.version with
    | none => "none"
    | some version => String.ofList version.document.stringify
  return { supplied with
    tenantId := record.envelope.tenantId
    resourceId := evidence.sourceUri
    validatorId := (evidence.validator.map ValidatorReference.id).getD ""
    versionToken := supplied.versionToken ++ "|runtime-evidence:" ++ evidenceVersion }

/-- The key and the scope under which a validation is shared, if it can be. -/
def sharedScope (evidence : EvidenceReference) (record : RuntimeRecord) :
    Option (String × PremiseValidationScope) := do
  let scope ← boundScope host o evidence record
  let key ← (premiseValidationScopeKey host.sha256 scope).toOption
  return (key, scope)

def validationScope (evidence : EvidenceReference) (record : RuntimeRecord) :
    RuntimeCommand (String × Option PremiseValidationScope) := fun w =>
  match sharedScope host o evidence record with
  | some (key, scope) => (w, .ok (key, some scope))
  | none =>
    let w := { w with validationInvocation := w.validationInvocation + 1 }
    (w, .ok (isolatedKey evidence record w.validationInvocation, none))

def invalidateReceipt (scope : Option PremiseValidationScope) : RuntimeCommand Unit :=
  match o.receiptCache, scope.bind (fun scope => (premiseValidationScopeKey host.sha256 scope).toOption) with
  | some _, some key => .update (fun w => { w with
      receiptGeneration := w.receiptGeneration + 1
      receipts := w.receipts.erase key })
  | _, _ => pure ()

def invalidateRecordReceipts (record : RuntimeRecord) : RuntimeCommand Unit :=
  if o.receiptCache.isNone ∨ o.receiptScope.isNone then pure ()
  else .forEach (fun evidence => do
      let validation ← validationScope host o evidence record
      invalidateReceipt host o validation.2) record.envelope.evidence

end PremiseRuntime

end Premise.RuntimeCore
