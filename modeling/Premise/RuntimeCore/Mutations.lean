import Premise.RuntimeCore.Runtime

/-!
# Mutations

`register`, `derive` and `replace`: a record and its event are written once for an event key.
-/

namespace Premise.RuntimeCore

open Collections Control Js Protocol

namespace PremiseRuntime

variable {P K : Type} (host : RuntimeHost) (o : RuntimeOptions P K)

def alreadyRegistered (memoryId : String) : RuntimeError :=
  .error ("Memory already registered: " ++ memoryId)

/-- `if (this.store.get(memoryId) !== undefined) throw …`. -/
def assertNotRegistered (memoryId : String) : RuntimeCommand Unit := do
  let present ← .read (fun w => (w.store.get memoryId).isSome)
  .rejectIf (present = true) (alreadyRegistered memoryId)

/-- The request that the digest of a registration is taken of. -/
def registrationRequest (record : RuntimeRecord) : Json :=
  .object [("envelope", record.envelope.document), ("content", record.content)]

/-- What `register` and `derive` do with a record that they accept. -/
def enroll (type : V2EventType) (payload : List (String × Json)) (idempotencyKey : String)
    (replay : Option V2Event) (record : RuntimeRecord) : RuntimeCommand Unit := do
  let memoryId := record.envelope.memoryId
  let event ← emit host o type (some memoryId) payload idempotencyKey false (registrationRequest record)
  if replay.isSome then
    let present ← .read (fun w => (w.store.get memoryId).isSome)
    .rejectIf (present = false)
      (.error ("Idempotent event has no corresponding memory: " ++ idempotencyKey))
  else
    assertNotRegistered memoryId
    persistRecordAndEvent host o record event
    .update (indexed o record)
    frontierRecord record
    syncStoreRevision

def register (record : RuntimeRecord) (eventId : Option String) : RuntimeCommand Unit := do
  let candidate ← .lift (parseMemoryEnvelopeV2 record.envelope)
  let idempotencyKey := eventId.getD ("register:" ++ candidate.memoryId)
  let replay ← eventFor idempotencyKey
  let envelope ← trustedEnvelope o record.envelope replay.isSome
  assertTenant o envelope.tenantId
  if eventId.isNone then assertNotRegistered envelope.memoryId
  enroll host o .memoryRegistered [("envelope", envelope.document)] idempotencyKey replay
    { record with envelope }

/-- `if (dependency === undefined || …) throw …`. -/
def assertDependency (dependencyId : String) : RuntimeCommand Unit := do
  let dependency ← stored dependencyId
  .rejectIf (dependency.all (fun d => decide (d.envelope.tenantId ≠ o.tenantId)) = true)
    (.error ("Missing required dependency: " ++ dependencyId))

def derive (record : RuntimeRecord) (eventId : Option String) : RuntimeCommand Unit := do
  let candidate ← .lift (parseMemoryEnvelopeV2 record.envelope)
  let idempotencyKey := eventId.getD ("derive:" ++ candidate.memoryId)
  let replay ← eventFor idempotencyKey
  let envelope ← trustedEnvelope o record.envelope replay.isSome
  assertTenant o envelope.tenantId
  if eventId.isNone then assertNotRegistered envelope.memoryId
  .rejectIf (envelope.dependsOn = []) (.error "Derived memory must have at least one dependency")
  .forEach (assertDependency o) envelope.dependsOn
  enroll host o .memoryDerived [("dependsOn", Json.strings envelope.dependsOn)] idempotencyKey replay
    { record with envelope }

/-- The request that the digest of a replacement is taken of. -/
def replacementRequest (memoryId : String) (record : RuntimeRecord) : Json :=
  .object [("memoryId", .string memoryId), ("envelope", record.envelope.document),
    ("content", record.content)]

def replace (memoryId : String) (content : Json) (input : MemoryEnvelopeV2) (eventId : Option String) :
    RuntimeCommand Unit := do
  let current ← require o memoryId
  let candidate ← .lift (parseMemoryEnvelopeV2 input)
  let idempotencyKey :=
    eventId.getD ("replace:" ++ memoryId ++ ":" ++ candidate.contentDigest.getD "none")
  let replay ← eventFor idempotencyKey
  let next ← trustedEnvelope o input replay.isSome
  .rejectIf (next.memoryId ≠ memoryId) (.error "Replacement must keep the memory ID")
  assertTenant o next.tenantId
  let record : RuntimeRecord := { envelope := next, content }
  invalidateRecordReceipts host o current
  let event ← emit host o .memoryReplaced (some memoryId)
    (optionalText "previousDigest" current.envelope.contentDigest
      ++ optionalText "nextDigest" next.contentDigest)
    idempotencyKey false (replacementRequest memoryId record)
  if replay.isSome then return ()
  persistRecordAndEvent host o record event
  .update (deindexed o current)
  .update (indexed o record)
  frontierRecord record
  syncStoreRevision

inductive MutationCall
  | register (record : RuntimeRecord)
  | derive (record : RuntimeRecord)
  | replace (memoryId : String) (content : Json) (envelope : MemoryEnvelopeV2)

namespace MutationCall

def type : MutationCall → V2EventType
  | .register _ => .memoryRegistered
  | .derive _ => .memoryDerived
  | .replace _ _ _ => .memoryReplaced

def memoryId : MutationCall → String
  | .register record => record.envelope.memoryId
  | .derive record => record.envelope.memoryId
  | .replace memoryId _ _ => memoryId

def record : MutationCall → RuntimeRecord
  | .register record => record
  | .derive record => record
  | .replace _ content envelope => { envelope, content }

/-- The document whose digest the event of the call carries. -/
def document : MutationCall → Json
  | .register record => requestDocument .memoryRegistered (some record.envelope.memoryId) (registrationRequest record)
  | .derive record => requestDocument .memoryDerived (some record.envelope.memoryId) (registrationRequest record)
  | .replace memoryId content envelope =>
    requestDocument .memoryReplaced (some memoryId) (replacementRequest memoryId { envelope, content })

def perform (eventId : Option String) : MutationCall → RuntimeCommand Unit
  | .register record => PremiseRuntime.register host o record eventId
  | .derive record => PremiseRuntime.derive host o record eventId
  | .replace memoryId content envelope => PremiseRuntime.replace host o memoryId content envelope eventId

/-- Another operation, memory, envelope or content. -/
def Differs (call other : MutationCall) : Prop :=
  call.type ≠ other.type ∨ call.memoryId ≠ other.memoryId
    ∨ ¬ call.record.envelope.document.Same other.record.envelope.document
    ∨ ¬ call.record.content.Same other.record.content

end MutationCall

/-- Mutations, and what other methods write to the store, in any order. -/
inductive Later (w : RuntimeState) : RuntimeState → Prop
  | refl : Later w w
  | mutation {w' : RuntimeState} (h : Later w w') (eventId : Option String) (call : MutationCall) :
    Later w (call.perform host o eventId w').1
  | write {w' w'' : RuntimeState} (h : Later w w') (call : InMemoryRuntimeStore.StoreCall)
    (hstore : w''.store = call.run w'.store) : Later w w''

end PremiseRuntime

end Premise.RuntimeCore
