import Premise.Control.System
import Premise.Graph.Aggregate
import Premise.Reference.Validation

/-!
# What the statuses of memories mean

The status of a memory is the greatest of its own and those of its dependencies, recursively.
-/

namespace Premise.Reference

open Collections Control Js Premise.Graph Protocol.V1 Relation

/-- A call of the store, apart from the instant that the clock shows. -/
inductive StoreCall
  | register (input : MemoryEnvelope)
  | derive (input : MemoryEnvelope)
  | replace (input : MemoryEnvelope)
  | mark (memoryIds : List String) (status : MemoryStatus)
  | check (memoryIds : List String)

namespace MemoryStateStore

def perform (s : MemoryStateStore) (clock : Option Int) : StoreCall → MemoryStateStore
  | .register input => (s.register input).1
  | .derive input => (s.derive clock input).1
  | .replace input => (s.replace clock input).1
  | .mark memoryIds status => (s.markStatusesWithPrevious clock memoryIds status).1
  | .check memoryIds => (s.check clock memoryIds).1

def system : System MemoryStateStore (Option Int × StoreCall) where
  init := fun s => s = {}
  step := fun s i s' => s' = s.perform i.1 i.2

def dependsOn (s : MemoryStateStore) (memoryId : String) : List String :=
  ((s.records.get? memoryId).map (fun r => r.envelope.dependsOn)).getD []

/-- The status of a memory alone, with its expiry as it was last evaluated. -/
def ownStatus (s : MemoryStateStore) (memoryId : String) : MemoryStatus :=
  ((s.records.get? memoryId).map StateRecord.own).getD .unknown

def ownAt (now : Option Int) (r : StateRecord) : MemoryStatus :=
  if r.directlyInvalid then .invalid
  else if r.isTtl ∧ r.expired now ∧ r.baseStatus = .fresh then .stale
  else r.baseStatus

def ownStatusAt (s : MemoryStateStore) (now : Option Int) (memoryId : String) : MemoryStatus :=
  ((s.records.get? memoryId).map (ownAt now)).getD .unknown

/-- The call gives the memory the status `INVALID` directly. -/
def Invalidates (s : MemoryStateStore) (clock : Option Int) (memoryId : String) : StoreCall → Prop
  | .register input => input.memoryId = memoryId ∧ input.validity.status = .invalid ∧
      ∃ state, (s.register input).2 = .ok state
  | .derive input => input.memoryId = memoryId ∧ input.validity.status = .invalid ∧
      ∃ state, (s.derive clock input).2 = .ok state
  | .replace input => input.memoryId = memoryId ∧ input.validity.status = .invalid ∧
      ∃ state, (s.replace clock input).2 = .ok state
  | .mark memoryIds status => memoryId ∈ memoryIds ∧ status = .invalid ∧
      ∃ changes, (s.markStatusesWithPrevious clock memoryIds status).2 = .ok changes
  | .check _ => False

def Replaces (s : MemoryStateStore) (clock : Option Int) (memoryId : String) : StoreCall → Prop
  | .replace input => input.memoryId = memoryId ∧ ∃ state, (s.replace clock input).2 = .ok state
  | _ => False

/-- The memories that a call changes directly. A call of `check` changes those whose expiry it finds
    different. -/
def Changes (s : MemoryStateStore) (clock : Option Int) (memoryId : String) : StoreCall → Prop
  | .register input => memoryId = input.memoryId
  | .derive input => memoryId = input.memoryId
  | .replace input => memoryId = input.memoryId
  | .mark memoryIds _ => memoryId ∈ memoryIds
  | .check _ => ∃ r, s.records.get? memoryId = some r ∧ r.isTtl = true ∧
      r.ttlExpired ≠ r.expired clock

def DependsOnAny (s : MemoryStateStore) (memoryId : String) (changed : String → Prop) : Prop :=
  ∃ c, changed c ∧ ReflTransGen (fun n d => d ∈ s.dependsOn n) memoryId c

end MemoryStateStore

open MemoryStateStore

/-- What the statuses of the store are. -/
structure Aggregates : Prop where
  /-- `check` reports every requested memory, with the answer at its instant. -/
  checked : ∀ s, system.Reachable s → ∀ clock memoryIds items,
    (s.check clock memoryIds).2 = .ok items →
    items.map UsabilityReportItem.memoryId = memoryIds ∧ ∀ item ∈ items,
      Aggregate (s.ownStatusAt clock) s.dependsOn item.memoryId item.status
  /-- It reports whenever the memories are known. -/
  reports : ∀ s, system.Reachable s → ∀ clock memoryIds,
    (∀ memoryId ∈ memoryIds, s.records.has memoryId = true) →
    ∃ items, (s.check clock memoryIds).2 = .ok items
  /-- `stateOf` has the answer for the expiry as it was last evaluated. -/
  cached : ∀ s, system.Reachable s → ∀ memoryId state, s.stateOf memoryId = some state →
    Aggregate s.ownStatus s.dependsOn memoryId state.status
  /-- A memory that is directly invalidated stays `INVALID` until it is replaced. -/
  invalid : ∀ s, system.Reachable s → ∀ clock call memoryId, s.Invalidates clock memoryId call →
    ∀ s', ((system.startingAt (s.perform clock call)).restrict
      (fun s i _ => ¬ s.Replaces i.1 memoryId i.2)).Reachable s' →
    ∃ state, s'.stateOf memoryId = some state ∧ state.status = .invalid
  /-- Memories that do not depend on changed ones are untouched. -/
  untouched : ∀ s, system.Reachable s → ∀ clock call memoryId,
    ¬ (s.perform clock call).DependsOnAny memoryId (fun c => s.Changes clock c call) →
    (s.perform clock call).records.get? memoryId = s.records.get? memoryId

/-!
# What the replay of a journal promises

Runs of the protocol without memories that expire. The journal records for every memory a direct status,
which its events alone determine.
-/

inductive ProtocolCall
  | register (input : MemoryEnvelope)
  | derive (input : MemoryEnvelope)
  | replace (input : MemoryEnvelope)
  | signal (event : SourceChangedEvent)
  | validate (memoryIds : List String)
  | answer (i : Nat) (answer : ValidationAnswer)

namespace ReferenceProtocol

def perform (p : ReferenceProtocol) (clock : Option Int) : ProtocolCall → ReferenceProtocol
  | .register input => (p.register input).1
  | .derive input => (p.derive clock input).1
  | .replace input => (p.replace clock input).1
  | .signal event => (p.signal clock event).1
  | .validate memoryIds => (p.validate clock memoryIds).1
  | .answer i answer => (p.answer clock i answer).1

def WithoutTtl : ProtocolCall → Prop
  | .register input => input.validity.policy ≠ .ttl
  | .derive input => input.validity.policy ≠ .ttl
  | .replace input => input.validity.policy ≠ .ttl
  | _ => True

/-- The protocol under every sequence of calls without expiry. -/
def system : System ReferenceProtocol (Option Int × ProtocolCall) where
  init := fun p => p = {}
  step := fun p i p' => WithoutTtl i.2 ∧ p' = p.perform i.1 i.2

/-- The direct status of a memory after one more event. -/
def recordedBy (memoryId : String) (direct : Option MemoryStatus) (body : EventBody) :
    Option MemoryStatus :=
  if body.memoryId? = some memoryId then
    match body with
    | .memoryRegistered _ envelope => some envelope.validity.status
    | .memoryDerived _ _ => some (direct.getD .fresh)
    | .sourceChanged _ _ => direct
    | .memoryStaled _ _ => direct.map (fun d => if d ≠ .invalid then .stale else d)
    | .memoryInvalidated _ _ => direct.map (fun _ => .invalid)
    | .memoryRevalidated _ result _ _ => direct.map (fun d =>
        if d = .invalid ∧ statusForResult result ≠ .invalid then d else statusForResult result)
    | .memoryReplaced _ _ => direct.map (fun _ => .fresh)
  else direct

/-- The direct status that the events of a journal leave a memory. -/
def recorded (p : ReferenceProtocol) (memoryId : String) : Option MemoryStatus :=
  p.journal.entries.foldl (fun direct event => recordedBy memoryId direct event.body) none

/-- The status of a memory alone once the roots are marked. -/
def markedOwn (s : MemoryStateStore) (roots : List String) (status : MemoryStatus) (id : String) :
    MemoryStatus :=
  if id ∈ roots ∧ s.ownStatus id ≠ .invalid then status else s.ownStatus id

/-- A root whose status stays, so that its mark leaves no event, has a recorded status that is at least
    the one that it is marked with. -/
def RecordsMark (p : ReferenceProtocol) (roots : List String) (status : MemoryStatus) : Prop :=
  ∀ id ∈ roots, ∀ state direct, p.states.stateOf id = some state →
    Aggregate (markedOwn p.states roots status) p.states.dependsOn id state.status →
    p.recorded id = some direct → markedOwn p.states roots status id ≤ direct

/-- The results that are applied, other than `UNCHANGED`, are recorded. -/
def RecordsResults (clock : Option Int) : ReferenceProtocol → List Prepared → Prop
  | _, [] => True
  | p, item :: rest =>
    (item.result.result ≠ .unchanged →
      p.RecordsMark [item.memoryId] (statusForResult item.result.result)) ∧
    ∀ result, (p.applyPrepared clock item).2 = .ok result →
      RecordsResults clock (p.applyPrepared clock item).1 rest

/-- The status of a memory alone once `memoryId` is replaced by a `FRESH` one. -/
def refreshedOwn (s : MemoryStateStore) (memoryId id : String) : MemoryStatus :=
  if id = memoryId then .fresh else s.ownStatus id

/-- A memory is replaced by a `FRESH` one with the same dependencies, and no other memory gets a status
    below its recorded one. -/
def RecordsReplacement (p : ReferenceProtocol) (input : MemoryEnvelope) : Prop :=
  input.dependsOn = p.states.dependsOn input.memoryId ∧ input.validity.status = .fresh ∧
    ∀ id, id ≠ input.memoryId → ∀ status direct,
      Aggregate (refreshedOwn p.states input.memoryId) p.states.dependsOn id status →
      p.recorded id = some direct → direct ≤ status

/-- The event of a signal has none of the ids that the protocol is still to generate. -/
def ForeignId (p : ReferenceProtocol) (eventId : String) : Prop :=
  ∀ kind memoryId n, p.sequence ≤ n → eventId ≠ generatedId kind memoryId n

def Records (p : ReferenceProtocol) (clock : Option Int) : ProtocolCall → Prop
  | .register _ => True
  | .derive input => (∃ state, (p.states.derive clock input).2 = .ok state) →
      input.validity.status = .fresh
  | .replace input => (∃ state, (p.states.replace clock input).2 = .ok state) →
      p.RecordsReplacement input
  | .signal event => (∃ p', p.emit event.toEvent = (p', .ok ())) →
      p.ForeignId event.eventId ∧
        p.RecordsMark (p.states.memoryIdsForSource event.sourceUri) .stale
  | .validate _ => True
  | .answer i answer => ∀ pending memoryId pending', p.validations[i]? = some pending →
      pending.order = [memoryId] → p.prepare pending memoryId [] answer = .ok pending' →
      RecordsResults clock { p with validations := p.validations.eraseIdx i } pending'.prepared

/-- The memories with their statuses and dependencies, in the order of their ids. -/
def live (p : ReferenceProtocol) : List ReplayMemory :=
  (sortStrings p.states.records.keys).filterMap (fun id =>
    (p.states.stateOf id).map (fun state => ⟨id, state.status, state.envelope.dependsOn⟩))

/-- The replay of the journal has the memories that the protocol has. -/
def Reproduces (p : ReferenceProtocol) : Prop :=
  ∃ snapshot, replayEvents p.journal.entries = .ok snapshot ∧ snapshot.memories = p.live

end ReferenceProtocol

/-!
# What an operation that throws leaves behind

Runs of the protocol, memories that expire included. An operation that throws leaves the memories and the
journal as they were, and signals and validations of registered memories do not throw.
-/

namespace ReferenceProtocol

def errorOf {α : Type} : Except JsError α → Option JsError
  | .error err => some err
  | .ok _ => none

def thrown (p : ReferenceProtocol) (clock : Option Int) : ProtocolCall → Option JsError
  | .register input => errorOf (p.register input).2
  | .derive input => errorOf (p.derive clock input).2
  | .replace input => errorOf (p.replace clock input).2
  | .signal event => errorOf (p.signal clock event).2
  | .validate memoryIds => (p.validate clock memoryIds).2.bind errorOf
  | .answer i answer => (p.answer clock i answer).2.bind errorOf

def calls : System ReferenceProtocol (Option Int × ProtocolCall) where
  init := fun p => p = {}
  step := fun p i p' => p' = p.perform i.1 i.2

/-- The memory is not invalidated itself, and depends directly on an `UNKNOWN` memory but on none that
    is `INVALID`. -/
def DependsOnUnknown (s : MemoryStateStore) (memoryId : String) : Prop :=
  s.ownStatus memoryId ≠ .invalid ∧
    (∃ d ∈ s.dependsOn memoryId, s.dependencyStatus d = .unknown) ∧
    ∀ d ∈ s.dependsOn memoryId, s.dependencyStatus d ≠ .invalid

/-- No result `UNCHANGED` is applied to a memory that depends on an `UNKNOWN` one. -/
def AppliesKnown (clock : Option Int) : ReferenceProtocol → List Prepared → Prop
  | _, [] => True
  | p, item :: rest =>
    (item.result.result = .unchanged → ¬ DependsOnUnknown p.states item.memoryId) ∧
    ∀ result, (p.applyPrepared clock item).2 = .ok result →
      AppliesKnown clock (p.applyPrepared clock item).1 rest

/-- The call neither takes an event id that the protocol is still to generate, nor ends a validation that
    finds a memory `UNCHANGED` while it depends on an `UNKNOWN` one. -/
def Avoids (p : ReferenceProtocol) (clock : Option Int) : ProtocolCall → Prop
  | .signal event => (∃ p', p.emit event.toEvent = (p', .ok ())) → p.ForeignId event.eventId
  | .answer i answer => ∀ pending memoryId pending', p.validations[i]? = some pending →
      pending.order = [memoryId] → p.prepare pending memoryId [] answer = .ok pending' →
      AppliesKnown clock { p with validations := p.validations.eraseIdx i } pending'.prepared
  | _ => True

/-- The event of a signal is valid, and its id is new. -/
def WellFormedSignal (p : ReferenceProtocol) (event : SourceChangedEvent) : Prop :=
  validatePremiseEvent event.toEvent = [] ∧
    event.eventId ∉ p.journal.entries.map PremiseEvent.eventId

def WellFormedAnswer (memoryId : String) : ValidationAnswer → Prop
  | .supplied result => result.memoryId = memoryId ∧ isValidationResult result = true
  | .answered results now => (∀ result ∈ results, isValidationResult result = true) ∧
      isDateTime now = true
  | .failed => False

/-- What a caller is promised in a state. -/
structure TotalAndAtomic (p : ReferenceProtocol) : Prop where
  /-- A call that throws leaves the memories and the journal. -/
  atomic : ∀ clock call err, p.Avoids clock call → p.thrown clock call = some err →
    (p.perform clock call).states = p.states ∧ (p.perform clock call).journal = p.journal
  /-- A signal does not throw. -/
  signal : ∀ clock event, p.Avoids clock (.signal event) → p.WellFormedSignal event →
    p.thrown clock (.signal event) = none
  /-- The start of a validation does not throw. -/
  validate : ∀ clock memoryIds, p.thrown clock (.validate memoryIds) = none
  /-- Neither do the results of a registered memory. -/
  answer : ∀ clock i pending memoryId rest answer, p.validations[i]? = some pending →
    pending.order = memoryId :: rest → p.states.records.has memoryId = true →
    WellFormedAnswer memoryId answer → p.Avoids clock (.answer i answer) →
    p.thrown clock (.answer i answer) = none

end ReferenceProtocol

end Premise.Reference
