import Premise.Reference.Replay
import Premise.Reference.State

/-!
# `ReferenceProtocol`

The store with its journal. An operation returns the protocol as it leaves it, also when it throws: an
event that the journal refuses leaves the statuses that were changed before. Between the start of a
validation and its last result other operations may run; what follows the last result is one step.
-/

namespace Premise.Reference

open Collections Js Protocol Protocol.V1

structure ValidationReportItem where
  memoryId : String
  result : ValidatorResult
  previousStatus : MemoryStatus
  status : MemoryStatus
  version : Option VersionReference
deriving DecidableEq

structure ValidationReport where
  items : List ValidationReportItem
  eventIds : List String

structure PropagationReport where
  roots : List String
  affected : List String
  statuses : List (String × MemoryStatus)

/-- The event of a signal. -/
structure SourceChangedEvent where
  eventId : String
  occurredAt : String
  sourceUri : String
  version : VersionReference
deriving DecidableEq

def SourceChangedEvent.toEvent (event : SourceChangedEvent) : PremiseEvent :=
  ⟨event.eventId, event.occurredAt, .sourceChanged event.sourceUri event.version⟩

/-- The result of one memory of a validation. -/
structure Prepared where
  memoryId : String
  previousStatus : MemoryStatus
  result : ValidationResult
deriving DecidableEq

/-- A validation that waits for results: the memories that are still to be prepared, in their order. -/
structure PendingValidation where
  memoryIds : List String
  order : List String
  prepared : List Prepared

/-- What decides the result of a memory: the caller, or the validators of its sources; `failed` is a
    validator that throws. -/
inductive ValidationAnswer
  | supplied (result : ValidationResult)
  | answered (results : List ValidationResult) (now : String)
  | failed

structure ReferenceProtocol where
  states : MemoryStateStore := {}
  journal : EventJournal := {}
  sequence : Nat := 0
  validations : List PendingValidation := []

/-- `eventId(prefix, memoryId, sequence)`. -/
def generatedId (kind memoryId : String) (sequence : Nat) : String :=
  kind ++ ":" ++ memoryId ++ ":" ++ toString sequence

def aggregateResults (memoryId : String) (results : List ValidationResult) (now : String) :
    ValidationResult :=
  match ([.missing, .changed, .unknown, .unchanged] : List ValidatorResult).findSome?
    (fun result => results.find? (fun item => decide (item.result = result))) with
  | none => { memoryId := memoryId, result := .unknown, checkedAt := now, status := .unknown }
  | some selected =>
    { selected with
        memoryId := memoryId
        status := statusForResult selected.result }

namespace ReferenceProtocol

/-- `this.journal.append(event)`. -/
def emit (p : ReferenceProtocol) (event : PremiseEvent) : ReferenceProtocol × Except JsError Unit :=
  match p.journal.append event with
  | .error err => (p, .error err)
  | .ok journal => ({ p with journal := journal }, .ok ())

/-- The store is changed, and an event of it is emitted under a new id. -/
def emitNext (p : ReferenceProtocol) (states : MemoryStateStore) (kind memoryId occurredAt : String)
    (body : EventBody) : ReferenceProtocol × Except JsError Unit :=
  { p with
      states := states
      sequence := p.sequence + 1 }.emit ⟨generatedId kind memoryId p.sequence, occurredAt, body⟩

def register (p : ReferenceProtocol) (input : MemoryEnvelope) :
    ReferenceProtocol × Except JsError Unit :=
  match parseMemoryEnvelope input with
  | .error err => (p, .error err)
  | .ok parsed =>
    if (p.states.stateOf parsed.memoryId).any (fun existing => decide (existing.envelope = parsed)) then
      (p, .ok ())
    else
      match p.states.register parsed with
      | (states, .error err) => ({ p with states := states }, .error err)
      | (states, .ok state) =>
        p.emitNext states "registered" state.memoryId state.envelope.validity.checkedAt
          (.memoryRegistered state.envelope.memoryId state.envelope)

def derive (p : ReferenceProtocol) (clock : Option Int) (input : MemoryEnvelope) :
    ReferenceProtocol × Except JsError Unit :=
  match p.states.derive clock input with
  | (states, .error err) => ({ p with states := states }, .error err)
  | (states, .ok state) =>
    p.emitNext states "derived" state.memoryId state.envelope.validity.checkedAt
      (.memoryDerived state.memoryId state.envelope.dependsOn)

def replace (p : ReferenceProtocol) (clock : Option Int) (input : MemoryEnvelope) :
    ReferenceProtocol × Except JsError Unit :=
  match p.states.replace clock input with
  | (states, .error err) => ({ p with states := states }, .error err)
  | (states, .ok state) =>
    p.emitNext states "replaced" state.memoryId state.envelope.validity.checkedAt
      (.memoryReplaced state.memoryId state.memoryId)

def transitionBody (memoryId : String) (nextStatus : MemoryStatus) (reason : String)
    (version : Option VersionReference) : String × EventBody :=
  match nextStatus with
  | .invalid => ("invalidated", .memoryInvalidated memoryId reason)
  | .stale => ("staled", .memoryStaled memoryId reason)
  | _ =>
    if reason = "UNCHANGED" then
      ("revalidated", .memoryRevalidated memoryId .unchanged nextStatus
        (some (version.getD ⟨"dependency", memoryId⟩)))
    else ("revalidated", .memoryRevalidated memoryId .unknown nextStatus none)

def appendTransition (p : ReferenceProtocol) (memoryId : String)
    (previousStatus nextStatus : MemoryStatus) (occurredAt reason : String)
    (version : Option VersionReference) : ReferenceProtocol × Except JsError (Option String) :=
  if previousStatus = nextStatus ∧ reason ≠ "UNCHANGED" then (p, .ok none)
  else
    let (kind, body) := transitionBody memoryId nextStatus reason version
    match p.emitNext p.states kind memoryId occurredAt body with
    | (p', .error err) => (p', .error err)
    | (p', .ok ()) => (p', .ok (some (generatedId kind memoryId p.sequence)))

/-- The transitions of a list of changes, with the ids of their events. -/
def appendTransitions (occurredAt reason : String) (version : String → Option VersionReference) :
    ReferenceProtocol → List StatusChange →
      ReferenceProtocol × Except JsError (List (String × Option String))
  | p, [] => (p, .ok [])
  | p, change :: rest =>
    match p.appendTransition change.state.memoryId change.previousStatus change.state.status occurredAt
      reason (version change.state.memoryId) with
    | (p, .error err) => (p, .error err)
    | (p, .ok id) =>
      match appendTransitions occurredAt reason version p rest with
      | (p, .error err) => (p, .error err)
      | (p, .ok ids) => (p, .ok ((change.state.memoryId, id) :: ids))

def signal (p : ReferenceProtocol) (clock : Option Int) (event : SourceChangedEvent) :
    ReferenceProtocol × Except JsError PropagationReport :=
  match p.emit event.toEvent with
  | (p, .error err) => (p, .error err)
  | (p, .ok ()) =>
    let roots := p.states.memoryIdsForSource event.sourceUri
    match p.states.markStatusesWithPrevious clock roots .stale with
    | (states, .error err) => ({ p with states := states }, .error err)
    | (states, .ok changed) =>
      match appendTransitions event.occurredAt "signal" (fun _ => none) { p with states := states }
        changed with
      | (p, .error err) => (p, .error err)
      | (p, .ok _) =>
        let affected := sortStrings (unique (changed.map (fun change => change.state.memoryId)))
        (p, .ok ⟨sortStrings roots, affected, affected.filterMap (fun memoryId =>
          (p.states.stateOf memoryId).map (fun state => (memoryId, state.status)))⟩)

/-! ## Validation -/

/-- The sets of `validationOrder`. -/
structure VisitOrder where
  visiting : OrderedSet String := ∅
  visited : OrderedSet String := ∅
  order : List String := []

/-- `visit(memoryId)`, at most `depth` calls deep. -/
def visit (g : DependencyGraph) (requested : List String) :
    Nat → VisitOrder → String → Except JsError VisitOrder
  | 0, _, memoryId => .error (.error ("Dependency graph contains a cycle at " ++ memoryId))
  | depth + 1, o, memoryId =>
    if memoryId ∈ o.visited then .ok o
    else if memoryId ∈ o.visiting then
      .error (.error ("Dependency graph contains a cycle at " ++ memoryId))
    else do
      let o ← ((g.dependenciesOf memoryId).filter (fun d => decide (d ∈ requested))).foldlM
        (visit g requested depth) { o with visiting := o.visiting.add memoryId }
      return ⟨o.visiting.erase memoryId, o.visited.add memoryId, o.order ++ [memoryId]⟩

def validationOrder (p : ReferenceProtocol) (memoryIds : List String) :
    Except JsError (List String) :=
  (memoryIds.foldlM (visit p.states.graph memoryIds (memoryIds.length + 1)) {}).map VisitOrder.order

/-- One prepared result is applied: the protocol, the id of the memory's event, and its report. -/
def applyPrepared (p : ReferenceProtocol) (clock : Option Int) (item : Prepared) :
    ReferenceProtocol × Except JsError (List String × ValidationReportItem) :=
  let nextStatus := statusForResult item.result.result
  match p.states.markStatusesWithPrevious clock [item.memoryId] nextStatus with
  | (states, .error err) => ({ p with states := states }, .error err)
  | (states, .ok changed) =>
    match appendTransitions item.result.checkedAt (ValidatorResult.text item.result.result)
      (fun memoryId => if memoryId = item.memoryId then item.result.version else none)
      { p with states := states } (changed.filter (fun change =>
        decide (change.state.memoryId = item.memoryId
          ∨ change.previousStatus ≠ change.state.status))) with
    | (p, .error err) => (p, .error err)
    | (p, .ok ids) =>
      (p, .ok (ids.filterMap (fun id => if id.1 = item.memoryId then id.2 else none),
        { memoryId := item.memoryId
          result := item.result.result
          previousStatus := item.previousStatus
          status := ((p.states.stateOf item.memoryId).map MemoryState.status).getD nextStatus
          version := item.result.version }))

/-- The results of a validation are applied one after the other. -/
def applyAll (clock : Option Int) : ReferenceProtocol → List Prepared →
    ReferenceProtocol × Except JsError (List String × List ValidationReportItem)
  | p, [] => (p, .ok ([], []))
  | p, item :: rest =>
    match p.applyPrepared clock item with
    | (p, .error err) => (p, .error err)
    | (p, .ok (ids, report)) =>
      match applyAll clock p rest with
      | (p, .error err) => (p, .error err)
      | (p, .ok (eventIds, reports)) => (p, .ok (ids ++ eventIds, report :: reports))

def commit (p : ReferenceProtocol) (clock : Option Int) (memoryIds : List String)
    (prepared : List Prepared) : ReferenceProtocol × Except JsError ValidationReport :=
  match applyAll clock p prepared with
  | (p, .error err) => (p, .error err)
  | (p, .ok (eventIds, reports)) =>
    (p, .ok ⟨memoryIds.filterMap (fun memoryId =>
      reports.find? (fun report => decide (report.memoryId = memoryId))), eventIds⟩)

/-- `validate(memoryIds, suppliedResults)` up to the first result that it waits for. -/
def validate (p : ReferenceProtocol) (clock : Option Int) (memoryIds : List String) :
    ReferenceProtocol × Option (Except JsError ValidationReport) :=
  match p.validationOrder memoryIds with
  | .error err => (p, some (.error err))
  | .ok [] =>
    let committed := p.commit clock memoryIds []
    (committed.1, some committed.2)
  | .ok order => ({ p with validations := p.validations ++ [⟨memoryIds, order, []⟩] }, none)

def resultOf (memoryId : String) : ValidationAnswer → Except JsError ValidationResult
  | .failed => .error (.error "validator failed")
  | .supplied result => .ok result
  | .answered results now => .ok (aggregateResults memoryId results now)

def prepare (p : ReferenceProtocol) (pending : PendingValidation) (memoryId : String)
    (rest : List String) (answer : ValidationAnswer) : Except JsError PendingValidation :=
  match p.states.stateOf memoryId with
  | none => .error (MemoryStateStore.unknownMemory memoryId)
  | some state =>
    match resultOf memoryId answer with
    | .error err => .error err
    | .ok result =>
      if result.memoryId ≠ memoryId ∨ isValidationResult result = false then
        .error (.typeError ("Invalid validation result for " ++ memoryId))
      else .ok
        { pending with
            order := rest
            prepared := pending.prepared ++ [⟨memoryId, state.status, result⟩] }

/-- A pending validation gets the result of its next memory. -/
def answer (p : ReferenceProtocol) (clock : Option Int) (i : Nat) (answer : ValidationAnswer) :
    ReferenceProtocol × Option (Except JsError ValidationReport) :=
  match p.validations[i]? with
  | none => (p, none)
  | some pending =>
    let closed := { p with validations := p.validations.eraseIdx i }
    match pending.order with
    | [] => (p, none)
    | memoryId :: rest =>
      match p.prepare pending memoryId rest answer with
      | .error err => (closed, some (.error err))
      | .ok pending =>
        if rest = [] then
          let committed := closed.commit clock pending.memoryIds pending.prepared
          (committed.1, some committed.2)
        else ({ p with validations := p.validations.set i pending }, none)

end ReferenceProtocol

end Premise.Reference
