import Premise.Collections.OrderedMap
import Premise.Control.Loop
import Premise.Js.Basic

/-!
# `DurableMirrorStore`: the task graph

The store answers from memory and hands its writes to a persistent store through a graph of tasks.
A task is named by the number of tasks before it, and a batch of events by its task. The promise jobs
of a task (`task.action`, `setImmediate`, `Promise.all`, the reactions to `task.done`) are phases that
the event loop moves on.
-/

namespace Premise.DurableMirror

open Collections Control Js

/-- `FRESHNESS_STATES`. -/
inductive Freshness
  | fresh
  | stale
  | invalid
  | unknown
deriving DecidableEq, Repr

/-- A stored record: what the store reads of it, and its serialized form. -/
structure MirrorRecord where
  memoryId : String
  /-- `freshnessState(record)`. -/
  freshnessState : Option Freshness
  json : String
deriving DecidableEq

structure MirrorEvent where
  idempotencyKey : String
  eventId : String
  requestDigest : Option String
  json : String
deriving DecidableEq

structure MirrorSnapshot where
  records : List MirrorRecord
  events : List MirrorEvent
deriving DecidableEq

/-- A call of the persistent store. -/
inductive PersistentCall
  | put (record : MirrorRecord)
  | putAndAppend (record : MirrorRecord) (event : MirrorEvent)
  | appendEvent (event : MirrorEvent)
  | appendEvents (events : List MirrorEvent)
  | restore (snapshot : MirrorSnapshot)
deriving DecidableEq

/-- The `action` of a task. -/
inductive TaskAction
  | put (record : MirrorRecord)
  | putAndAppend (record : MirrorRecord) (event : MirrorEvent)
  | flushEventBatch
  | restore (snapshot : MirrorSnapshot)
deriving DecidableEq

/-- Whether the task writes a record, so that `put` or `putAndAppend` reacts to its `done`. -/
def TaskAction.writesRecord : TaskAction → Bool
  | .put _ => true
  | .putAndAppend _ _ => true
  | .flushEventBatch => false
  | .restore _ => false

/-- Where the action of a task stands. -/
inductive TaskPhase
  /-- Not started. -/
  | queued
  /-- Started; the promise job that runs the action is pending. -/
  | scheduled
  /-- Waiting for `setImmediate`. -/
  | immediate
  /-- Waiting for the listed tasks. -/
  | awaiting (dependencies : List Nat)
  /-- A persistent call is outstanding; `rest` is called after it. -/
  | calling (call : PersistentCall) (rest : List PersistentCall)
  /-- The action has returned or thrown; the promise job that settles the task is pending. -/
  | returned (error : Option JsError)
  | finished
deriving DecidableEq

structure Task where
  action : TaskAction
  dependencies : OrderedSet Nat
  dependents : OrderedSet Nat
  started : Bool
  settled : Bool
  error : Option JsError
  phase : TaskPhase

structure EventBatch where
  events : List MirrorEvent
  dependencies : OrderedSet Nat

/-- `MAX_DURABLE_WRITE_CONCURRENCY`. -/
def maxDurableWriteConcurrency : Nat := 64

/-- `MAX_PENDING_WRITES`. -/
def maxPendingWritesLimit : Nat := 1000000

/-- `MAX_EVENT_BATCH_SIZE`. -/
def maxEventBatchSize : Nat := 64

/-- A write concurrency that the constructor accepts. -/
structure WriteConcurrency where
  value : Nat
  pos : 1 ≤ value
  le_max : value ≤ maxDurableWriteConcurrency

/-- A bound on the pending writes that the constructor accepts. -/
structure PendingLimit where
  value : Nat
  pos : 1 ≤ value
  le_max : value ≤ maxPendingWritesLimit

/-- The optional methods that the persistent store offers. -/
structure PersistentMethods where
  putAndAppend : Bool
  appendEvents : Bool

/-- The store. `created`, `task` and `batch` are the heap of its tasks; `settledPuts` are the write
    tasks whose `done` reaction is pending. -/
structure DurableMirrorStore where
  persistent : PersistentMethods
  concurrency : WriteConcurrency
  maxPendingWrites : PendingLimit
  records : OrderedMap String MirrorRecord
  events : OrderedMap String MirrorEvent
  freshness : OrderedMap Freshness Int
  ready : List Nat
  tasks : OrderedSet Nat
  recordTails : OrderedMap String Nat
  pendingPuts : OrderedSet Nat
  lastEventTask : Option Nat
  eventBatch : Option Nat
  restoreTask : Option Nat
  activeWrites : Nat
  pendingWrites : Nat
  failure : Option JsError
  closed : Bool
  revision : Nat
  created : Nat
  task : Nat → Task
  batch : Nat → EventBatch
  settledPuts : List Nat

namespace DurableMirrorStore

def adjustFreshness (s : DurableMirrorStore) (record : MirrorRecord) (delta : Int) :
    DurableMirrorStore :=
  match record.freshnessState with
  | none => s
  | some status =>
    { s with freshness := s.freshness.set status ((s.freshness.get? status).getD 0 + delta) }

/-- The record map and the freshness counts after a write of `record`. -/
def storeRecord (s : DurableMirrorStore) (record : MirrorRecord) : DurableMirrorStore :=
  let s := match s.records.get? record.memoryId with
    | none => s
    | some previous => s.adjustFreshness previous (-1)
  let s := { s with records := s.records.set record.memoryId record }
  s.adjustFreshness record 1

def noFreshness : OrderedMap Freshness Int :=
  [Freshness.fresh, .stale, .invalid, .unknown].foldl
    (fun (m : OrderedMap Freshness Int) status => m.set status 0) ∅

def loadSnapshot (s : DurableMirrorStore) (snapshot : MirrorSnapshot) : DurableMirrorStore :=
  let records := snapshot.records.foldl
    (fun (m : OrderedMap String MirrorRecord) record => m.set record.memoryId record) ∅
  let s := { s with
    records := records
    events := snapshot.events.foldl
      (fun (m : OrderedMap String MirrorEvent) event => m.set event.idempotencyKey event) ∅
    freshness := noFreshness }
  records.values.foldl (fun s record => s.adjustFreshness record 1) s

def ensureWritable (s : DurableMirrorStore) : Except JsError Unit :=
  match s.failure with
  | some failure => .error failure
  | none => if s.closed then .error (.error "Durable mirror store is closed") else .ok ()

def backpressureError : JsError where
  cls := .error
  message := "Durable persistence queue is full; retry after the current writes drain"
  code := some "PERSISTENCE_BACKPRESSURE"

def ensureCapacity (s : DurableMirrorStore) : Except JsError Unit :=
  if s.pendingWrites ≥ s.maxPendingWrites.value then .error backpressureError else .ok ()

def conflictError (idempotencyKey : String) : JsError :=
  .error ("Conflicting idempotency key: " ++ idempotencyKey)

def conflicts (existing event : MirrorEvent) : Bool :=
  decide (existing.eventId ≠ event.eventId) || decide (existing.requestDigest ≠ event.requestDigest)

def modify (s : DurableMirrorStore) (t : Nat) (f : Task → Task) : DurableMirrorStore :=
  { s with task := Function.update s.task t (f (s.task t)) }

/-- The body of the loop of `settle` over the dependents of `t`. -/
def releaseDependent (t : Nat) (s : DurableMirrorStore) (dependent : Nat) :
    DurableMirrorStore :=
  let s := s.modify t (fun task => { task with dependents := task.dependents.erase dependent })
  let s := s.modify dependent
    (fun task => { task with dependencies := task.dependencies.erase t })
  if (s.task dependent).dependencies.size = 0 ∧ (s.task dependent).settled = false then
    { s with ready := s.ready ++ [dependent] }
  else s

/-- `settle(task, error)` of an unsettled task, up to its call of `pump`. -/
def release (s : DurableMirrorStore) (t : Nat) (error : Option JsError) : DurableMirrorStore :=
  let s := s.modify t (fun task => { task with
    settled := true
    error := error
    phase := .finished })
  let s := { s with
    activeWrites := if (s.task t).started then s.activeWrites - 1 else s.activeWrites
    pendingWrites := s.pendingWrites - 1
    tasks := s.tasks.erase t }
  let s := (s.task t).dependents.elems.foldl (releaseDependent t) s
  let s := (s.task t).dependencies.elems.foldl (fun s dependency =>
    s.modify dependency (fun task => { task with dependents := task.dependents.erase t })) s
  if (s.task t).action.writesRecord then { s with settledPuts := s.settledPuts ++ [t] } else s

def start (s : DurableMirrorStore) (t : Nat) : DurableMirrorStore :=
  let s := s.modify t (fun task => { task with
    started := true
    phase := .scheduled })
  { s with activeWrites := s.activeWrites + 1 }

/-- One round of the loop of `pump`. A ready task that is settled with the failure is released here
    without the nested call of `pump`: that call runs this same loop on, and leaves it nothing. -/
def pumpBody (s : DurableMirrorStore) : Step DurableMirrorStore DurableMirrorStore :=
  if s.activeWrites < s.concurrency.value then
    match s.ready with
    | [] => .done s
    | t :: ready =>
      let s := { s with ready := ready }
      if (s.task t).settled then .again s
      else
        match s.failure with
        | some failure => .again (s.release t (some failure))
        | none => .again (s.start t)
  else .done s

def pump (s : DurableMirrorStore) : DurableMirrorStore :=
  (run pumpBody (s.ready.length + s.tasks.size + 1) s).getD s

def settle (s : DurableMirrorStore) (t : Nat) (error : Option JsError) : DurableMirrorStore :=
  if (s.task t).settled then s else (s.release t error).pump

def cancelQueued (s : DurableMirrorStore) (error : Option JsError) : DurableMirrorStore :=
  s.tasks.elems.foldl (fun s t =>
    if !(s.task t).started && !(s.task t).settled then s.settle t error else s) s

/-- `enqueue(action, dependencies)`; its callers have checked `ensureWritable` already. -/
def enqueue (s : DurableMirrorStore) (action : TaskAction) (dependencies : List Nat) :
    DurableMirrorStore × Nat :=
  let t := s.created
  let unsettled := OrderedSet.ofList (dependencies.filter (fun d => !(s.task d).settled))
  let s := { s with
    created := t + 1
    task := Function.update s.task t ⟨action, unsettled, ∅, false, false, none, .queued⟩
    pendingWrites := s.pendingWrites + 1
    tasks := s.tasks.add t }
  let s := unsettled.elems.foldl (fun s d =>
    s.modify d (fun task => { task with dependents := task.dependents.add t })) s
  let s := if unsettled.size = 0 then { s with ready := s.ready ++ [t] } else s
  (s.pump, t)

/-! ## Writes -/

/-- The bookkeeping of `put` and `putAndAppend` for the task of a record write. -/
def trackWrite (s : DurableMirrorStore) (memoryId : String) (t : Nat) : DurableMirrorStore :=
  { s with
    recordTails := s.recordTails.set memoryId t
    pendingPuts := s.pendingPuts.add t }

def put (s : DurableMirrorStore) (record : MirrorRecord) :
    DurableMirrorStore × Except JsError Unit :=
  match s.ensureWritable, s.ensureCapacity with
  | .error err, _ => (s, .error err)
  | .ok (), .error err => (s, .error err)
  | .ok (), .ok () =>
    let s := s.storeRecord record
    let s := { s with revision := s.revision + 1 }
    let dependencies := s.restoreTask.toList ++ (s.recordTails.get? record.memoryId).toList
    let (s, task) := s.enqueue (.put record) dependencies
    (s.trackWrite record.memoryId task, .ok ())

def putAndAppend (s : DurableMirrorStore) (record : MirrorRecord) (event : MirrorEvent) :
    DurableMirrorStore × Except JsError Unit :=
  match s.ensureWritable, s.ensureCapacity with
  | .error err, _ => (s, .error err)
  | .ok (), .error err => (s, .error err)
  | .ok (), .ok () =>
    if (s.events.get? event.idempotencyKey).any (fun existing => conflicts existing event) then
      (s, .error (conflictError event.idempotencyKey))
    else
      let s := s.storeRecord record
      let s := { s with
        events := s.events.set event.idempotencyKey event
        revision := s.revision + 1
        eventBatch := none }
      let dependencies := s.restoreTask.toList ++ s.lastEventTask.toList
        ++ (s.recordTails.get? record.memoryId).toList
      let (s, task) := s.enqueue (.putAndAppend record event) dependencies
      let s := s.trackWrite record.memoryId task
      ({ s with lastEventTask := some task }, .ok ())

/-- The open batch of `appendEvent`, or a new one. -/
def openBatch (s : DurableMirrorStore) : DurableMirrorStore × Nat :=
  match s.eventBatch with
  | some batch => (s, batch)
  | none =>
    let (s, task) := s.enqueue .flushEventBatch (s.lastEventTask.toList ++ s.restoreTask.toList)
    ({ s with
      batch := Function.update s.batch task ⟨[], ∅⟩
      eventBatch := some task
      lastEventTask := some task }, task)

/-- The event and the pending record writes join the batch; a full batch is closed. -/
def joinBatch (s : DurableMirrorStore) (batch : Nat) (event : MirrorEvent) : DurableMirrorStore :=
  let joined : EventBatch :=
    ⟨(s.batch batch).events ++ [event],
      (((s.batch batch).dependencies.addAll s.pendingPuts.elems).addAll s.restoreTask.toList)⟩
  { s with
    batch := Function.update s.batch batch joined
    eventBatch :=
      if joined.events.length ≥ maxEventBatchSize ∧ s.eventBatch = some batch then none
      else s.eventBatch }

def appendEvent (s : DurableMirrorStore) (event : MirrorEvent) :
    DurableMirrorStore × Except JsError Unit :=
  match s.ensureWritable with
  | .error err => (s, .error err)
  | .ok () =>
    match s.events.get? event.idempotencyKey with
    | some existing =>
      if conflicts existing event then (s, .error (conflictError event.idempotencyKey))
      else (s, .ok ())
    | none =>
      match s.ensureCapacity with
      | .error err => (s, .error err)
      | .ok () =>
        let s := { s with events := s.events.set event.idempotencyKey event }
        let (s, batch) := s.openBatch
        (s.joinBatch batch event, .ok ())

def restore (s : DurableMirrorStore) (snapshot : MirrorSnapshot) :
    DurableMirrorStore × Except JsError Unit :=
  match s.ensureWritable, s.ensureCapacity with
  | .error err, _ => (s, .error err)
  | .ok (), .error err => (s, .error err)
  | .ok (), .ok () =>
    let s := s.loadSnapshot snapshot
    let s := { s with
      revision := s.revision + 1
      eventBatch := none }
    let (s, task) := s.enqueue (.restore snapshot) s.tasks.elems
    ({ s with restoreTask := some task }, .ok ())

/-- `close()` refuses further writes; like `flush()`, it then waits for the unsettled tasks. -/
def close (s : DurableMirrorStore) : DurableMirrorStore := { s with closed := true }

/-- `new DurableMirrorStore(persistent, snapshot, options)`. -/
def create (persistent : PersistentMethods) (concurrency : WriteConcurrency)
    (maxPendingWrites : PendingLimit) (snapshot : MirrorSnapshot) : DurableMirrorStore :=
  loadSnapshot
    { persistent := persistent
      concurrency := concurrency
      maxPendingWrites := maxPendingWrites
      records := ∅
      events := ∅
      freshness := ∅
      ready := []
      tasks := ∅
      recordTails := ∅
      pendingPuts := ∅
      lastEventTask := none
      eventBatch := none
      restoreTask := none
      activeWrites := 0
      pendingWrites := 0
      failure := none
      closed := false
      revision := 0
      created := 0
      task := fun _ => ⟨.flushEventBatch, ∅, ∅, false, true, none, .finished⟩
      batch := fun _ => ⟨[], ∅⟩
      settledPuts := [] }
    snapshot

end DurableMirrorStore

end Premise.DurableMirror
