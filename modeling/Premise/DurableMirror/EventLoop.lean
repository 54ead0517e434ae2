import Premise.Control.System
import Premise.DurableMirror.Store

/-!
# `DurableMirrorStore`: calls and promise jobs in any order

The calls of the store and the jobs of the event loop as the steps of a transition system. Nothing is
assumed about their order: a job may run at any time once it is pending, and an outstanding call of
the persistent store may settle either way.
-/

namespace Premise.DurableMirror

open Collections Control Js

namespace DurableMirrorStore

def setPhase (s : DurableMirrorStore) (t : Nat) (phase : TaskPhase) : DurableMirrorStore :=
  s.modify t (fun task => { task with phase := phase })

/-- Make the next of the remaining persistent calls, or return. -/
def issue (s : DurableMirrorStore) (t : Nat) : List PersistentCall → DurableMirrorStore
  | [] => s.setPhase t (.returned none)
  | call :: rest => s.setPhase t (.calling call rest)

/-- The persistent calls of the batch `t`. -/
def batchCalls (s : DurableMirrorStore) (t : Nat) : List PersistentCall :=
  if s.persistent.appendEvents then [.appendEvents (s.batch t).events]
  else (s.batch t).events.map .appendEvent

/-- The action of `t` up to its first wait. -/
def runAction (s : DurableMirrorStore) (t : Nat) : DurableMirrorStore :=
  match (s.task t).action with
  | .put record => s.issue t [.put record]
  | .putAndAppend record event =>
    if s.persistent.putAndAppend then s.issue t [.putAndAppend record event]
    else s.issue t [.put record, .appendEvent event]
  | .flushEventBatch => s.setPhase t .immediate
  | .restore snapshot => s.issue t [.restore snapshot]

/-- `flushEventBatch` after its `setImmediate`. -/
def fireImmediate (s : DurableMirrorStore) (t : Nat) : DurableMirrorStore :=
  let s := { s with eventBatch := if s.eventBatch = some t then none else s.eventBatch }
  s.setPhase t
    (.awaiting ((s.batch t).dependencies.elems.filter (fun d => !(s.task d).settled)))

/-- `flushEventBatch` after its `Promise.all`. -/
def dependenciesSettled (s : DurableMirrorStore) (t : Nat) : DurableMirrorStore :=
  match s.failure with
  | some failure => s.setPhase t (.returned (some failure))
  | none => s.issue t (s.batchCalls t)

/-- The outstanding call of `t` settles; a rejection may carry no error. -/
def callSettles (s : DurableMirrorStore) (t : Nat) (rest : List PersistentCall) :
    Except (Option JsError) Unit → DurableMirrorStore
  | .ok () => s.issue t rest
  | .error err =>
    s.setPhase t (.returned (some (err.getD (.error "Durable persistence failed"))))

/-- The reaction to the action of `t`, in `pump`. -/
def actionReturned (s : DurableMirrorStore) (t : Nat) : Option JsError → DurableMirrorStore
  | none => s.settle t none
  | some failure =>
    let s := { s with failure := s.failure.or (some failure) }
    let s := s.settle t (some failure)
    s.cancelQueued s.failure

/-- The reaction to `done` of the record write `t`, in `put` and `putAndAppend`. -/
def writeDone (s : DurableMirrorStore) (t : Nat) : DurableMirrorStore :=
  { s with
    settledPuts := s.settledPuts.erase t
    pendingPuts := s.pendingPuts.erase t
    recordTails :=
      match (s.task t).action with
      | .put record | .putAndAppend record _ =>
        if s.recordTails.get? record.memoryId = some t then s.recordTails.erase record.memoryId
        else s.recordTails
      | _ => s.recordTails }

end DurableMirrorStore

inductive MirrorStep
  | put (record : MirrorRecord)
  | putAndAppend (record : MirrorRecord) (event : MirrorEvent)
  | appendEvent (event : MirrorEvent)
  | restore (snapshot : MirrorSnapshot)
  | flush
  | close
  | runAction (t : Nat)
  | fireImmediate (t : Nat)
  | dependenciesSettled (t : Nat)
  | callSettles (t : Nat) (outcome : Except (Option JsError) Unit)
  | actionReturned (t : Nat)
  | writeDone (t : Nat)

open DurableMirrorStore

/-- A pending job of the event loop runs, or an outstanding persistent call settles. -/
inductive JobStep (s : DurableMirrorStore) : MirrorStep → DurableMirrorStore → Prop
  | runAction {t : Nat} : t ∈ s.tasks → (s.task t).phase = .scheduled →
      JobStep s (.runAction t) (s.runAction t)
  | fireImmediate {t : Nat} : t ∈ s.tasks → (s.task t).phase = .immediate →
      JobStep s (.fireImmediate t) (s.fireImmediate t)
  | dependenciesSettled {t : Nat} {dependencies : List Nat} : t ∈ s.tasks →
      (s.task t).phase = .awaiting dependencies → (∀ d ∈ dependencies, (s.task d).settled = true) →
      JobStep s (.dependenciesSettled t) (s.dependenciesSettled t)
  | callSettles {t : Nat} {call : PersistentCall} {rest : List PersistentCall}
      {outcome : Except (Option JsError) Unit} : t ∈ s.tasks →
      (s.task t).phase = .calling call rest →
      JobStep s (.callSettles t outcome) (s.callSettles t rest outcome)
  | actionReturned {t : Nat} {error : Option JsError} : t ∈ s.tasks →
      (s.task t).phase = .returned error →
      JobStep s (.actionReturned t) (s.actionReturned t error)
  | writeDone {t : Nat} : t ∈ s.settledPuts → JobStep s (.writeDone t) (s.writeDone t)

/-- A call of the store. A call that throws leaves the store as it is. -/
inductive CallStep (s : DurableMirrorStore) : MirrorStep → DurableMirrorStore → Prop
  | put (record : MirrorRecord) : CallStep s (.put record) (s.put record).1
  | putAndAppend (record : MirrorRecord) (event : MirrorEvent) :
      CallStep s (.putAndAppend record event) (s.putAndAppend record event).1
  | appendEvent (event : MirrorEvent) : CallStep s (.appendEvent event) (s.appendEvent event).1
  | restore (snapshot : MirrorSnapshot) : CallStep s (.restore snapshot) (s.restore snapshot).1
  | flush : CallStep s .flush s
  | close : CallStep s .close s.close

/-- A store under every sequence and scheduling of calls and jobs. -/
def mirror (concurrency : WriteConcurrency) (maxPendingWrites : PendingLimit) :
    System DurableMirrorStore MirrorStep where
  init := fun s => ∃ persistent snapshot, s = create persistent concurrency maxPendingWrites snapshot
  step := fun s step s' => CallStep s step s' ∨ JobStep s step s'

/-- Unsettled tasks that nothing can ever move. -/
structure Deadlocked (s : DurableMirrorStore) : Prop where
  unsettled : ∃ t, t ∈ s.tasks
  noCall : ∀ t ∈ s.tasks, ∀ call rest, (s.task t).phase ≠ .calling call rest
  noImmediate : ∀ t ∈ s.tasks, (s.task t).phase ≠ .immediate
  noAction : ∀ t ∈ s.tasks, (s.task t).phase ≠ .scheduled
  noReturn : ∀ t ∈ s.tasks, ∀ error, (s.task t).phase ≠ .returned error
  noSettled : ∀ t ∈ s.tasks, ∀ dependencies, (s.task t).phase = .awaiting dependencies →
    ∃ d ∈ dependencies, (s.task d).settled = false
  noReaction : s.settledPuts = []
  noStart : s.ready = [] ∨ s.concurrency.value ≤ s.activeWrites

/-- Whichever jobs run, they come to an end, and then every task is settled: what `flush` and `close`
    wait for. -/
inductive Drains : DurableMirrorStore → Prop
  | settled {s : DurableMirrorStore} : (∀ t, t ∉ s.tasks) → Drains s
  | step {s : DurableMirrorStore} : (∃ job s', JobStep s job s') →
      (∀ job s', JobStep s job s' → Drains s') → Drains s

/-!
# What the task graph of the durable mirror maintains

The dependencies of a task are older than it. A batch also waits for record writes that are younger,
while it holds a write slot; the order in which batches, combined writes and restores run keeps those
writes from waiting for the batch in turn.
-/

def TaskAction.ordersEvents : TaskAction → Bool
  | .put _ => false
  | .putAndAppend _ _ => true
  | .flushEventBatch => true
  | .restore _ => true

namespace DurableMirrorStore

def Quiet (s : DurableMirrorStore) : Prop := s.ready = [] ∨ s.concurrency.value ≤ s.activeWrites

/-- The graph of the unsettled tasks, also after a failure. -/
structure TaskGraph (s : DurableMirrorStore) : Prop where
  live : ∀ t, t ∈ s.tasks ↔ t < s.created ∧ (s.task t).settled = false
  depends : ∀ t ∈ s.tasks, ∀ d ∈ (s.task t).dependencies, d ∈ s.tasks ∧ d < t
  mirror : ∀ d t, t ∈ (s.task d).dependents ↔ t ∈ s.tasks ∧ d ∈ (s.task t).dependencies
  started_free : ∀ t ∈ s.tasks, (s.task t).started = true → ∀ d, d ∉ (s.task t).dependencies
  ready_waiting : ∀ t ∈ s.ready, (s.task t).started = false ∧ ∀ d, d ∉ (s.task t).dependencies
  ready_created : ∀ t ∈ s.ready, t < s.created
  ready_nodup : s.ready.Nodup
  phase : ∀ t ∈ s.tasks, (s.task t).phase ≠ .finished ∧
    ((s.task t).started = true ↔ (s.task t).phase ≠ .queued)

/-- The tasks that the fields of the store and the batches name. -/
structure Typed (s : DurableMirrorStore) : Prop where
  tails : ∀ id t, s.recordTails.get? id = some t →
    t < s.created ∧ (s.task t).action.writesRecord = true
  puts : ∀ t ∈ s.pendingPuts, t < s.created ∧ (s.task t).action.writesRecord = true
  lastEvent : ∀ t, s.lastEventTask = some t →
    t < s.created ∧ (s.task t).action.ordersEvents = true
  restored : ∀ t, s.restoreTask = some t → t < s.created ∧
    (s.task t).action.ordersEvents = true ∧ (s.task t).action ≠ .flushEventBatch
  opened : ∀ t, s.eventBatch = some t → t < s.created ∧ (s.task t).action = .flushEventBatch
  immediate : ∀ t ∈ s.tasks, (s.task t).phase = .immediate → (s.task t).action = .flushEventBatch
  awaiting : ∀ t ∈ s.tasks, ∀ l, (s.task t).phase = .awaiting l →
    (s.task t).action = .flushEventBatch ∧ ∀ d ∈ l, d ∈ (s.batch t).dependencies
  batches : ∀ t, t < s.created → (s.task t).action = .flushEventBatch →
    ∀ d ∈ (s.batch t).dependencies, d < s.created ∧ (s.task d).action ≠ .flushEventBatch
  unused : ∀ t, s.created ≤ t → ∀ d, d ∉ (s.batch t).dependencies

/-- What holds as long as nothing has failed. -/
structure Running (s : DurableMirrorStore) : Prop where
  ready_iff : ∀ t, t ∈ s.ready ↔
    t ∈ s.tasks ∧ (s.task t).started = false ∧ ∀ d, d ∉ (s.task t).dependencies
  active : s.activeWrites = s.tasks.elems.countP (fun t => (s.task t).started)
  pending : s.pendingWrites = s.tasks.size
  /-- A plain record write never waits for a batch. -/
  put_waits : ∀ t ∈ s.tasks, (s.task t).action.ordersEvents = false →
    ∀ d ∈ (s.task t).dependencies, (s.task d).action ≠ .flushEventBatch
  chained : ∀ t ∈ s.tasks, ∀ t' ∈ s.tasks, (s.task t).action.ordersEvents = true →
    (s.task t').action.ordersEvents = true → t < t' →
    ∃ d ∈ (s.task t').dependencies, (s.task d).action.ordersEvents = true ∧ t ≤ d
  /-- A batch waits for nothing that was created after the next task of its order. -/
  closed_before : ∀ b, b < s.created → (s.task b).action = .flushEventBatch →
    ∀ d ∈ (s.batch b).dependencies, ∀ t, t < s.created → (s.task t).action.ordersEvents = true →
      b < t → d < t
  open_last : ∀ b, s.eventBatch = some b → ∀ t, t < s.created →
    (s.task t).action.ordersEvents = true → t ≤ b
  /-- With room for two writes only, a batch waits for nothing that has not started. -/
  few : s.maxPendingWrites.value ≤ 2 → ∀ b, b < s.created →
    (s.task b).action = .flushEventBatch → ∀ d ∈ (s.batch b).dependencies, d ∈ s.tasks →
      (s.task d).started = true

/-- The last of the ordered tasks is at hand for the next one to wait for. -/
def Covered (s : DurableMirrorStore) : Prop :=
  ∀ t ∈ s.tasks, (s.task t).action.ordersEvents = true →
    ∃ l ∈ s.tasks, (s.lastEventTask = some l ∨ s.restoreTask = some l) ∧ t ≤ l

/-- The invariant between the steps of the event loop. -/
structure Sound (s : DurableMirrorStore) : Prop where
  graph : s.TaskGraph
  typed : s.Typed
  running : s.failure = none → s.Running ∧ s.Covered ∧ s.Quiet
  failed : s.failure ≠ none → ∀ t ∈ s.tasks, (s.task t).started = true

end DurableMirrorStore

/-- The action writes the record of `memoryId`. -/
def TaskAction.writes (memoryId : String) : TaskAction → Prop
  | .put record => record.memoryId = memoryId
  | .putAndAppend record _ => record.memoryId = memoryId
  | .flushEventBatch => False
  | .restore _ => False

def TaskAction.isRestore : TaskAction → Prop
  | .restore _ => True
  | _ => False

/-- Tasks that reach the persistent store in the order in which they were created. -/
def TaskAction.Conflicts (a b : TaskAction) : Prop :=
  (a.ordersEvents = true ∧ b.ordersEvents = true) ∨ (∃ memoryId, a.writes memoryId ∧ b.writes memoryId)
    ∨ a.isRestore ∨ b.isRestore

def TaskPhase.opens : TaskPhase → Prop
  | .queued | .scheduled | .immediate => True
  | _ => False

namespace DurableMirrorStore

/-- The edges that keep the writes in order as long as nothing has failed. -/
structure Ordered (s : DurableMirrorStore) : Prop where
  chain : ∀ t ∈ s.tasks, ∀ t' ∈ s.tasks, t < t' →
    (s.task t).action.Conflicts (s.task t').action →
    ∃ d ∈ (s.task t').dependencies, t = d ∨
      (t < d ∧ (s.task t).action.Conflicts (s.task d).action)
  /-- The last writer of a record is at hand. -/
  tails : ∀ memoryId, ∀ t ∈ s.tasks, (s.task t).action.writes memoryId →
    ∃ l ∈ s.tasks, s.recordTails.get? memoryId = some l ∧ t ≤ l ∧ (s.task l).action.writes memoryId
  /-- So is the last restore. -/
  restored : ∀ t ∈ s.tasks, (s.task t).action.isRestore → ∃ r ∈ s.tasks, s.restoreTask = some r ∧ t ≤ r
  pending : ∀ t ∈ s.tasks, (s.task t).action.writesRecord = true → t ∈ s.pendingPuts
  reacting : ∀ t ∈ s.settledPuts, t < s.created ∧ t ∉ s.tasks
  opened : ∀ b, s.eventBatch = some b → b ∈ s.tasks ∧ (s.task b).phase.opens
  /-- A closed batch waits for all the writes that joined it. -/
  awaited : ∀ t ∈ s.tasks, ∀ l, (s.task t).phase = .awaiting l →
    ∀ d ∈ (s.batch t).dependencies, d ∈ l ∨ (s.task d).settled = true

/-- A batch holds a slot without a persistent call only where another slot is left, or where the
    queue has no room for a write behind it. -/
def SlotLeft (concurrency : WriteConcurrency) (maxPendingWrites : PendingLimit) : Prop :=
  2 ≤ concurrency.value ∨ maxPendingWrites.value ≤ 2

end DurableMirrorStore

end Premise.DurableMirror
