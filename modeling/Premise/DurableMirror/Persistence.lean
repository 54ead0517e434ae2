import Premise.DurableMirror.EventLoop

/-!
# `DurableMirrorStore`: what reaches the persistent store

The writes of an outstanding call of the persistent store reach it one after the other, at any time
before the call settles; a call that resolves has reached it with all of them, a call that rejects
with some. A run is watched with the writes that the mirror has accepted, in the order of the calls,
and those that have reached the persistent store.
-/

namespace Premise.DurableMirror

open Collections Control Js

/-- What a call does to the persistent store. -/
inductive Effect
  | record (record : MirrorRecord)
  | event (event : MirrorEvent)
  | restore (snapshot : MirrorSnapshot)
deriving DecidableEq

def PersistentCall.effects : PersistentCall → List Effect
  | .put record => [.record record]
  | .putAndAppend record event => [.record record, .event event]
  | .appendEvent event => [.event event]
  | .appendEvents events => events.map .event
  | .restore snapshot => [.restore snapshot]

/-- The content of the persistent store. -/
structure Persisted where
  records : OrderedMap String MirrorRecord
  events : OrderedMap String MirrorEvent

/-- The records and events of a snapshot; of two with one key the later one stays. -/
def Persisted.ofSnapshot (snapshot : MirrorSnapshot) : Persisted where
  records := snapshot.records.foldl
    (fun (m : OrderedMap String MirrorRecord) record => m.set record.memoryId record) ∅
  events := snapshot.events.foldl
    (fun (m : OrderedMap String MirrorEvent) event => m.set event.idempotencyKey event) ∅

def Persisted.apply (p : Persisted) : Effect → Persisted
  | .record record => { p with records := p.records.set record.memoryId record }
  | .event event =>
    if p.events.has event.idempotencyKey then p
    else { p with events := p.events.set event.idempotencyKey event }
  | .restore snapshot => .ofSnapshot snapshot

/-- A write and the task that carries it. -/
structure Write where
  task : Nat
  effect : Effect
deriving DecidableEq

/-- A store and its persistent store. `accepted` are the writes of the calls that did not throw;
`applied` counts the writes of the outstanding call that have reached the persistent store;
`awaited` pairs a write of a record with an event accepted while its task was pending. -/
structure Watched where
  store : DurableMirrorStore
  initial : Persisted
  accepted : List Write
  reached : List Write
  applied : Nat → Nat
  awaited : List (Write × Write)

namespace Watched

def persisted (w : Watched) : Persisted :=
  w.reached.foldl (fun p write => p.apply write.effect) w.initial

/-- Whether the write is one of a record whose task is pending. -/
def pendingPut (w : Watched) (write : Write) : Bool :=
  match write.effect with
  | .record _ => !(w.store.task write.task).settled
  | _ => false

def put (w : Watched) (record : MirrorRecord) : Watched :=
  match w.store.put record with
  | (s, .error _) => { w with store := s }
  | (s, .ok ()) =>
    { w with
      store := s
      accepted := w.accepted ++ [⟨w.store.created, .record record⟩] }

def putAndAppend (w : Watched) (record : MirrorRecord) (event : MirrorEvent) : Watched :=
  match w.store.putAndAppend record event with
  | (s, .error _) => { w with store := s }
  | (s, .ok ()) =>
    { w with
      store := s
      accepted := w.accepted
        ++ [⟨w.store.created, .record record⟩, ⟨w.store.created, .event event⟩] }

/-- An event that the mirror already has is not accepted again. -/
def appendEvent (w : Watched) (event : MirrorEvent) : Watched :=
  match w.store.appendEvent event with
  | (s, .error _) => { w with store := s }
  | (s, .ok ()) =>
    if w.store.events.has event.idempotencyKey then { w with store := s }
    else
      let write : Write := ⟨w.store.eventBatch.getD w.store.created, .event event⟩
      { w with
        store := s
        accepted := w.accepted ++ [write]
        awaited := w.awaited ++ (w.accepted.filter w.pendingPut).map (fun put => (put, write)) }

def restore (w : Watched) (snapshot : MirrorSnapshot) : Watched :=
  match w.store.restore snapshot with
  | (s, .error _) => { w with store := s }
  | (s, .ok ()) =>
    { w with
      store := s
      accepted := w.accepted ++ [⟨w.store.created, .restore snapshot⟩] }

end Watched

inductive WatchedStep
  | mirror (step : MirrorStep)
  | reaches (t : Nat)

open DurableMirrorStore

/-- The steps of the store and its persistent store. -/
inductive PersistStep (w : Watched) : WatchedStep → Watched → Prop
  | put (record : MirrorRecord) : PersistStep w (.mirror (.put record)) (w.put record)
  | putAndAppend (record : MirrorRecord) (event : MirrorEvent) :
      PersistStep w (.mirror (.putAndAppend record event)) (w.putAndAppend record event)
  | appendEvent (event : MirrorEvent) :
      PersistStep w (.mirror (.appendEvent event)) (w.appendEvent event)
  | restore (snapshot : MirrorSnapshot) :
      PersistStep w (.mirror (.restore snapshot)) (w.restore snapshot)
  | flush : PersistStep w (.mirror .flush) w
  | close : PersistStep w (.mirror .close) { w with store := w.store.close }
  | job {job : MirrorStep} {s : DurableMirrorStore} : JobStep w.store job s →
      (∀ t outcome, job ≠ .callSettles t outcome) →
      PersistStep w (.mirror job) { w with store := s }
  /-- The outstanding call of `t` resolves, with all its writes in the persistent store. -/
  | resolves {t : Nat} {call : PersistentCall} {rest : List PersistentCall} : t ∈ w.store.tasks →
      (w.store.task t).phase = .calling call rest → w.applied t = call.effects.length →
      PersistStep w (.mirror (.callSettles t (.ok ())))
        { w with
          store := w.store.callSettles t rest (.ok ())
          applied := Function.update w.applied t 0 }
  | rejects {t : Nat} {call : PersistentCall} {rest : List PersistentCall}
      {err : Option JsError} : t ∈ w.store.tasks → (w.store.task t).phase = .calling call rest →
      PersistStep w (.mirror (.callSettles t (.error err)))
        { w with store := w.store.callSettles t rest (.error err) }
  /-- The next write of the outstanding call of `t` reaches the persistent store. -/
  | reaches {t : Nat} {call : PersistentCall} {rest : List PersistentCall} {effect : Effect} :
      t ∈ w.store.tasks → (w.store.task t).phase = .calling call rest →
      call.effects[w.applied t]? = some effect →
      PersistStep w (.reaches t)
        { w with
          reached := w.reached ++ [⟨t, effect⟩]
          applied := Function.update w.applied t (w.applied t + 1) }

/-- A store that is opened on the content of its persistent store. -/
def persistence (concurrency : WriteConcurrency) (maxPendingWrites : PendingLimit) :
    System Watched WatchedStep where
  init := fun w => ∃ persistent snapshot,
    w = { store := create persistent concurrency maxPendingWrites snapshot
          initial := .ofSnapshot snapshot
          accepted := []
          reached := []
          applied := fun _ => 0
          awaited := [] }
  step := PersistStep

/-- A write of the record of `memoryId`, or a restore. -/
def Effect.writesMemory (memoryId : String) : Effect → Bool
  | .record written => decide (written.memoryId = memoryId)
  | .event _ => false
  | .restore _ => true

def Effect.writesEvents : Effect → Bool
  | .record _ => false
  | .event _ => true
  | .restore _ => true

def Effect.isRestore : Effect → Bool
  | .restore _ => true
  | _ => false

/-- `x` stands before `y`. -/
def Before (l : List Write) (x y : Write) : Prop := [x, y].Sublist l

namespace Watched

/-- The events that the store was opened with, and those of the accepted writes and snapshots. -/
def events (w : Watched) : List MirrorEvent :=
  w.initial.events.values ++ w.accepted.flatMap (fun write =>
    match write.effect with
    | .record _ => []
    | .event event => [event]
    | .restore snapshot => snapshot.events)

def EventsIdentified (w : Watched) : Prop :=
  ∀ e ∈ w.events, ∀ e' ∈ w.events, e.eventId = e'.eventId → e = e'

/-- The writes reach the persistent store in order. -/
structure InOrder (w : Watched) : Prop where
  /-- Nothing is accepted or persisted twice. -/
  once : w.accepted.Nodup ∧ w.reached.Nodup
  /-- The writes of one memory reach the persistent store in call order. -/
  memory : ∀ memoryId, w.reached.filter (fun x => x.effect.writesMemory memoryId)
    <+: w.accepted.filter (fun x => x.effect.writesMemory memoryId)
  /-- The events reach it in the order in which they were accepted. -/
  events : w.reached.filter (fun x => x.effect.writesEvents)
    <+: w.accepted.filter (fun x => x.effect.writesEvents)
  /-- An event that was given to `appendEvent` reaches it after the writes that were pending. -/
  afterPuts : ∀ p ∈ w.awaited, p.2 ∈ w.reached → Before w.reached p.1 p.2
  /-- A restore is a barrier. -/
  barrier : ∀ x y, Before w.accepted x y → x.effect.isRestore || y.effect.isRestore →
    y ∈ w.reached → Before w.reached x y

/-- Without a failure, the persistent store has the content of the mirror once it has drained. -/
def Mirrored (w : Watched) : Prop :=
  w.store.failure = none → (∀ t, t ∉ w.store.tasks) → w.EventsIdentified →
    (∀ memoryId, w.persisted.records.get? memoryId = w.store.records.get? memoryId) ∧
      w.persisted.events = w.store.events

/-- After a failure, no task is started any more and every mutation throws. -/
def FailsClosed (w : Watched) : Prop :=
  ∀ failure, w.store.failure = some failure →
    ∀ w', ((persistence w.store.concurrency w.store.maxPendingWrites).startingAt w).Reachable w' →
      (∀ t, (w'.store.task t).started = true → (w.store.task t).started = true) ∧
      (∀ record, w'.store.put record = (w'.store, .error failure)) ∧
      (∀ record event, w'.store.putAndAppend record event = (w'.store, .error failure)) ∧
      (∀ event, w'.store.appendEvent event = (w'.store, .error failure)) ∧
      (∀ snapshot, w'.store.restore snapshot = (w'.store, .error failure))

end Watched

end Premise.DurableMirror
