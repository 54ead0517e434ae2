import Premise.Control.System
import Premise.Postgres.Driver

/-!
# The events table and its replay

The events of `PostgresRuntimeStore`, appended by transactions of writers that commit or abort in any
order, and the transactions in which `replay` reads them for one consumer. A row takes its sequence
number when its insertion starts, and is visible to others when its transaction commits.
-/

namespace Premise.Postgres

open Js

/-- The columns of an event; `document` is the whole event. -/
structure AppendedEvent (E : Type) where
  tenantId : String
  idempotencyKey : String
  eventId : String
  document : E
deriving DecidableEq

inductive RowState
  /-- The transaction has taken the sequence number, and its `INSERT` has not ended. -/
  | inserting (tx : Nat)
  /-- The transaction has inserted the row. -/
  | inserted (tx : Nat)
  | committed
deriving DecidableEq

def RowState.writer : RowState → Option Nat
  | .inserting tx => some tx
  | .inserted tx => some tx
  | .committed => none

structure EventRow (E : Type) where
  sequence : Nat
  event : AppendedEvent E
  state : RowState
deriving DecidableEq

structure EventLog (E : Type) where
  /-- The rows in the order of their sequence numbers. -/
  rows : List (EventRow E) := []
  nextSequence : Nat := 1

variable {E : Type}

def AppendedEvent.sameKey (event other : AppendedEvent E) : Bool :=
  decide (event.tenantId = other.tenantId ∧ event.idempotencyKey = other.idempotencyKey)

def AppendedEvent.sameId (event other : AppendedEvent E) : Bool :=
  decide (event.tenantId = other.tenantId ∧ event.eventId = other.eventId)

inductive InsertOutcome (E : Type)
  /-- A transaction that is open has inserted a row with the key or the id of the event. -/
  | waits
  | stored (log : EventLog E)
  | throws

namespace EventLog

def insertingRow (log : EventLog E) (tx : Nat) : Option (EventRow E) :=
  log.rows.find? (fun row => decide (row.state = .inserting tx))

def collision (log : EventLog E) (same : AppendedEvent E → Bool) : Option (EventRow E) :=
  log.rows.find? (fun row => match row.state with
    | .inserting _ => false
    | _ => same row.event)

/-- `appendEventOn(client, event)` starts in the transaction `tx`. -/
def appendEventOn (log : EventLog E) (tx : Nat) (event : AppendedEvent E) : EventLog E where
  rows := log.rows ++ [⟨log.nextSequence, event, .inserting tx⟩]
  nextSequence := log.nextSequence + 1

/-- The row of the transaction gets this state, or is dropped. -/
def resolve (log : EventLog E) (tx : Nat) (state? : Option RowState) : EventLog E :=
  { log with rows := log.rows.filterMap (fun row =>
      if row.state = .inserting tx then state?.map (fun state => { row with state := state })
      else some row) }

/-- The `INSERT … ON CONFLICT (tenant_id, idempotency_key) DO NOTHING` of the row ends, and the stored
    event is compared where there is one. -/
def insert [DecidableEq E] (log : EventLog E) (tx : Nat) (row : EventRow E) : InsertOutcome E :=
  match log.collision row.event.sameKey with
  | some other =>
    if other.state.writer.any (fun w => decide (w ≠ tx)) then .waits
    else if other.event.eventId ≠ row.event.eventId ∨ other.event.document ≠ row.event.document then
      .throws
    else .stored (log.resolve tx none)
  | none =>
    match log.collision row.event.sameId with
    | some other => if other.state.writer.any (fun w => decide (w ≠ tx)) then .waits else .throws
    | none => .stored (log.resolve tx (some (.inserted tx)))

def commit (log : EventLog E) (tx : Nat) : EventLog E :=
  { log with rows := log.rows.map (fun row =>
      if row.state = .inserted tx then { row with state := .committed } else row) }

def abort (log : EventLog E) (tx : Nat) : EventLog E :=
  { log with rows := log.rows.filter (fun row => decide (row.state.writer ≠ some tx)) }

/-- The consumer of the events of this tenant, or of all tenants, reads the row. -/
def ofTenant (tenantId : Option String) (row : EventRow E) : Bool :=
  tenantId.all (fun tenant => decide (row.event.tenantId = tenant))

/-- `SELECT … WHERE tenant_id = … AND sequence > cursor ORDER BY sequence LIMIT limit`. -/
def select (log : EventLog E) (tenantId : Option String) (cursor limit : Nat) : List (EventRow E) :=
  (log.rows.filter (fun row => decide (row.state = .committed) && ofTenant tenantId row
    && decide (cursor < row.sequence))).take limit

end EventLog

/-- The options of a call, with their defaults. -/
structure PostgresReplayOptions where
  fromSequence : Int := 0
  batchSize : Int := 100
deriving DecidableEq

def PostgresReplayOptions.valid (options : PostgresReplayOptions) : Bool :=
  isSafeInteger options.batchSize && decide (1 ≤ options.batchSize)
    && decide (options.batchSize ≤ 1000) && isSafeInteger options.fromSequence
    && decide (0 ≤ options.fromSequence)

inductive ReplayPhase (E : Type)
  /-- The next batch is to be read. -/
  | ready
  /-- The transaction of a batch has read these rows. -/
  | handling (count : Nat) (pending : List (EventRow E))
  | returned (processed : Nat)
  | threw
deriving DecidableEq

structure ReplayCall (E : Type) where
  options : PostgresReplayOptions
  phase : ReplayPhase E
  processed : Nat := 0
  firstBatch : Bool := true
deriving DecidableEq

def ReplayCall.handling (call : ReplayCall E) : Bool :=
  match call.phase with
  | .handling _ _ => true
  | _ => false

/-- The events table, and one consumer of it. -/
structure EventStore (E : Type) where
  log : EventLog E := {}
  /-- The `event_sequence` of the consumer's checkpoint. -/
  checkpoint : Option Nat := none
  calls : List (ReplayCall E) := []
  /-- The calls of the handler that have completed: the call of `replay`, and the sequence. -/
  delivered : List (Nat × Nat) := []
  /-- How many batches have been committed. -/
  batches : Nat := 0

namespace EventStore

/-- The checkpoint that a batch of the call finds, or inserts. -/
def checkpointOf (s : EventStore E) (call : ReplayCall E) : Nat :=
  s.checkpoint.getD (if call.firstBatch then call.options.fromSequence.toNat else 0)

def cursor (s : EventStore E) (call : ReplayCall E) : Nat :=
  max call.options.fromSequence.toNat (s.checkpointOf call)

def batch (s : EventStore E) (tenantId : Option String) (call : ReplayCall E) : List (EventRow E) :=
  s.log.select tenantId (s.cursor call) call.options.batchSize.toNat

def setCall (s : EventStore E) (i : Nat) (call : ReplayCall E) : EventStore E :=
  { s with calls := s.calls.set i call }

/-- `replay(handler, options)` is called. -/
def replay (s : EventStore E) (options : PostgresReplayOptions) : EventStore E :=
  { s with calls := s.calls ++ [⟨options, if options.valid then .ready else .threw, 0, true⟩] }

/-- The transaction of a batch starts: it locks the checkpoint, and reads. A batch without rows is
    committed at once, and the call returns. -/
def read (s : EventStore E) (tenantId : Option String) (i : Nat) (call : ReplayCall E) : EventStore E :=
  match s.batch tenantId call with
  | [] =>
    { s.setCall i { call with phase := .returned call.processed } with
      checkpoint := some (s.checkpointOf call)
      batches := s.batches + 1 }
  | row :: rows => s.setCall i { call with phase := .handling (rows.length + 1) (row :: rows) }

/-- The handler completes for the first row that is left. After the last one, the checkpoint is updated
    and the batch is committed. -/
def handle (s : EventStore E) (i : Nat) (call : ReplayCall E) (count : Nat) (row : EventRow E)
    (rows : List (EventRow E)) : EventStore E :=
  -- `rowSequence` throws
  if (row.sequence : Int) > maxSafeInteger then s.setCall i { call with phase := .threw }
  else
    match rows with
    | [] =>
      { s.setCall i { call with
          phase := .ready
          processed := call.processed + count
          firstBatch := false } with
        checkpoint := some row.sequence
        delivered := s.delivered ++ [(i, row.sequence)]
        batches := s.batches + 1 }
    | _ =>
      { s.setCall i { call with phase := .handling count rows } with
        delivered := s.delivered ++ [(i, row.sequence)] }

/-- The handler rejects, or the transaction of the batch fails: it is rolled back. -/
def fail (s : EventStore E) (i : Nat) (call : ReplayCall E) : EventStore E :=
  s.setCall i { call with phase := .threw }

end EventStore

/-!
# What the replay of events promises

Transactions that append events, and calls of `replay` by one consumer, in any order.
-/

open Control

variable {E : Type}

inductive EventStep (E : Type)
  | append (tx : Nat) (event : AppendedEvent E)
  | insert (tx : Nat)
  | commit (tx : Nat)
  | abort (tx : Nat)
  | replay (options : PostgresReplayOptions)
  | read (i : Nat)
  | handle (i : Nat)
  | fail (i : Nat)

namespace EventStore

def writerStep [DecidableEq E] (log : EventLog E) : EventStep E → Option (EventLog E)
  | .append tx event =>
    if (log.insertingRow tx).isSome then none else some (log.appendEventOn tx event)
  | .insert tx =>
    match log.insertingRow tx with
    | none => none
    | some row =>
      match log.insert tx row with
      | .waits => none
      | .stored log' => some log'
      | .throws => some (log.abort tx)
  | .commit tx => if (log.insertingRow tx).isSome then none else some (log.commit tx)
  | .abort tx => some (log.abort tx)
  | _ => none

/-- The consumer of the events of `tenantId`. The lock on the checkpoint lets one batch run at a
    time. -/
def consumerStep (tenantId : Option String) (s : EventStore E) : EventStep E → Option (EventStore E)
  | .replay options => some (s.replay options)
  | .read i =>
    match s.calls[i]? with
    | none => none
    | some call =>
      match call.phase with
      | .ready => if s.calls.any ReplayCall.handling then none else some (s.read tenantId i call)
      | _ => none
  | .handle i =>
    match s.calls[i]? with
    | none => none
    | some call =>
      match call.phase with
      | .handling count (row :: rows) => some (s.handle i call count row rows)
      | _ => none
  | .fail i =>
    match s.calls[i]? with
    | none => none
    | some call =>
      match call.phase with
      | .handling _ _ => some (s.fail i call)
      | _ => none
  | _ => none

def step [DecidableEq E] (tenantId : Option String) (s : EventStore E) (i : EventStep E) :
    Option (EventStore E) :=
  ((writerStep s.log i).map (fun log => { s with log := log })).or (s.consumerStep tenantId i)

/-- An event store that is empty at first, with a consumer of `tenantId`. -/
def system (E : Type) [DecidableEq E] (tenantId : Option String) :
    System (EventStore E) (EventStep E) where
  init := fun s => s = {}
  step := fun s i s' => s.step tenantId i = some s'

def Committed (s : EventStore E) (tenantId : Option String) (sequence : Nat) : Prop :=
  ∃ row ∈ s.log.rows, row.sequence = sequence ∧ row.state = .committed ∧
    EventLog.ofTenant tenantId row = true

def Delivered (s : EventStore E) (sequence : Nat) : Prop := ∃ i, (i, sequence) ∈ s.delivered

/-- A batch that is read passes no event over: no open transaction has taken a sequence number, for an
    event of the tenant, that lies below the last one of the batch; and `fromSequence` skips neither
    events nor sequence numbers to come. The sequence numbers that are read are safe integers. -/
def PassesNothing (s : EventStore E) (tenantId : Option String) (call : ReplayCall E) : Prop :=
  (∀ row ∈ s.batch tenantId call, (row.sequence : Int) ≤ maxSafeInteger ∧
    ∀ other ∈ s.log.rows, EventLog.ofTenant tenantId other = true → other.state ≠ .committed →
      row.sequence < other.sequence) ∧
  s.cursor call < s.log.nextSequence ∧
  ∀ row ∈ s.log.rows, EventLog.ofTenant tenantId row = true → row.sequence ≤ s.cursor call →
    row.sequence ≤ s.checkpoint.getD 0

def InOrder (tenantId : Option String) (s : EventStore E) : EventStep E → Prop
  | .read i => ∀ call, s.calls[i]? = some call → s.PassesNothing tenantId call
  | _ => True

end EventStore

/-- What a consumer of events is promised. -/
structure NothingLost (E : Type) [DecidableEq E] (tenantId : Option String) : Prop where
  /-- A call that reads no more events returns, and all events that are committed by then have been
      delivered. -/
  on_return : ∀ s,
    ((EventStore.system E tenantId).restrict (fun s i _ => s.InOrder tenantId i)).Reachable s →
    ∀ (i : Nat) (call : ReplayCall E), s.calls[i]? = some call → call.phase = .ready →
      s.PassesNothing tenantId call → s.batch tenantId call = [] →
      ∀ n, s.Committed tenantId n → s.Delivered n
  /-- An event is delivered at the latest after as many batches as its sequence number. -/
  eventually : ∀ s,
    ((EventStore.system E tenantId).restrict (fun s i _ => s.InOrder tenantId i)).Reachable s →
    ∀ n, s.Committed tenantId n → ∀ s',
      (((EventStore.system E tenantId).restrict
        (fun s i _ => s.InOrder tenantId i)).startingAt s).Reachable s' →
      s.batches + n ≤ s'.batches → s'.Delivered n
  /-- Only if the handler fails is an event delivered again. -/
  once : ∀ s, ((EventStore.system E tenantId).restrict
      (fun s i _ => s.InOrder tenantId i ∧ ∀ j, i ≠ .fail j)).Reachable s →
    (s.delivered.map Prod.snd).Nodup
  /-- One call delivers in the order of the sequence numbers, in every run. -/
  ordered : ∀ s, (EventStore.system E tenantId).Reachable s → ∀ i,
    ((s.delivered.filter (fun d => decide (d.1 = i))).map Prod.snd).Pairwise (· < ·)

end Premise.Postgres
