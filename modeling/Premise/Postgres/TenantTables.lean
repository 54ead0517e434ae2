import Premise.Js.Basic
import Premise.Js.Document

/-!
# Tables with row level security

The tables of the runtime schema. Every row belongs to a tenant, and a session sees, inserts and deletes
the rows of the tenant in `premise.tenant_id` only. Keys are unique among the rows of all tenants, and the
events of all tenants take their numbers from one sequence.
-/

namespace Premise.Postgres

open Js

inductive SqlValue
  | null
  | text (s : String)
  | jsonb (document : Json)
  | bigint (n : Nat)
  | timestamptz (text : String)
  | currentTimestamp

/-- The values that the types of PostgreSQL take. -/
structure SqlTypes where
  text : String → Bool
  jsonb : Json → Bool
  timestamptz : String → Bool

def SqlTypes.takes (types : SqlTypes) : SqlValue → Bool
  | .text s => types.text s
  | .jsonb document => types.jsonb document
  | .timestamptz text => types.timestamptz text
  | .null => true
  | .bigint _ => true
  | .currentTimestamp => true

/-- A row with the primary key `(tenant_id, …)`. -/
structure TenantRow where
  tenantId : String
  key : List String
  columns : List SqlValue

/-- The columns of an event but its sequence. -/
structure NewEvent where
  tenantId : String
  idempotencyKey : String
  eventId : String
  event : Json
  occurredAt : SqlValue

structure StoredEvent where
  sequence : Nat
  row : NewEvent

structure RuntimeTables where
  records : List TenantRow := []
  events : List StoredEvent := []
  snapshots : List TenantRow := []
  checkpoints : List TenantRow := []
  idempotency : List TenantRow := []
  /-- What `nextval` returns next. -/
  nextSequence : Nat := 1

/-- A transaction, with its `premise.tenant_id`. -/
structure Session where
  tables : RuntimeTables
  tenantId : String

/-- The greatest value of a `BIGSERIAL`. -/
def maxSerial : Nat := 2 ^ 63 - 1

def invalidValue : JsError := .error "invalid input value"

def rowSecurityViolation : JsError := .error "new row violates row-level security policy"

def notNullViolation : JsError := .error "null value violates not-null constraint"

def sequenceLimit : JsError := .error "nextval: reached maximum value of sequence"

namespace Session

variable (types : SqlTypes) (s : Session)

/-- `SELECT set_config('premise.tenant_id', $1, true)`. -/
def setTenantContext (tenantId : String) : Session := { s with tenantId }

def sees (tenantId : String) : Bool := s.tenantId ≠ "" && tenantId = s.tenantId

/-- `DELETE … WHERE tenant_id = $1` deletes the row. -/
def deletes (tenantId rowTenantId : String) : Bool := s.sees rowTenantId && rowTenantId = tenantId

/-- What `DELETE FROM … WHERE tenant_id = $1` leaves. -/
def delete (rows : List TenantRow) (tenantId : String) : List TenantRow :=
  rows.filter (fun row => !s.deletes tenantId row.tenantId)

def deleteEvents (tenantId : String) : Session :=
  { s with tables.events := s.tables.events.filter (fun stored => !s.deletes tenantId stored.row.tenantId) }

/-- `INSERT … ON CONFLICT DO NOTHING RETURNING …`; `none` when no row was inserted. -/
def insert (rows : List TenantRow) (row : TenantRow) : Except JsError (Option (List TenantRow)) :=
  if !(types.text row.tenantId && row.key.all types.text && row.columns.all types.takes) then .error invalidValue
  else if !s.sees row.tenantId then .error rowSecurityViolation
  else if rows.any (fun other => other.tenantId = row.tenantId && other.key = row.key) then .ok none
  else .ok (some (rows ++ [row]))

/-- The number of a new event: the given one, or the next of the sequence. -/
def number (sequence : Option Nat) : Except JsError (Nat × Session) :=
  match sequence with
  | some n => .ok (n, s)
  | none =>
    if maxSerial < s.tables.nextSequence then .error sequenceLimit
    else .ok (s.tables.nextSequence, { s with tables.nextSequence := s.tables.nextSequence + 1 })

/-- The number is taken, or the tenant has an event with the key or the id of this one. -/
def conflicts (n : Nat) (event : NewEvent) : Bool :=
  s.tables.events.any (fun stored => stored.sequence = n || (stored.row.tenantId = event.tenantId
    && (stored.row.idempotencyKey = event.idempotencyKey || stored.row.eventId = event.eventId)))

def takesEvent (event : NewEvent) : Bool :=
  types.text event.tenantId && types.text event.idempotencyKey && types.text event.eventId
    && types.jsonb event.event && types.takes event.occurredAt

/-- `INSERT … ON CONFLICT DO NOTHING RETURNING sequence` of an event. -/
def insertEvent (sequence : Option Nat) (event : NewEvent) : Except JsError (Option Session) := do
  if !takesEvent types event then throw invalidValue
  let (n, s) ← s.number sequence
  if event.occurredAt matches .null then throw notNullViolation
  if !s.sees event.tenantId then throw rowSecurityViolation
  if s.conflicts n event then return none
  return some { s with tables.events := s.tables.events ++ [⟨n, event⟩] }

/-- `SELECT MAX(sequence)` of the events. -/
def maxSequence : Option Nat :=
  ((s.tables.events.filter (fun stored => s.sees stored.row.tenantId)).map (·.sequence)).max?

def setval (n : Nat) : Session := { s with tables.nextSequence := n + 1 }

end Session

/-- The next number is greater than every number of an event. -/
def RuntimeTables.Ahead (tables : RuntimeTables) : Prop :=
  ∀ stored ∈ tables.events, stored.sequence < tables.nextSequence

end Premise.Postgres
