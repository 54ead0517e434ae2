import Premise.Backup.Stream
import Premise.Postgres.TenantTables

/-!
# Restoring a backup

`restoreIncrementalBackup` and `restoreLegacyBackup` in one transaction. What a source hands to the sink is
collected first and inserted afterwards; a restore that fails leaves nothing behind but numbers that were
taken from the sequence.
-/

namespace Premise.Backup

open Js Postgres

def clearRuntimeTables (s : Session) (tenantId : String) : Session :=
  let s := s.setTenantContext tenantId
  let s := { s with
    tables.idempotency := s.delete s.tables.idempotency tenantId
    tables.checkpoints := s.delete s.tables.checkpoints tenantId }
  let s := s.deleteEvents tenantId
  let s := { s with tables.records := s.delete s.tables.records tenantId }
  let s := s.setTenantContext "__all__"
  let s := { s with tables.snapshots := s.delete s.tables.snapshots "__all__" }
  if tenantId = "__all__" then s
  else
    let s := s.setTenantContext tenantId
    { s with tables.snapshots := s.delete s.tables.snapshots tenantId }

/-! ## Inserting -/

variable (types : SqlTypes) (host : BackupHost) (tenantId : String)

def jsonText (value : Option Parsed) (label : String) : Except JsError Json :=
  match value with
  | some v => .ok v.json
  | none => .error (.typeError ("PREMiSE backup " ++ label ++ " must be JSON serializable"))

def textOf (key : String) (value : Option Parsed) : String :=
  match prop key value with
  | some (.string s) => s
  | _ => ""

def timestamp : Option Parsed → SqlValue
  | some (.string s) => .timestamptz s
  | _ => .null

/-- `COALESCE($n::timestamptz, CURRENT_TIMESTAMP)`. -/
def timestampOrNow (value : Option Parsed) : SqlValue :=
  match timestamp value with
  | .null => .currentTimestamp
  | t => t

/-- What an insertion returns; it is an error when no row was inserted. -/
def inserted {α : Type} (result : Option α) (what name : String) : Except JsError α :=
  match result with
  | some a => .ok a
  | none => .error (.error ("PREMiSE restore contains a duplicate " ++ what ++ ": " ++ name))

def insertRecord (s : Session) (record : Option Parsed) : Except JsError Session := do
  validateEntry host .record record tenantId
  let memoryId := textOf "memoryId" (prop "envelope" record)
  let envelope ← jsonText (prop "envelope" record) "record.envelope"
  let content ← jsonText (prop "content" record) "record.content"
  let result ← s.insert types s.tables.records ⟨tenantId, [memoryId], [.jsonb envelope, .jsonb content]⟩
  let rows ← inserted result "record" memoryId
  return { s with tables.records := rows }

def newEvent (event : Option Parsed) (document : Json) : NewEvent where
  tenantId := tenantId
  idempotencyKey := textOf "idempotencyKey" event
  eventId := textOf "eventId" event
  event := document
  occurredAt := timestamp (prop "occurredAt" event)

/-- `if (sequence !== undefined) assertSequence(sequence, "event.sequence", 1)`. -/
def assertEventSequence : Option Nat → Except JsError Unit
  | some n => (assertSequence (natural n) "event.sequence" 1).map (fun _ => ())
  | none => .ok ()

def insertEvent (s : Session) (event : Option Parsed) (sequence : Option Nat) : Except JsError Session := do
  validateEntry host .event event tenantId
  assertEventSequence sequence
  let document ← jsonText event "event"
  let result ← s.insertEvent types sequence (newEvent tenantId event document)
  inserted result "event" (textOf "idempotencyKey" event)

def insertSnapshot (s : Session) (value : Option Parsed) : Except JsError Session := do
  validateEntry host .snapshot value tenantId
  let owner := textOf "tenantId" value
  let snapshotId := textOf "snapshotId" value
  let s := s.setTenantContext owner
  let snapshot ← jsonText (prop "snapshot" value) "snapshot"
  let result ← s.insert types s.tables.snapshots ⟨owner, [snapshotId],
    [timestamp (prop "capturedAt" value), .jsonb snapshot, timestampOrNow (prop "createdAt" value)]⟩
  let rows ← inserted result "snapshot" snapshotId
  return { s with tables.snapshots := rows }

def bigintOf (value : Option Parsed) : SqlValue :=
  match safeInteger value with
  | some n => .bigint n.toNat
  | none => .null

def insertCheckpoint (s : Session) (value : Option Parsed) : Except JsError Session := do
  validateEntry host .checkpoint value tenantId
  let s := s.setTenantContext tenantId
  let consumerId := textOf "consumerId" value
  let result ← s.insert types s.tables.checkpoints ⟨tenantId, [consumerId],
    [bigintOf (prop "eventSequence" value), timestampOrNow (prop "updatedAt" value)]⟩
  let rows ← inserted result "checkpoint" consumerId
  return { s with tables.checkpoints := rows }

/-- The response of a row; there is none while the request is in progress. -/
def responseOf (value : Option Parsed) : Except JsError SqlValue :=
  if isText "IN_PROGRESS" (prop "state" value) then .ok .null
  else (jsonText (prop "response" value) "http idempotency.response").map .jsonb

/-- `value.responseHeaders ?? {}`. -/
def responseHeaders (value : Option Parsed) : Json :=
  match prop "responseHeaders" value with
  | none => .object []
  | some .null => .object []
  | some headers => headers.json

def insertHttpIdempotency (s : Session) (value : Option Parsed) : Except JsError Session := do
  validateEntry host .httpIdempotency value tenantId
  let response ← responseOf value
  let s := s.setTenantContext tenantId
  let operation := textOf "operation" value
  let idempotencyKey := textOf "idempotencyKey" value
  let result ← s.insert types s.tables.idempotency ⟨tenantId, [operation, idempotencyKey],
    [.text (textOf "requestHash" value), .text (textOf "state" value), .text (textOf "leaseToken" value),
      bigintOf (prop "statusCode" value), response, .jsonb (responseHeaders value),
      timestampOrNow (prop "createdAt" value), timestampOrNow (prop "updatedAt" value)]⟩
  let rows ← inserted result "HTTP idempotency key" (operation ++ "/" ++ idempotencyKey)
  return { s with tables.idempotency := rows }

/-- What the sink keeps. -/
structure RestoreState where
  session : Session
  counts : BackupCounts := {}
  maxSequence : Nat := 0

namespace RestoreState

def sink (r : RestoreState) (entry : BackupEntry) : Except JsError RestoreState := do
  let counts := r.counts.count entry.kind
  match entry.kind with
  | .record =>
    let session ← insertRecord types host tenantId (r.session.setTenantContext tenantId) entry.value
    return { r with session, counts }
  | .event =>
    let session ← insertEvent types host tenantId (r.session.setTenantContext tenantId) entry.value entry.sequence
    return { session, counts, maxSequence := entry.sequence.elim r.maxSequence (max r.maxSequence) }
  | .snapshot =>
    let session ← insertSnapshot types host tenantId r.session entry.value
    return { r with session, counts }
  | .checkpoint =>
    let session ← insertCheckpoint types host tenantId r.session entry.value
    return { r with session, counts }
  | .httpIdempotency =>
    let session ← insertHttpIdempotency types host tenantId r.session entry.value
    return { r with session, counts }

end RestoreState

def repairEventSequence (s : Session) : Session :=
  let s := s.setTenantContext tenantId
  s.setval (max (s.maxSequence.getD 1) 1)

/-- What a source hands to the sink, with the summary that it returns. -/
structure RestoreSource where
  entries : List BackupEntry
  capturedAt : Option Parsed
  counts : BackupCounts

def isString : Option Parsed → Bool
  | some (.string _) => true
  | _ => false

def restorePostgresState (tables : RuntimeTables) (source : RestoreSource) : Except JsError RuntimeTables := do
  if tenantId.isEmpty || !isTrimmed tenantId then throw (.typeError "PostgreSQL backup requires a tenant-scoped store")
  let session := clearRuntimeTables { tables, tenantId := "" } tenantId
  let r ← source.entries.foldlM (RestoreState.sink types host tenantId) { session }
  if !isString source.capturedAt then throw (.error "PREMiSE restore source capturedAt is invalid")
  if source.counts ≠ r.counts then throw (.error "PREMiSE restore source count verification failed")
  if 0 < r.maxSequence then return (repairEventSequence tenantId r.session).tables
  return r.session.tables

inductive BackupFile
  /-- The bytes of an NDJSON file. -/
  | ndjson (bytes : List Nat)
  /-- The snapshot of a file in the older format. -/
  | legacy (snapshot : Parsed)

def legacyEntries (kind : EntryKind) : Option Parsed → List BackupEntry
  | some (.array items) => items.map (fun value => ⟨kind, value, none, event_of_none⟩)
  | _ => []

def storedSnapshot (snapshot : Parsed) : BackupEntry where
  kind := .snapshot
  value := .object ([("tenantId", .string "__all__")]
    ++ (prop "capturedAt" snapshot).toList.map (fun capturedAt => ("snapshotId", capturedAt))
    ++ (prop "capturedAt" snapshot).toList.map (fun capturedAt => ("capturedAt", capturedAt))
    ++ [("snapshot", snapshot)])
  sequence := none
  sequence_of_event := fun h => absurd rfl h

def isArray : Option Parsed → Bool
  | some (.array _) => true
  | _ => false

def legacySource (snapshot : Parsed) : Except JsError RestoreSource :=
  if !isArray (prop "records" snapshot) || !isArray (prop "events" snapshot) then
    .error (.error "PREMiSE legacy backup snapshot is invalid")
  else
    let entries := legacyEntries .record (prop "records" snapshot) ++ legacyEntries .event (prop "events" snapshot)
      ++ [storedSnapshot snapshot]
    .ok ⟨entries, prop "capturedAt" snapshot, (entries.map (·.kind)).foldl BackupCounts.count {}⟩

/-- What is read of a backup; `expectedTenantId` is `options.tenantId ?? store.tenantId`. -/
def BackupFile.source (now expectedTenantId : String) : BackupFile → Except JsError RestoreSource
  | .legacy snapshot => legacySource snapshot
  | .ndjson bytes =>
    (readIncrementalBackup host now (some expectedTenantId) bytes).map (fun p =>
      ⟨p.1, some (.string p.2.header.capturedAt), p.2.summary.counts⟩)

/-- `restoreIncrementalBackup` and `restoreLegacyBackup`: the tables after the commit. -/
def restoreBackup (now expectedTenantId : String) (tables : RuntimeTables) (file : BackupFile) :
    Except JsError RuntimeTables := do
  let source ← file.source host now expectedTenantId
  restorePostgresState types host tenantId tables source

/-!
# What a restore promises

After a restore, the next number of an event is greater than those of all tenants.
-/

def RestoreSource.sequences (source : RestoreSource) : List Nat := source.entries.filterMap (·.sequence)

/-- No other tenant has a number beyond the sequences of the backup; where it has none, the next
number is beyond theirs. -/
def Leads (sequences : List Nat) (tenantId : String) (tables : RuntimeTables) : Prop :=
  ∀ stored ∈ tables.events, stored.row.tenantId ≠ tenantId →
    if sequences = [] then stored.sequence < tables.nextSequence else ∃ n ∈ sequences, stored.sequence ≤ n

end Premise.Backup
