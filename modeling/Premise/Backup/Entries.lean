import Premise.Js.Parsed
import Premise.Js.Utf8

/-!
# Entries of a backup

The lines of an NDJSON backup, the checks of its entries, and the digest that is taken over them. A value
is what `JSON.parse` delivers. The hash function and `Date.parse` are parameters.
-/

namespace Premise.Backup

open Collections Js

/-- What the host provides. -/
structure BackupHost where
  /-- `createHash("sha256").update(bytes).digest("hex")`. -/
  sha256 : List Nat → String
  /-- `Date.parse(text)`, when it is not `NaN`. -/
  dateParse : String → Option ℚ

mutual

def canonicalJson : Parsed → List Char
  | .array items => '[' :: ([','].intercalate (canonicalItems items) ++ [']'])
  | .object fields =>
    '{' :: ([','].intercalate ((JsValue.sortByKey (canonicalFields fields)).map
      (fun p => jsonString p.1 ++ ':' :: p.2)) ++ ['}'])
  | .null => (Parsed.json .null).stringify
  | .boolean b => (Parsed.json (.boolean b)).stringify
  | .number n => (Parsed.json (.number n)).stringify
  | .string s => (Parsed.json (.string s)).stringify

def canonicalItems : List Parsed → List (List Char)
  | [] => []
  | v :: items => canonicalJson v :: canonicalItems items

def canonicalFields : List (String × Parsed) → List (String × List Char)
  | [] => []
  | (k, v) :: fields => (k, canonicalJson v) :: canonicalFields fields

end

inductive EntryKind
  | record
  | event
  | snapshot
  | checkpoint
  | httpIdempotency
deriving DecidableEq

namespace EntryKind

def text : EntryKind → String
  | record => "record"
  | event => "event"
  | snapshot => "snapshot"
  | checkpoint => "checkpoint"
  | httpIdempotency => "http_idempotency"

/-- `ENTRY_KINDS`. -/
def all : List EntryKind := [record, event, snapshot, checkpoint, httpIdempotency]

/-- `ENTRY_ORDER.get(kind)`. -/
def order : EntryKind → Nat
  | record => 0
  | event => 1
  | snapshot => 2
  | checkpoint => 3
  | httpIdempotency => 4

def ofText (text : String) : Option EntryKind := all.find? (fun kind => kind.text = text)

end EntryKind

/-- An entry; only events have a sequence. -/
structure BackupEntry where
  kind : EntryKind
  value : Parsed
  sequence : Option Nat
  sequence_of_event : sequence ≠ none → kind = .event

theorem event_of_none {kind : EntryKind} (h : (none : Option Nat) ≠ none) : kind = .event := absurd rfl h

def natural (n : Nat) : Parsed := .number (.finite n)

/-- `{ kind, value, ...metadata }`. -/
def entryObject (kind : EntryKind) (value : Parsed) (sequence : Option Nat) : Parsed :=
  .object ([("kind", .string kind.text), ("value", value)]
    ++ sequence.toList.map (fun n => ("sequence", natural n)))

def dataLine (kind : EntryKind) (value : Parsed) (sequence : Option Nat) : List Char :=
  canonicalJson (entryObject kind value sequence) ++ ['\n']

/-! ## Checks -/

/-- `value?.[key]`; `none` is `undefined`. -/
def prop (key : String) : Option Parsed → Option Parsed
  | some (.object fields) => (fields.find? (fun p => p.1 = key)).map Prod.snd
  | _ => none

/-- `value === text`. -/
def isText (text : String) : Option Parsed → Bool
  | some (.string s) => s = text
  | _ => false

/-- `value === null || value === undefined`. -/
def isNullish : Option Parsed → Bool
  | none => true
  | some .null => true
  | _ => false

/-- `Number.isSafeInteger(value)`, with the value. -/
def safeInteger : Option Parsed → Option Int
  | some (.number n) => n.toInteger.bind (fun value => if isSafeInteger value then some value else none)
  | _ => none

def isInvalid (label : String) : JsError := .error ("PREMiSE backup " ++ label ++ " is invalid")

def assertObject (value : Option Parsed) (label : String) : Except JsError Unit :=
  match value with
  | some (.object _) => .ok ()
  | _ => .error (isInvalid label)

def assertString (value : Option Parsed) (label : String) : Except JsError Unit :=
  match value with
  | some (.string s) => if !s.isEmpty && isTrimmed s then .ok () else .error (isInvalid label)
  | _ => .error (isInvalid label)

/-- `assertSequence(value, label, minimum)`, with the value. -/
def assertSequence (value : Option Parsed) (label : String) (minimum : Nat) : Except JsError Nat :=
  match safeInteger value with
  | some n => if (minimum : Int) ≤ n then .ok n.toNat else .error (isInvalid label)
  | none => .error (isInvalid label)

variable (host : BackupHost)

/-- `Date.parse(value)` of a text. -/
def instantOf : Option Parsed → Option ℚ
  | some (.string s) => host.dateParse s
  | _ => none

def assertDateTime (value : Option Parsed) (label : String) : Except JsError Unit :=
  if (instantOf host value).isSome then .ok () else .error (.typeError (label ++ " must be an ISO date-time"))

/-- The check of a property that may be `undefined`. -/
def whenDefined (value : Option Parsed) (check : Option Parsed → Except JsError Unit) : Except JsError Unit :=
  if value.isNone then .ok () else check value

def assertEntryTenant (kind : EntryKind) (value : Option Parsed) (tenantId : String) : Except JsError Unit :=
  let entryTenant := if kind = .record then prop "tenantId" (prop "envelope" value) else prop "tenantId" value
  let error := JsError.error ("PREMiSE backup " ++ kind.text ++ " tenant does not match the backup header")
  if kind = .snapshot then
    if isText tenantId entryTenant || isText "__all__" entryTenant then .ok () else .error error
  else if isText tenantId entryTenant then .ok () else .error error

def isRuntimeSnapshot (snapshot : Option Parsed) : Bool :=
  isText "premise-runtime-snapshot" (prop "format" snapshot)
    && (match prop "version" snapshot with | some (.number n) => n.same (.finite 1) | _ => false)
    && (match prop "records" snapshot with | some (.array _) => true | _ => false)
    && (match prop "events" snapshot with | some (.array _) => true | _ => false)

def validateSnapshot (value : Option Parsed) : Except JsError Unit := do
  assertString (prop "snapshotId" value) "snapshot.snapshotId"
  assertDateTime host (prop "capturedAt" value) "snapshot.capturedAt"
  whenDefined (prop "createdAt" value) (fun v => assertDateTime host v "snapshot.createdAt")
  let snapshot := prop "snapshot" value
  assertObject snapshot "snapshot.snapshot"
  if !isRuntimeSnapshot snapshot then throw (.error "PREMiSE backup snapshot.snapshot is invalid")
  assertDateTime host (prop "capturedAt" snapshot) "snapshot.snapshot.capturedAt"
  if instantOf host (prop "capturedAt" snapshot) ≠ instantOf host (prop "capturedAt" value) then
    throw (.error "PREMiSE backup snapshot capturedAt does not match its row")

def assertHeader (header : String × Parsed) : Except JsError Unit :=
  match header.2 with
  | .string _ => .ok ()
  | _ => .error (.error ("PREMiSE backup HTTP idempotency header " ++ header.1 ++ " is invalid"))

def assertHeaders (headers : Option Parsed) : Except JsError Unit := do
  assertObject headers "http idempotency.responseHeaders"
  match headers with
  | some (.object fields) => fields.forM assertHeader
  | _ => .ok ()

def assertRequest (value : Option Parsed) : Except JsError Unit := do
  assertString (prop "operation" value) "http idempotency.operation"
  assertString (prop "idempotencyKey" value) "http idempotency.idempotencyKey"
  assertString (prop "requestHash" value) "http idempotency.requestHash"
  assertString (prop "state" value) "http idempotency.state"
  assertString (prop "leaseToken" value) "http idempotency.leaseToken"
  if !isText "IN_PROGRESS" (prop "state" value) && !isText "COMPLETED" (prop "state" value) then
    throw (.error "PREMiSE backup http idempotency.state is invalid")

def assertResponse (value : Option Parsed) : Except JsError Unit := do
  let statusCode := prop "statusCode" value
  let response := prop "response" value
  if !isNullish statusCode then
    let code ← assertSequence statusCode "http idempotency.statusCode" 100
    if 599 < code then throw (.error "PREMiSE backup http idempotency.statusCode is invalid")
  if isText "IN_PROGRESS" (prop "state" value) && (!isNullish statusCode || !isNullish response) then
    throw (.error "PREMiSE backup in-progress HTTP idempotency row must not contain a response")
  if isText "COMPLETED" (prop "state" value) && (isNullish statusCode || response.isNone) then
    throw (.error "PREMiSE backup completed HTTP idempotency row is incomplete")

def validateHttpIdempotency (value : Option Parsed) : Except JsError Unit := do
  assertRequest value
  assertResponse value
  whenDefined (prop "responseHeaders" value) assertHeaders
  whenDefined (prop "createdAt" value) (fun v => assertDateTime host v "http idempotency.createdAt")
  whenDefined (prop "updatedAt" value) (fun v => assertDateTime host v "http idempotency.updatedAt")

def validateEntry (kind : EntryKind) (value : Option Parsed) (tenantId : String) : Except JsError Unit := do
  assertObject value kind.text
  assertEntryTenant kind value tenantId
  match kind with
  | .record => do
    assertObject (prop "envelope" value) "record.envelope"
    assertString (prop "memoryId" (prop "envelope" value)) "record.envelope.memoryId"
  | .event => do
    assertString (prop "eventId" value) "event.eventId"
    assertString (prop "idempotencyKey" value) "event.idempotencyKey"
    whenDefined (prop "occurredAt" value) (fun v => assertDateTime host v "event.occurredAt")
  | .snapshot => validateSnapshot host value
  | .checkpoint => do
    assertString (prop "consumerId" value) "checkpoint.consumerId"
    let _ ← assertSequence (prop "eventSequence" value) "checkpoint.eventSequence" 0
    whenDefined (prop "updatedAt" value) (fun v => assertDateTime host v "checkpoint.updatedAt")
  | .httpIdempotency => validateHttpIdempotency host value

structure BackupCounts where
  records : Nat := 0
  events : Nat := 0
  snapshots : Nat := 0
  checkpoints : Nat := 0
  httpIdempotency : Nat := 0
deriving DecidableEq

/-- `counts[countField(kind)] += 1`. -/
def BackupCounts.count (c : BackupCounts) : EntryKind → BackupCounts
  | .record => { c with records := c.records + 1 }
  | .event => { c with events := c.events + 1 }
  | .snapshot => { c with snapshots := c.snapshots + 1 }
  | .checkpoint => { c with checkpoints := c.checkpoints + 1 }
  | .httpIdempotency => { c with httpIdempotency := c.httpIdempotency + 1 }

/-- The state of `createIncrementalDigest()`. -/
structure IncrementalDigest where
  /-- What the hash was updated with. -/
  hashed : List Char := []
  counts : BackupCounts := {}
  eventsWithSequence : Nat := 0
  /-- Whether the events so far have sequences. -/
  eventSequenceMode : Option Bool := none

structure BackupSummary where
  counts : BackupCounts
  eventSequences : Bool
  sha256 : String
deriving DecidableEq

namespace IncrementalDigest

def add (d : IncrementalDigest) (entry : BackupEntry) : Except JsError IncrementalDigest :=
  let explicit := entry.sequence.isSome
  let d := { d with
    hashed := d.hashed ++ dataLine entry.kind entry.value entry.sequence
    counts := d.counts.count entry.kind }
  if entry.kind ≠ .event then .ok d
  else if d.eventSequenceMode.any (fun mode => mode ≠ explicit) then
    .error (.error "PREMiSE backup event sequence metadata is inconsistent")
  else .ok { d with
    eventSequenceMode := some explicit
    eventsWithSequence := if explicit then d.eventsWithSequence + 1 else d.eventsWithSequence }

def finish (d : IncrementalDigest) : BackupSummary where
  counts := d.counts
  eventSequences := d.counts.events = 0 || d.eventsWithSequence = d.counts.events
  sha256 := host.sha256 (utf8 d.hashed)

end IncrementalDigest

end Premise.Backup
