import Premise.Control.Command
import Premise.Js.Utf8
import Premise.Security.Audit

/-!
# `FileAuditSink`

An audit log in a file, one canonical entry a line. A sink reads and checks the whole file when it is opened,
and refuses everything after a write that has failed. The file is the list of its bytes.
-/

namespace Premise.Security

open Collections Control Js

/-- The limits of a sink, and the texts that no entry may have. -/
structure FileAuditSinkOptions where
  maxEntryBytes : Nat := 256 * 1024
  maxFileBytes : Nat := 1024 * 1024 * 1024
  maxEntries : Nat := 1000000
  secretValues : List String := []

def failIntegrity : SecurityError := .security .auditIntegrityError "Audit sink integrity check failed"

def failInput : SecurityError := .security .invalidInput "Audit sink input is invalid"

namespace Payload

mutual

/-- The value that `JSON.parse` makes of a document. -/
def ofJson : Json → Payload
  | .null => .null
  | .boolean b => .boolean b
  | .number q => if h : IsDecimal q then .number ⟨q, h⟩ else .nonFinite
  | .string s => .string s
  | .array items => .array (ofItems items)
  | .object fields => .object true (ofFields fields)

def ofItems : List Json → List Payload
  | [] => []
  | v :: items => ofJson v :: ofItems items

def ofFields : List (String × Json) → List (String × Payload)
  | [] => []
  | (key, v) :: fields => (key, ofJson v) :: ofFields fields

end

mutual

def containsSecret (secrets : List String) : Payload → Bool
  | .string s => secrets.any (fun secret => s.toList.tails.any secret.toList.isPrefixOf)
  | .circular => true
  | .array items => itemsContainSecret secrets items
  | .object _ properties => propertiesContainSecret secrets properties
  | .error _ _ properties => propertiesContainSecret secrets properties
  | _ => false

def itemsContainSecret (secrets : List String) : List Payload → Bool
  | [] => false
  | v :: items => v.containsSecret secrets || itemsContainSecret secrets items

def propertiesContainSecret (secrets : List String) : List (String × Payload) → Bool
  | [] => false
  | (key, v) :: properties =>
    sensitiveKey key || v.containsSecret secrets || propertiesContainSecret secrets properties

end

end Payload

def textField (value : String) : Bool :=
  decide (0 < (codeUnits value).length ∧ (codeUnits value).length ≤ 256) && isTrimmed value && isPrintable value

/-- What `validateEntryShape` checks. -/
def validEntryShape (value : Payload) : Bool :=
  match value.ownProperties with
  | none => false
  | some properties =>
    let keys := properties.map Prod.fst
    let hasSubject := decide ("subjectId" ∈ keys)
    keys.length = (expectedKeys hasSubject).length
      && keys.all (fun key => key ∈ expectedKeys hasSubject)
      && value.text "format" = some AUDIT_LOG_FORMAT
      && value.numeral "version" = some (AUDIT_LOG_VERSION : ℚ)
      && (value.numeral "sequence").any (fun sequence =>
        sequence.den = 1 && isSafeInteger sequence.num && 0 < sequence.num)
      && (value.text "eventId").any textField
      && (value.text "occurredAt").any textField
      && (value.text "tenantId").any textField
      && (!hasSubject || (value.text "subjectId").any textField)
      && (value.text "action").any textField
      && (value.text "outcome").any (fun outcome => outcome ∈ AUDIT_OUTCOMES)
      && (value.get "data").isSome
      && (value.text "previousHash").any (fun hash => hash = AUDIT_GENESIS_HASH || isAuditHash hash)
      && (value.text "hash").any isAuditHash

/-- `canonicalEntry(value, secrets)`: the entry, and the line that it is written as. -/
def canonicalEntry (value : Payload) (secrets : List String) : Except SecurityError (Payload × String) :=
  match value.canonicalize with
  | .error _ => .error failInput
  | .ok canonical =>
    match parseJson canonical.toList with
    | none => .error failInput
    | some normalized =>
      let entry := Payload.ofJson normalized
      if validEntryShape entry = false then .error failInput
      else if entry.containsSecret secrets then
        .error (.security .invalidInput "Audit entry contains a secret")
      else if entry.canonicalize ≠ .ok canonical then .error failInput
      else .ok (entry, canonical)

def byteLength (text : List Char) : Nat := (utf8 text).length

def decodeLine (options : FileAuditSinkOptions) (entries : List Payload) (line : List Char) :
    Except SecurityError (List Payload) := do
  if byteLength line + 1 > options.maxEntryBytes then .error failIntegrity
  match parseJson line with
  | none => .error failIntegrity
  | some parsed =>
    match canonicalEntry (.ofJson parsed) options.secretValues with
    | .error _ => .error failIntegrity
    | .ok (entry, canonical) =>
      if canonical.toList ≠ line
          ∨ entries.any (fun e => e.text "eventId" = entry.text "eventId" || e.text "hash" = entry.text "hash") then
        .error failIntegrity
      if (entries ++ [entry]).length > options.maxEntries then .error failIntegrity
      return entries ++ [entry]

def decodeFile (sha : Sha256) (options : FileAuditSinkOptions) (text : List Char) :
    Except SecurityError (List Payload) := do
  if text = [] then return []
  if text.getLast? ≠ some '\n' then .error failIntegrity
  let lines := text.dropLast.splitOn '\n'
  if [] ∈ lines then .error failIntegrity
  let entries ← lines.foldlM (decodeLine options) []
  if verifyAuditChain sha entries = false then .error failIntegrity
  return entries

structure FileAuditSink where
  options : FileAuditSinkOptions
  fileBytes : Nat
  entries : List Payload
  closed : Bool := false
  poisoned : Bool := false

/-- `new FileAuditSink(filePath, options)`, on a file with the given bytes. -/
def FileAuditSink.openFile (sha : Sha256) (file : List Nat) (options : FileAuditSinkOptions) :
    Except SecurityError FileAuditSink := do
  if file.length > options.maxFileBytes then .error failIntegrity
  let text := decodeBytes none file
  if byteLength text ≠ file.length then .error failIntegrity
  let entries ← decodeFile sha options text
  return { options, fileBytes := file.length, entries }

/-- A sink and its file. -/
structure SinkFile where
  sink : FileAuditSink
  file : List Nat

abbrev SinkCommand : Type → Type := Command SinkFile SecurityError

/-- `writeAll(fs, fileDescriptor, data)`, with what the calls of `writeSync` return; `none` is a throw. -/
def writeAll : List (Option Nat) → List Nat → SinkCommand Unit
  | _, [] => pure ()
  | some (n + 1) :: answers, b :: data => do
    .update (fun s => { s with file := s.file ++ (b :: data).take (n + 1) })
    writeAll answers ((b :: data).drop (n + 1))
  | some 0 :: _, _ :: _ => .throw failIntegrity
  | none :: _, _ :: _ => .throw (.security .auditIntegrityError "Audit entry could not be durably appended")
  | [], _ :: _ => .throw (.security .auditIntegrityError "Audit entry could not be durably appended")

/-- `fsyncSync(fileDescriptor)`, with its outcome. -/
def fsync (synced : Bool) (message : String) : SinkCommand Unit :=
  .rejectIf (synced = false) (.security .auditIntegrityError message)

namespace FileAuditSink

def ensureOpen : SinkCommand Unit := do
  let sink ← .read SinkFile.sink
  .rejectIf (sink.closed = true) (.security .configurationError "Audit sink is closed")
  .rejectIf (sink.poisoned = true) failIntegrity

def assertFileSize : SinkCommand Unit := do
  let s ← .read id
  .rejectIf (s.file.length ≠ s.sink.fileBytes) failIntegrity

def poison : SinkCommand Unit :=
  .update (fun s => { s with sink := { s.sink with poisoned := true } })

def record (line : String) : List Nat := utf8 (line.toList ++ ['\n'])

/-- What `append` checks before it writes: the entry, and the bytes of its line. -/
def checked (sha : Sha256) (input : Payload) : SinkCommand (Payload × List Nat) := do
  ensureOpen
  assertFileSize
  let sink ← .read SinkFile.sink
  let (entry, line) ← .lift (canonicalEntry input sink.options.secretValues)
  let bytes := record line
  .rejectIf (bytes.length > sink.options.maxEntryBytes ∨ sink.entries.length ≥ sink.options.maxEntries
    ∨ sink.fileBytes + bytes.length > sink.options.maxFileBytes) failInput
  .rejectIf (sink.entries.any (fun e => e.text "eventId" = entry.text "eventId" || e.text "hash" = entry.text "hash") = true
    ∨ verifyAuditChain sha (sink.entries ++ [entry]) = false) failIntegrity
  return (entry, bytes)

/-- The write of `append`: a sink whose write fails is poisoned. -/
def write (answers : List (Option Nat)) (synced : Bool) (bytes : List Nat) : SinkCommand Unit :=
  Command.onError (do
    writeAll answers bytes
    fsync synced "Audit entry could not be durably appended") poison

/-- `append(input)`, with what the calls of `writeSync` return and whether the file is synced. -/
def append (sha : Sha256) (answers : List (Option Nat)) (synced : Bool) (input : Payload) :
    SinkCommand Unit := do
  let (entry, bytes) ← checked sha input
  write answers synced bytes
  .update (fun s => { s with sink := { s.sink with
    entries := s.sink.entries ++ [entry]
    fileBytes := s.sink.fileBytes + bytes.length } })

def flush (synced : Bool) : SinkCommand Unit := do
  ensureOpen
  Command.onError (do
    assertFileSize
    fsync synced "Audit sink flush failed") poison

def lastSync (synced : Bool) : SinkCommand Unit := do
  let sink ← .read SinkFile.sink
  if sink.poisoned then return ()
  assertFileSize
  fsync synced "Audit sink close flush failed"

/-- `close()`: what fails is thrown after the file is closed. -/
def close (synced : Bool) : SinkCommand Unit := fun s =>
  if s.sink.closed then (s, .ok ())
  else ({ s with sink := { s.sink with closed := true } }, (lastSync synced s).2)

end FileAuditSink

/-!
# What a file of audit entries promises

The sinks of one file, with the entries that the file has been shown to hold: those that the last opening has
read, and those whose append has returned since.
-/

/-- A file and its sinks. -/
structure AuditDisk where
  file : List Nat
  sinks : List FileAuditSink
  returned : List Payload
  /-- The entry whose append has failed since after its line was written. -/
  interrupted : Option Payload := none
  /-- The sinks of which a write has failed. -/
  failed : List Nat := []

inductive AuditDiskStep
  | openFile (options : FileAuditSinkOptions)
  | append (sink : Nat) (answers : List (Option Nat)) (synced : Bool) (input : Payload)
  | flush (sink : Nat) (synced : Bool)
  | close (sink : Nat) (synced : Bool)

namespace AuditDisk

variable (sha : Sha256)

def opened (d : AuditDisk) (options : FileAuditSinkOptions) : AuditDisk :=
  match FileAuditSink.openFile sha d.file options with
  | .ok sink => { d with
      sinks := d.sinks ++ [sink]
      returned := sink.entries
      interrupted := none }
  | .error _ => d

def after (d : AuditDisk) (i : Nat) (s : SinkFile) : AuditDisk :=
  { d with file := s.file, sinks := d.sinks.set i s.sink }

/-- An entry is appended with the sink `i`. -/
def appended (d : AuditDisk) (i : Nat) (sink : FileAuditSink) (answers : List (Option Nat)) (synced : Bool)
    (input : Payload) : AuditDisk :=
  let run := FileAuditSink.append sha answers synced input ⟨sink, d.file⟩
  match (FileAuditSink.checked sha input ⟨sink, d.file⟩).2, run.2 with
  | .ok (entry, _), .ok () => { d.after i run.1 with returned := d.returned ++ [entry] }
  | .ok (entry, bytes), .error _ => { d.after i run.1 with
      interrupted := if run.1.file = d.file ++ bytes then some entry else d.interrupted
      failed := i :: d.failed }
  | .error _, _ => d.after i run.1

def system : System AuditDisk AuditDiskStep where
  init d := ∃ sink, FileAuditSink.openFile sha d.file sink.options = .ok sink
    ∧ d = { file := d.file, sinks := [sink], returned := sink.entries }
  step d step d' :=
    match step with
    | .openFile options => d' = d.opened sha options
    | .append i answers synced input =>
      ∃ sink ∈ d.sinks[i]?, d' = d.appended sha i sink answers synced input
    | .flush i synced => ∃ sink ∈ d.sinks[i]?, d' = d.after i (FileAuditSink.flush synced ⟨sink, d.file⟩).1
    | .close i synced => ∃ sink ∈ d.sinks[i]?, d' = d.after i (FileAuditSink.close synced ⟨sink, d.file⟩).1

/-- What is promised of a disk. -/
structure Durable (d : AuditDisk) : Prop where
  /-- A sink of which a write has failed refuses every entry. -/
  refuses : ∀ i ∈ d.failed, ∀ sink ∈ d.sinks[i]?, ∀ answers synced input,
    ∃ e, FileAuditSink.append sha answers synced input ⟨sink, d.file⟩ = (⟨sink, d.file⟩, .error e)
  /-- The file yields the entries whose append has returned, and at most the one whose append has failed
  after its line was written. -/
  reopens : ∀ options sink, FileAuditSink.openFile sha d.file options = .ok sink →
    verifyAuditChain sha sink.entries = true ∧
      (sink.entries = d.returned ∨ ∃ entry, d.interrupted = some entry ∧ sink.entries = d.returned ++ [entry])

end AuditDisk

end Premise.Security
