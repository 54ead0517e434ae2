import Premise.Backup.Entries
import Premise.Js.JsonTexts

/-!
# NDJSON backups

`createIncrementalBackupWriter` and `readIncrementalBackup`. The stream takes every line, and the callbacks
of the reader return; what they are called with is collected. The lines of a file are those of
`node:readline`.
-/

namespace Premise.Backup

open Js

/-- A line feed, a carriage return, a line separator or a paragraph separator. -/
def isLineEnd (c : Char) : Bool := c = '\n' || c = '\r' || c = '\u2028' || c = '\u2029'

/-- The text up to the first line end, and what follows the line end. -/
def cutLine : List Char → List Char × Option (List Char)
  | [] => ([], none)
  | '\r' :: '\n' :: rest => ([], some rest)
  | c :: rest =>
    if isLineEnd c then ([], some rest)
    else (c :: (cutLine rest).1, (cutLine rest).2)

/-- The lines of a text. What follows the last line end is a line unless it is empty. -/
def fileLines : Nat → List Char → List (List Char)
  | 0, _ => []
  | fuel + 1, text =>
    match cutLine text with
    | (line, some rest) => line :: fileLines fuel rest
    | ([], none) => []
    | (line, none) => [line]

/-- The lines of `createInterface({ input, crlfDelay: Infinity })`. -/
def readLines (text : List Char) : List (List Char) := fileLines (text.length + 1) text

def streamFormat : String := "premise-v2-backup-ndjson"

def streamVersion : Nat := 1

structure StreamHeader where
  capturedAt : String
  tenantId : String
deriving DecidableEq

def StreamHeader.toParsed (h : StreamHeader) : Parsed :=
  .object [("format", .string streamFormat), ("version", natural streamVersion),
    ("capturedAt", .string h.capturedAt), ("tenantId", .string h.tenantId)]

variable (host : BackupHost)

def assertMetadata : Parsed → Except JsError Unit
  | .object _ => .ok ()
  | .array _ => .ok ()
  | _ => .error (.typeError "NDJSON backup metadata is required")

def tenantError : JsError :=
  .typeError "backup tenantId must be a non-empty string without surrounding whitespace"

/-- `streamHeader(metadata)` at the instant `now`. -/
def streamHeader (now : String) (metadata : Parsed) : Except JsError StreamHeader := do
  assertMetadata metadata
  let capturedAt := if isNullish (prop "capturedAt" metadata) then some (.string now) else prop "capturedAt" metadata
  assertDateTime host capturedAt "backup capturedAt"
  match capturedAt, prop "tenantId" metadata with
  | some (.string capturedAt), some (.string tenantId) =>
    if tenantId.isEmpty || !isTrimmed tenantId then .error tenantError else .ok { capturedAt, tenantId }
  | _, _ => .error tenantError

structure BackupWriter where
  header : StreamHeader
  digest : IncrementalDigest := {}
  /-- What was written to the stream. -/
  written : List Char

/-- `value.trimEnd()`. -/
def trimEnd (value : List Char) : List Char := (value.reverse.dropWhile isWhitespace).reverse

namespace BackupWriter

/-- `createIncrementalBackupWriter(stream, metadata)`, when it is ready. -/
def create (now : String) (metadata : Parsed) : Except JsError BackupWriter := do
  let header ← streamHeader host now metadata
  return { header, written := canonicalJson header.toParsed ++ ['\n'] }

def writeEntry (w : BackupWriter) (entry : BackupEntry) : Except JsError BackupWriter := do
  validateEntry host entry.kind entry.value w.header.tenantId
  match entry.sequence with
  | some n => let _ ← assertSequence (natural n) "event.sequence" 1
  | none => pure ()
  let digest ← w.digest.add entry
  return { w with
    digest
    written := w.written ++ trimEnd (dataLine entry.kind entry.value entry.sequence) ++ ['\n'] }

end BackupWriter

/-- `{ kind: "footer", ...summary }`. -/
def BackupSummary.footer (s : BackupSummary) : Parsed :=
  .object [("kind", .string "footer"), ("records", natural s.counts.records), ("events", natural s.counts.events),
    ("snapshots", natural s.counts.snapshots), ("checkpoints", natural s.counts.checkpoints),
    ("httpIdempotency", natural s.counts.httpIdempotency), ("eventSequences", .boolean s.eventSequences),
    ("sha256", .string s.sha256)]

/-- What a writer or a reader returns. -/
structure BackupResult where
  header : StreamHeader
  summary : BackupSummary
deriving DecidableEq

/-- `writeBackup(...)`: the text of the file, with the result. -/
def writeBackup (now : String) (metadata : Parsed) (entries : List BackupEntry) :
    Except JsError (List Char × BackupResult) := do
  let w ← BackupWriter.create host now metadata
  let w ← entries.foldlM (BackupWriter.writeEntry host) w
  let summary := w.digest.finish host
  return (w.written ++ canonicalJson summary.footer ++ ['\n'], ⟨w.header, summary⟩)

/-! ## The reader -/

structure FooterSummary where
  counts : BackupCounts
  sha256 : String
  eventSequences : Option Bool

/-- `value[field] ?? value[legacyField]`. -/
def countOf (value : Parsed) (field legacyField : String) : Option Parsed :=
  if isNullish (prop field value) then prop legacyField value else prop field value

/-- The count of a footer under `field`, or under its older name. -/
def footerCount (value : Parsed) (field legacyField : String) (required : Bool) : Except JsError Nat :=
  if (prop field value).isNone && (prop legacyField value).isNone then
    if required then .error (isInvalid ("footer." ++ field)) else .ok 0
  else assertSequence (countOf value field legacyField) ("footer." ++ field) 0

/-- `/^[0-9a-f]{64}$/u.test(value)`. -/
def isSha256 (value : String) : Bool :=
  value.toList.length = 64 && value.toList.all (fun c => c.isDigit || ('a' ≤ c && c ≤ 'f'))

def footerSummary (value : Parsed) : Except JsError FooterSummary := do
  assertObject value "footer"
  let records ← footerCount value "records" "records" true
  let events ← footerCount value "events" "events" true
  let snapshots ← footerCount value "snapshots" "snapshots" false
  let checkpoints ← footerCount value "checkpoints" "checkpoints" false
  let httpIdempotency ← footerCount value "httpIdempotency" "idempotency" false
  match prop "sha256" value with
  | some (.string sha256) => do
    if !isSha256 sha256 then throw (.error "PREMiSE backup footer sha256 is invalid")
    let counts := { records, events, snapshots, checkpoints, httpIdempotency }
    match prop "eventSequences" value with
    | none => return ⟨counts, sha256, none⟩
    | some (.boolean b) => return ⟨counts, sha256, some b⟩
    | some _ => throw (.error "PREMiSE backup footer eventSequences is invalid")
  | _ => throw (.error "PREMiSE backup footer sha256 is invalid")

def compareSummary (expected : FooterSummary) (actual : BackupSummary) : Bool :=
  expected.counts = actual.counts && expected.sha256 = actual.sha256
    && expected.eventSequences.all (fun b => b = actual.eventSequences)

structure BackupReader where
  lineNumber : Nat := 0
  header : Option StreamHeader := none
  footer : Option FooterSummary := none
  phase : Option EntryKind := none
  lastEventSequence : Option Nat := none
  digest : IncrementalDigest := {}
  /-- What the callbacks were called with. -/
  delivered : List BackupEntry := []

namespace BackupReader

def assertVersion (version : Option Parsed) : Except JsError Unit :=
  match version with
  | some (.number n) =>
    if n.same (.finite streamVersion) then .ok () else .error (.error "Unsupported PREMiSE NDJSON backup version")
  | _ => .error (.error "Unsupported PREMiSE NDJSON backup version")

def assertTenant (expectedTenantId : Option String) (header : StreamHeader) : Except JsError Unit :=
  if expectedTenantId.any (fun tenantId => header.tenantId ≠ tenantId) then
    .error (.error "PREMiSE backup tenant does not match the restore target")
  else .ok ()

def headerLine (now : String) (expectedTenantId : Option String) (r : BackupReader) (value : Parsed) :
    Except JsError BackupReader := do
  let header ← streamHeader host now value
  assertVersion (prop "version" value)
  assertTenant expectedTenantId header
  return { r with header := some header }

def eventSequence (r : BackupReader) (value : Parsed) : Except JsError (Option Nat) :=
  match prop "sequence" value with
  | none => .ok none
  | some sequence => do
    let n ← assertSequence sequence "event.sequence" 1
    if r.lastEventSequence.any (fun last => n ≤ last) then
      throw (.error "PREMiSE NDJSON backup event sequences are not strictly increasing")
    return some n

def deliver (r : BackupReader) (entry : BackupEntry) : Except JsError BackupReader := do
  let digest ← r.digest.add entry
  return { r with digest, delivered := r.delivered ++ [entry] }

def assertPhase (r : BackupReader) (kind : EntryKind) : Except JsError Unit :=
  if r.phase.any (fun phase => kind.order < phase.order) then
    .error (.error ("PREMiSE NDJSON backup " ++ kind.text ++ " appears out of order at line " ++ toString r.lineNumber))
  else .ok ()

def entryLine (r : BackupReader) (header : StreamHeader) (kind : EntryKind) (value : Parsed) :
    Except JsError BackupReader := do
  r.assertPhase kind
  let r := { r with phase := some kind }
  validateEntry host kind (prop "value" value) header.tenantId
  let content := (prop "value" value).getD .null
  if h : kind = .event then
    let sequence ← r.eventSequence value
    { r with lastEventSequence := sequence.or r.lastEventSequence }.deliver ⟨kind, content, sequence, fun _ => h⟩
  else r.deliver ⟨kind, content, none, fun hne => absurd rfl hne⟩

def kindOf (value : Parsed) : Option EntryKind :=
  match prop "kind" value with
  | some (.string text) => EntryKind.ofText text
  | _ => none

def dataOrFooter (r : BackupReader) (header : StreamHeader) (value : Parsed) : Except JsError BackupReader :=
  if r.footer.isSome then
    .error (.error ("PREMiSE NDJSON backup has data after its footer at line " ++ toString r.lineNumber))
  else if isText "footer" (prop "kind" value) then
    (footerSummary value).map (fun footer => { r with footer := some footer })
  else match kindOf value with
    | none =>
      .error (.error ("PREMiSE NDJSON backup has an unsupported entry at line " ++ toString r.lineNumber))
    | some kind => r.entryLine host header kind value

def parseLine (lineNumber : Nat) (rawLine : List Char) : Except JsError Parsed :=
  if !nonEmpty (String.ofList rawLine) then
    .error (.error ("PREMiSE NDJSON backup has an empty line at " ++ toString lineNumber))
  else match parse rawLine with
    | none => .error (.error ("PREMiSE NDJSON backup has invalid JSON at line " ++ toString lineNumber))
    | some value => .ok value

def readLine (now : String) (expectedTenantId : Option String) (r : BackupReader) (rawLine : List Char) :
    Except JsError BackupReader := do
  let r := { r with lineNumber := r.lineNumber + 1 }
  let value ← parseLine r.lineNumber rawLine
  if r.lineNumber = 1 then r.headerLine host now expectedTenantId value
  else match r.header with
    | none => .error (.error "PREMiSE NDJSON backup header is missing")
    | some header => r.dataOrFooter host header value

def finish (r : BackupReader) : Except JsError (List BackupEntry × BackupResult) :=
  match r.header, r.footer with
  | none, _ => .error (.error "PREMiSE NDJSON backup header is missing")
  | some _, none => .error (.error "PREMiSE NDJSON backup footer is missing")
  | some header, some footer =>
    if compareSummary footer (r.digest.finish host) then .ok (r.delivered, ⟨header, r.digest.finish host⟩)
    else .error (.error "PREMiSE backup checksum or count mismatch")

end BackupReader

/-- `readIncrementalBackup(file, options)`: what is delivered, with the result. -/
def readIncrementalBackup (now : String) (expectedTenantId : Option String) (file : List Nat) :
    Except JsError (List BackupEntry × BackupResult) := do
  let r ← (readLines (decodeBytes none file)).foldlM (BackupReader.readLine host now expectedTenantId) {}
  r.finish host

/-!
# What a backup promises

What is written is read again, and files with one digest deliver the same entries.
-/

/-- The entries are the same, up to the order in which objects list their properties. -/
structure SameEntry (e f : BackupEntry) : Prop where
  kind : e.kind = f.kind
  sequence : e.sequence = f.sequence
  value : e.value.Same f.value

/-- An entry that the writer takes for a tenant. -/
structure BackupEntry.Valid (host : BackupHost) (tenantId : String) (e : BackupEntry) : Prop where
  wellFormed : e.value.WellFormed
  accepted : validateEntry host e.kind (some e.value) tenantId = .ok ()
  sequence : ∀ n ∈ e.sequence, 1 ≤ n ∧ n < 2 ^ 53

/-- The kinds follow each other, and the events have either no sequences or increasing ones. -/
structure Ordered (entries : List BackupEntry) : Prop where
  kinds : entries.Pairwise (fun e f => e.kind.order ≤ f.kind.order)
  sequences : (∀ e ∈ entries, e.sequence = none) ∨
    ((∀ e ∈ entries, e.kind = .event → e.sequence ≠ none) ∧ (entries.filterMap (·.sequence)).Pairwise (· < ·))

/-- A written file is read: the same entries are delivered, and the same counts and digest are returned. -/
def RoundTrips (host : BackupHost) (now : String) (expectedTenantId : Option String) (entries : List BackupEntry)
    (text : List Char) (result : BackupResult) : Prop :=
  ∃ delivered, readIncrementalBackup host now expectedTenantId (utf8 text) = .ok (delivered, result)
    ∧ List.Forall₂ SameEntry entries delivered

def Unbroken (text : String) : Prop := '\u2028' ∉ text.toList ∧ '\u2029' ∉ text.toList

instance (text : String) : Decidable (Unbroken text) := inferInstanceAs (Decidable (_ ∧ _))

def UnbrokenValue (v : Parsed) : Prop := ∀ text ∈ v.json.texts, Unbroken text

/-- The values of the entries of a file, whether they are accepted or not. -/
def fileValues (file : List Nat) : List Parsed :=
  ((readLines (decodeBytes none file)).drop 1).filterMap (fun line =>
    (parse line).bind (fun value => if (BackupReader.kindOf value).isSome then prop "value" value else none))

/-- What the digest takes for `null` at the same places of two files. -/
def SameNulls (file file' : List Nat) : Prop :=
  (fileValues file).map (·.sorted.nulls) = (fileValues file').map (·.sorted.nulls)

end Premise.Backup
