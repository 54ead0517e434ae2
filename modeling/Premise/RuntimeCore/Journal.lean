import Premise.Collections.OrderedMap
import Premise.Js.JsonText
import Premise.Js.Utf8
import Premise.Protocol.Event

/-!
# The journals

`FileJournal` without a checkpoint file: what it appends to its file, what it reads from it, and how it
opens it again; and `InMemoryJournal`. `Date.parse` of an arbitrary text, on which it depends whether a text is a timestamp, is a
parameter.
-/

namespace Premise.RuntimeCore

open Collections Js Protocol

inductive JournalError
  | thrown (error : JsError)
  /-- A `V2EnvelopeValidationError` and its issues. -/
  | invalid (issues : List V2ValidationIssue)
  /-- The `SyntaxError` of `JSON.parse`. -/
  | syntaxError
deriving DecidableEq

namespace JournalError

def typeError (message : String) : JournalError := .thrown (.typeError message)

def rangeError (message : String) : JournalError := .thrown (.rangeError message)

def error (message : String) : JournalError := .thrown (.error message)

end JournalError

inductive RuntimeJournalEntry
  | event (cursor : Nat) (tenantId : String) (event : Json)
  | decision (cursor : Nat) (tenantId occurredAt : String) (decision : Json)

namespace RuntimeJournalEntry

def cursor : RuntimeJournalEntry → Nat
  | .event n _ _ => n
  | .decision n _ _ _ => n

def tenantId : RuntimeJournalEntry → String
  | .event _ t _ => t
  | .decision _ t _ _ => t

/-- The entry comes after the cursor, and is of the tenant that is asked for. -/
def selected (entry : RuntimeJournalEntry) (after : Nat) (tenant : Option String) : Bool :=
  decide (after < entry.cursor) && tenant.all (fun t => entry.tenantId == t)

def toJson : RuntimeJournalEntry → Json
  | .event n tenantId value =>
    .object [("kind", .string "event"), ("cursor", .number n), ("tenantId", .string tenantId),
      ("event", value)]
  | .decision n tenantId occurredAt value =>
    .object [("kind", .string "decision"), ("cursor", .number n), ("tenantId", .string tenantId),
      ("occurredAt", .string occurredAt), ("decision", value)]

end RuntimeJournalEntry

def textField (key : String) (value : Json) : String :=
  match value.field key with
  | some (.string s) => s
  | _ => ""

/-- `JSON.parse(text)`. -/
def parseText (text : List Char) : Except JournalError Json :=
  match parseJson text with
  | some value => .ok value
  | none => .error .syntaxError

def clone (value : Json) : Except JournalError Json := parseText value.stringify

def assertNonEmpty (value : Option Json) (name : String) : Except JournalError String :=
  match value with
  | some (.string s) =>
    if s.length = 0 ∨ isTrimmed s = false then
      .error (.typeError (name ++ " must be a non-empty string"))
    else .ok s
  | _ => .error (.typeError (name ++ " must be a non-empty string"))

def assertCursor (value : Option Json) (name : String) : Except JournalError Nat :=
  match value with
  | some (.number q) =>
    if q.den = 1 ∧ isSafeInteger q.num = true ∧ 0 ≤ q.num then .ok q.num.toNat
    else .error (.rangeError (name ++ " must be a non-negative safe integer"))
  | _ => .error (.rangeError (name ++ " must be a non-negative safe integer"))

def assertTimestamp (dateParses : String → Bool) (value : Option Json) (name : String) :
    Except JournalError String :=
  match value with
  | some (.string s) =>
    if dateParses s = true then .ok s else .error (.typeError (name ++ " must be an ISO timestamp"))
  | _ => .error (.typeError (name ++ " must be an ISO timestamp"))

def isObject : Option Json → Bool
  | some (.object _) => true
  | some (.array _) => true
  | _ => false

/-- `assertDecision(decision)`: a decision that passes is an object, of which a copy is returned. -/
def assertDecision (decision : Option Json) : Except JournalError Json :=
  match decision with
  | none => .error (.typeError "journal decision must be an object")
  | some value => do
    if isObject (some value) = false then
      throw (.typeError "journal decision must be an object")
    let _ ← assertNonEmpty (value.field "memoryId") "decision.memoryId"
    let _ ← assertNonEmpty (value.field "decision") "decision.decision"
    if (value.field "reason").isSome then
      let _ ← assertNonEmpty (value.field "reason") "decision.reason"
    return value

def checkedEvent (cursor : Nat) (tenantId : String) (event : Option Json) :
    Except JournalError RuntimeJournalEntry :=
  match event with
  | none => .error (.typeError "journal values must be JSON serializable")
  | some value => do
    let copy ← clone value
    let event ← (parseV2Event copy).mapError .invalid
    if textField "tenantId" event ≠ tenantId then
      throw (.error "journal event tenant does not match entry tenant")
    return .event cursor tenantId event

def checkedEntry (dateParses : String → Bool) (value : Json) :
    Except JournalError RuntimeJournalEntry := do
  if isObject (some value) = false then
    throw (.typeError "journal entry must be an object")
  let cursor ← assertCursor (value.field "cursor") "cursor"
  let tenantId ← assertNonEmpty (value.field "tenantId") "entry.tenantId"
  if isText (fun s => s == "event") (value.field "kind") then
    checkedEvent cursor tenantId (value.field "event")
  else if isText (fun s => s == "decision") (value.field "kind") then
    let occurredAt ← assertTimestamp dateParses (value.field "occurredAt") "entry.occurredAt"
    let decision ← assertDecision (value.field "decision")
    return .decision cursor tenantId occurredAt decision
  else throw (.typeError "journal entry kind must be event or decision")

/-- A line of the file, and the offset at which it ends. -/
structure JournalLine where
  line : List Char
  terminated : Bool
  stop : Nat

/-- The lines of the rest of a file, of which `pending` has been read since the last newline and
    `fileOffset` bytes altogether. -/
def linesFrom (fileOffset : Nat) (pending : List Nat) : List Nat → List JournalLine
  | [] => if pending = [] then [] else [⟨decode pending, false, fileOffset⟩]
  | b :: bytes =>
    if b = 0x0A then ⟨decode pending, true, fileOffset + 1⟩ :: linesFrom (fileOffset + 1) [] bytes
    else linesFrom (fileOffset + 1) (pending ++ [b]) bytes

def journalLines (bytes : List Nat) : List JournalLine := linesFrom 0 [] bytes

def lineBytes (entry : RuntimeJournalEntry) : List Nat := utf8 (entry.toJson.stringify ++ ['\n'])

/-- `appendFileSync` appends all bytes, or throws after some of them. -/
inductive Persist
  | done
  | fails (bytes : Nat) (error : JsError)

def persistEntry (file : List Nat) (outcome : Persist) (entry : RuntimeJournalEntry) :
    Except JournalError Unit × List Nat :=
  match outcome with
  | .done => (.ok (), file ++ lineBytes entry)
  | .fails bytes error => (.error (.thrown error), file ++ (lineBytes entry).take bytes)

/-! ## The journal -/

structure JournalEventIndex where
  cursor : Nat
  eventId : String
  requestDigest : String
deriving DecidableEq

/-- An instance, with the bytes of the file at its path. -/
structure FileJournal where
  eventCursors : OrderedMap String JournalEventIndex
  nextCursorValue : Nat
  file : List Nat

/-- The key of an event in `eventCursors`. -/
def eventKey (tenantId : String) (event : Json) : String :=
  tenantId ++ "\u0000" ++ textField "idempotencyKey" event

def eventIndex (cursor : Nat) (event : Json) : JournalEventIndex :=
  { cursor := cursor
    eventId := textField "eventId" event
    requestDigest := textField "requestDigest" event }

namespace FileJournal

/-- Take the next cursor for `entry` and write it. -/
def writeEntry (j : FileJournal) (outcome : Persist) (entry : RuntimeJournalEntry)
    (eventCursors : OrderedMap String JournalEventIndex) : Except JournalError Nat × FileJournal :=
  let (result, file) := persistEntry j.file outcome entry
  (result.map (fun _ => entry.cursor),
    { eventCursors := eventCursors, nextCursorValue := j.nextCursorValue + 1, file := file })

def appendEvent (dateParses : String → Bool) (j : FileJournal) (outcome : Persist) (event : Json) :
    Except JournalError Nat × FileJournal :=
  match (clone event).bind (fun copy => (parseV2Event copy).mapError .invalid) with
  | .error e => (.error e, j)
  | .ok parsed =>
    let tenantId := textField "tenantId" parsed
    match j.eventCursors.get? (eventKey tenantId parsed) with
    | some previous =>
      if previous.requestDigest ≠ textField "requestDigest" parsed
          ∨ previous.eventId ≠ textField "eventId" parsed then
        (.error (.error ("Conflicting journal event: " ++ textField "idempotencyKey" parsed)), j)
      else (.ok previous.cursor, j)
    | none =>
      match checkedEntry dateParses
        (RuntimeJournalEntry.event j.nextCursorValue tenantId parsed).toJson with
      | .error e => (.error e, j)
      | .ok entry =>
        j.writeEntry outcome entry
          (j.eventCursors.set (eventKey tenantId parsed) (eventIndex entry.cursor parsed))

def appendDecision (dateParses : String → Bool) (j : FileJournal) (outcome : Persist)
    (tenantId : String) (decision : Json) (occurredAt : String) :
    Except JournalError Nat × FileJournal :=
  match (do
    let _ ← assertNonEmpty (some (.string tenantId)) "tenantId"
    let _ ← assertTimestamp dateParses (some (.string occurredAt)) "occurredAt"
    checkedEntry dateParses
      (RuntimeJournalEntry.decision j.nextCursorValue tenantId occurredAt decision).toJson) with
  | .error e => (.error e, j)
  | .ok entry => j.writeEntry outcome entry j.eventCursors

/-! ### Reading -/

def readEntries (dateParses : String → Bool) (cursor : Nat) (tenantId : Option String) :
    Option Nat → List JournalLine → Except JournalError (List RuntimeJournalEntry)
  | _, [] => .ok []
  | maxEntries, item :: items =>
    if item.line = [] then readEntries dateParses cursor tenantId maxEntries items
    else do
      let value ← parseText item.line
      let entry ← checkedEntry dateParses value
      if entry.selected cursor tenantId = false then
        readEntries dateParses cursor tenantId maxEntries items
      else
        match maxEntries with
        | none => return entry :: (← readEntries dateParses cursor tenantId none items)
        | some n =>
          if n ≤ 1 then return [entry]
          else return entry :: (← readEntries dateParses cursor tenantId (some (n - 1)) items)

/-! ### Opening -/

/-- The state of the loop of `load`. -/
structure Loading where
  eventCursors : OrderedMap String JournalEventIndex := ∅
  nextCursorValue : Nat := 1
  validBytes : Nat := 0
  needsTrailingNewline : Bool := false
  truncateBytes : Option Nat := none

/-- The `try` block of `load`. -/
def loadLine (dateParses : String → Bool) (s : Loading) (item : JournalLine) :
    Except JournalError Loading := do
  let value ← parseText item.line
  let entry ← checkedEntry dateParses value
  if entry.cursor ≠ s.nextCursorValue then throw (.error "journal cursors must be contiguous")
  return { s with
    eventCursors :=
      match entry with
      | .event cursor tenantId event =>
        s.eventCursors.set (eventKey tenantId event) (eventIndex cursor event)
      | .decision .. => s.eventCursors
    nextCursorValue := s.nextCursorValue + 1
    validBytes := item.stop
    needsTrailingNewline := !item.terminated }

def loadLines (dateParses : String → Bool) : Loading → List JournalLine → Except JournalError Loading
  | s, [] => .ok s
  | s, item :: items =>
    if item.line = [] then loadLines dateParses { s with validBytes := item.stop } items
    else
      match loadLine dateParses s item with
      | .ok s' => loadLines dateParses s' items
      | .error e =>
        if item.terminated then .error e else .ok { s with truncateBytes := some s.validBytes }

/-- `new FileJournal(path)`, with the bytes of the file at the path, if there is one. -/
def openAt (dateParses : String → Bool) : Option (List Nat) → Except JournalError FileJournal
  | none => .ok { eventCursors := ∅, nextCursorValue := 1, file := [] }
  | some bytes => do
    let s ← loadLines dateParses {} (journalLines bytes)
    let file :=
      match s.truncateBytes with
      | some n => bytes.take n
      | none => if s.needsTrailingNewline then bytes ++ [0x0A] else bytes
    return { eventCursors := s.eventCursors, nextCursorValue := s.nextCursorValue, file := file }

end FileJournal

/-- `InMemoryJournal`, which keeps its entries. -/
structure InMemoryJournal where
  entries : List RuntimeJournalEntry := []
  eventCursors : OrderedMap String JournalEventIndex := ∅
  nextCursorValue : Nat := 1

namespace InMemoryJournal

def retainEntry (j : InMemoryJournal) (entry : RuntimeJournalEntry)
    (eventCursors : OrderedMap String JournalEventIndex) : Except JournalError Nat × InMemoryJournal :=
  (.ok entry.cursor,
    { entries := j.entries ++ [entry]
      eventCursors := eventCursors
      nextCursorValue := j.nextCursorValue + 1 })

def appendEvent (dateParses : String → Bool) (j : InMemoryJournal) (event : Json) :
    Except JournalError Nat × InMemoryJournal :=
  match (clone event).bind (fun copy => (parseV2Event copy).mapError .invalid) with
  | .error e => (.error e, j)
  | .ok parsed =>
    let tenantId := textField "tenantId" parsed
    match j.eventCursors.get? (eventKey tenantId parsed) with
    | some previous =>
      if previous.requestDigest ≠ textField "requestDigest" parsed
          ∨ previous.eventId ≠ textField "eventId" parsed then
        (.error (.error ("Conflicting journal event: " ++ textField "idempotencyKey" parsed)), j)
      else (.ok previous.cursor, j)
    | none =>
      match checkedEntry dateParses
        (RuntimeJournalEntry.event j.nextCursorValue tenantId parsed).toJson with
      | .error e => (.error e, j)
      | .ok entry =>
        j.retainEntry entry
          (j.eventCursors.set (eventKey tenantId parsed) (eventIndex entry.cursor parsed))

def appendDecision (dateParses : String → Bool) (j : InMemoryJournal) (tenantId : String)
    (decision : Json) (occurredAt : String) : Except JournalError Nat × InMemoryJournal :=
  match (do
    let _ ← assertNonEmpty (some (.string tenantId)) "tenantId"
    let _ ← assertTimestamp dateParses (some (.string occurredAt)) "occurredAt"
    checkedEntry dateParses
      (RuntimeJournalEntry.decision j.nextCursorValue tenantId occurredAt decision).toJson) with
  | .error e => (.error e, j)
  | .ok entry => j.retainEntry entry j.eventCursors

def readEntries (j : InMemoryJournal) (cursor : Nat) (tenantId : Option String)
    (maxEntries : Option Nat) : List RuntimeJournalEntry :=
  let filtered := j.entries.filter (fun entry => entry.selected cursor tenantId)
  match maxEntries with
  | none => filtered
  | some n => filtered.take n

end InMemoryJournal

/-- The entries after a cursor that an implementation reads. -/
abbrev Reader : Type :=
  Nat → Option String → Option Nat → Except JournalError (List RuntimeJournalEntry)

def FileJournal.reader (dateParses : String → Bool) (j : FileJournal) : Reader :=
  fun cursor tenantId maxEntries =>
    FileJournal.readEntries dateParses cursor tenantId maxEntries (journalLines j.file)

def InMemoryJournal.reader (j : InMemoryJournal) : Reader :=
  fun cursor tenantId maxEntries => .ok (j.readEntries cursor tenantId maxEntries)

structure RuntimeJournalReadOptions where
  tenantId : Option String := none
  limit : Option ℚ := none

/-- `assertCursor(cursor)`, of a number. -/
def checkedCursor (cursor : ℚ) : Except JournalError Nat :=
  assertCursor (some (.number cursor)) "cursor"

def readOptions (options : RuntimeJournalReadOptions) :
    Except JournalError (Option String × Option Nat) := do
  let tenantId ← options.tenantId.mapM (fun t => assertNonEmpty (some (.string t)) "tenantId")
  match options.limit with
  | none => return (tenantId, none)
  | some limit =>
    if limit.den = 1 ∧ isSafeInteger limit.num = true ∧ 1 ≤ limit.num then
      return (tenantId, some limit.num.toNat)
    else throw (.rangeError "journal limit must be a positive safe integer")

def Reader.readFrom (read : Reader) (cursor : ℚ) (options : RuntimeJournalReadOptions) :
    Except JournalError (List Json) := do
  let cursor ← checkedCursor cursor
  let (tenantId, limit) ← readOptions options
  let entries ← read cursor tenantId limit
  entries.mapM (fun entry => clone entry.toJson)

structure RuntimeJournalPage where
  entries : List Json
  nextCursor : Nat
  hasMore : Bool

def Reader.readPage (read : Reader) (cursor : ℚ) (options : RuntimeJournalReadOptions) :
    Except JournalError RuntimeJournalPage := do
  let cursor ← checkedCursor cursor
  if options.limit.isNone then throw (.typeError "journal page limit is required")
  let (tenantId, checked) ← readOptions options
  let limit := checked.getD 0
  let scanLimit := if (limit : Int) = maxSafeInteger then limit else limit + 1
  let selected ← read cursor tenantId (some scanLimit)
  let hasMore := decide (limit < selected.length)
  let entries := if hasMore then selected.take limit else selected
  let copies ← entries.mapM (fun entry => clone entry.toJson)
  return {
    entries := copies
    nextCursor := (entries.getLast?.map RuntimeJournalEntry.cursor).getD cursor
    hasMore := hasMore }

/-- A value that `JSON.stringify` writes and `JSON.parse` reads back. -/
abbrev Document : Type := { value : Json // value.WellFormed }

inductive JournalCall
  | appendEvent (event : Document)
  | appendDecision (tenantId : String) (decision : Document) (occurredAt : String)

def FileJournal.append (dateParses : String → Bool) (j : FileJournal) (outcome : Persist) :
    JournalCall → Except JournalError Nat × FileJournal
  | .appendEvent event => j.appendEvent dateParses outcome event.1
  | .appendDecision tenantId decision occurredAt =>
    j.appendDecision dateParses outcome tenantId decision.1 occurredAt

def InMemoryJournal.append (dateParses : String → Bool) (j : InMemoryJournal) :
    JournalCall → Except JournalError Nat × InMemoryJournal
  | .appendEvent event => j.appendEvent dateParses event.1
  | .appendDecision tenantId decision occurredAt =>
    j.appendDecision dateParses tenantId decision.1 occurredAt

end Premise.RuntimeCore
