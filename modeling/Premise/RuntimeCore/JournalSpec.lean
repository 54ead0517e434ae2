import Premise.Control.System
import Premise.RuntimeCore.Journal

/-!
# What the journals promise

A file journal that is appended to and opened again, with the entries whose append has returned; the same
calls on a journal in memory.
-/

namespace Premise.RuntimeCore

open Control Js Protocol

def JournalCall.entry (cursor : Nat) : JournalCall → RuntimeJournalEntry
  | .appendEvent event => .event cursor (textField "tenantId" event.1) event.1
  | .appendDecision tenantId decision occurredAt => .decision cursor tenantId occurredAt decision.1

/-- A file journal, the entries whose append has returned, and those whose write has failed since the
    journal was opened. -/
structure JournalRun where
  journal : FileJournal
  returned : List RuntimeJournalEntry
  lost : List RuntimeJournalEntry

inductive JournalStep
  | append (outcome : Persist) (call : JournalCall)
  | reopen

namespace JournalRun

variable (dateParses : String → Bool)

def append (s : JournalRun) (outcome : Persist) (call : JournalCall) : JournalRun :=
  let (result, journal) := s.journal.append dateParses outcome call
  match result with
  | .ok cursor =>
    { s with
      journal := journal
      returned :=
        if s.returned.any (fun entry => entry.cursor == cursor) then s.returned
        else s.returned ++ [call.entry cursor] }
  | .error _ =>
    { s with
      journal := journal
      lost :=
        if journal.nextCursorValue = s.journal.nextCursorValue then s.lost
        else s.lost ++ [call.entry s.journal.nextCursorValue] }

def system : System JournalRun JournalStep where
  init := fun s => FileJournal.openAt dateParses none = .ok s.journal ∧ s.returned = [] ∧ s.lost = []
  step := fun s i s' =>
    match i with
    | .append outcome call => s' = s.append dateParses outcome call
    | .reopen => ∃ journal, FileJournal.openAt dateParses (some s.journal.file) = .ok journal ∧
        s' = { s with journal := journal, lost := [] }

/-- Opened again, the file yields the entries whose append has returned, in order and without a gap. -/
def Intact (s : JournalRun) : Prop :=
  ∃ journal, FileJournal.openAt dateParses (some s.journal.file) = .ok journal ∧
    (journal.reader dateParses).readFrom 0 {} = .ok (s.returned.map RuntimeJournalEntry.toJson) ∧
    ∀ i entry, s.returned[i]? = some entry → entry.cursor = i + 1

/-! ### The condition -/

/-- The call is about an event that the journal has under its key. -/
def Known (journal : FileJournal) : JournalCall → Prop
  | .appendEvent event =>
    (journal.eventCursors.get? (eventKey (textField "tenantId" event.1) event.1)).isSome = true
  | .appendDecision _ _ _ => False

/-- The call writes an entry: it is not about a known event, and the entry passes the checks. -/
def Writes (journal : FileJournal) (call : JournalCall) : Prop :=
  ¬ Known journal call ∧
    ∃ entry, checkedEntry dateParses (call.entry journal.nextCursorValue).toJson = .ok entry

def Repeats (entry : RuntimeJournalEntry) : JournalCall → Prop
  | .appendEvent event =>
    match entry with
    | .event cursor tenantId value =>
      eventKey (textField "tenantId" event.1) event.1 = eventKey tenantId value ∧
        eventIndex cursor event.1 = eventIndex cursor value
    | .decision _ _ _ _ => False
  | .appendDecision _ _ _ => False

def textBytes (entry : RuntimeJournalEntry) : List Nat := utf8 entry.toJson.stringify

/-- A write that fails leaves out a part of the entry's text; and until the journal is opened again,
    no write succeeds after it, and its event is not appended again. -/
def Tolerates (s : JournalRun) : JournalStep → Prop
  | .append outcome call =>
    (∀ entry ∈ s.lost, ¬ Repeats entry call) ∧
      (Writes dateParses s.journal call →
        match outcome with
        | .done => s.lost = []
        | .fails bytes _ => bytes < (textBytes (call.entry s.journal.nextCursorValue)).length)
  | .reopen => True

end JournalRun

def JournalStep.Persists : JournalStep → Prop
  | .append (.fails _ _) _ => False
  | _ => True

/-- The offset at which the text of the entry with index `i` ends. -/
def textEnd (entries : List RuntimeJournalEntry) (i : Nat) : Nat :=
  ((entries.take (i + 1)).flatMap lineBytes).length - 1

/-- The journal has the entries, and goes on from them. -/
structure Recovers (dateParses : String → Bool) (journal : FileJournal)
    (entries : List RuntimeJournalEntry) : Prop where
  /-- The entries are read. -/
  reads : (journal.reader dateParses).readFrom 0 {} = .ok (entries.map RuntimeJournalEntry.toJson)
  /-- A call that returns is about the event of an entry, or takes the next cursor, and then the file,
      opened again, yields the entries and its own. -/
  continues : ∀ call cursor journal',
    journal.append dateParses .done call = (.ok cursor, journal') →
    (JournalRun.Known journal call → journal' = journal ∧
      ∃ entry ∈ entries, entry.cursor = cursor ∧ JournalRun.Repeats entry call) ∧
    (¬ JournalRun.Known journal call → cursor = entries.length + 1 ∧
      ∃ reopened, FileJournal.openAt dateParses (some journal'.file) = .ok reopened ∧
        (reopened.reader dateParses).readFrom 0 {} =
          .ok ((entries ++ [call.entry cursor]).map RuntimeJournalEntry.toJson))

/-- The calls on a new file journal whose writes succeed, and on a new journal in memory. -/
def appendAll (dateParses : String → Bool) :
    FileJournal × InMemoryJournal → List JournalCall → FileJournal × InMemoryJournal
  | journals, [] => journals
  | (file, memory), call :: calls =>
    appendAll dateParses
      ((file.append dateParses .done call).2, (memory.append dateParses call).2) calls

/-- The pages from a cursor on, as long as there are more. -/
inductive Pages (read : Reader) (options : RuntimeJournalReadOptions) :
    Nat → List RuntimeJournalPage → Prop
  | last {cursor : Nat} {page : RuntimeJournalPage} : read.readPage cursor options = .ok page →
      page.hasMore = false → Pages read options cursor [page]
  | more {cursor : Nat} {page : RuntimeJournalPage} {pages : List RuntimeJournalPage} :
      read.readPage cursor options = .ok page → page.hasMore = true →
      Pages read options page.nextCursor pages → Pages read options cursor (page :: pages)

end Premise.RuntimeCore
