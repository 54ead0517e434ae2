import Premise.RuntimeCore.Proofs.EntryProofs

/-!
# Proofs: opening and reading

The journal that is opened on the lines of entries, with a torn line or a line without its newline after
them, and what it reads.
-/

namespace Premise.RuntimeCore

open Collections Js Protocol FileJournal

variable {dateParses : String → Bool} {entry : RuntimeJournalEntry}
variable {entries before : List RuntimeJournalEntry}

/-- `eventCursors` with an entry. -/
def noteEntry (eventCursors : OrderedMap String JournalEventIndex) :
    RuntimeJournalEntry → OrderedMap String JournalEventIndex
  | .event cursor tenantId event =>
    eventCursors.set (eventKey tenantId event) (eventIndex cursor event)
  | .decision .. => eventCursors

/-- `eventCursors` of entries. -/
def indexOf (entries : List RuntimeJournalEntry) : OrderedMap String JournalEventIndex :=
  entries.foldl noteEntry ∅

theorem indexOf_append (entries : List RuntimeJournalEntry) (entry : RuntimeJournalEntry) :
    indexOf (entries ++ [entry]) = noteEntry (indexOf entries) entry := by
  unfold indexOf
  rw [List.foldl_append]
  rfl

def journalOf (entries : List RuntimeJournalEntry) : FileJournal :=
  { eventCursors := indexOf entries
    nextCursorValue := entries.length + 1
    file := fileOf entries }

/-- The entries have the cursors from 1 on, and pass their own checks. -/
structure Recorded (dateParses : String → Bool) (entries : List RuntimeJournalEntry) : Prop where
  cursors : ∀ i entry, entries[i]? = some entry → entry.cursor = i + 1
  sound : ∀ entry ∈ entries, entry.Sound dateParses

theorem Recorded.nil : Recorded dateParses [] := ⟨nofun, nofun⟩

theorem Recorded.of_append (h : Recorded dateParses (before ++ entries)) :
    Recorded dateParses before where
  cursors := by
    intro i entry hget
    refine h.cursors i entry ?_
    rw [List.getElem?_append_left (List.getElem?_eq_some_iff.mp hget).1, hget]
  sound := fun entry hmem => h.sound entry (List.mem_append_left _ hmem)

theorem Recorded.take (h : Recorded dateParses entries) (n : Nat) : Recorded dateParses (entries.take n) := by
  rw [← List.take_append_drop n entries] at h
  exact h.of_append

theorem Recorded.concat (h : Recorded dateParses entries) (hsound : entry.Sound dateParses)
    (hcursor : entry.cursor = entries.length + 1) : Recorded dateParses (entries ++ [entry]) where
  cursors := by
    intro i e hget
    rcases lt_trichotomy i entries.length with hlt | rfl | hgt
    · rw [List.getElem?_append_left hlt] at hget
      exact h.cursors i e hget
    · rw [List.getElem?_concat_length] at hget
      cases hget
      exact hcursor
    · rw [List.getElem?_eq_none (by simp; omega)] at hget
      cases hget
  sound := by
    intro e hmem
    rcases List.mem_append.mp hmem with hmem | hmem
    · exact h.sound e hmem
    · rw [List.mem_singleton.mp hmem]
      exact hsound

theorem Recorded.next_cursor (h : Recorded dateParses (before ++ entry :: entries)) : entry.cursor = before.length + 1 := by
  refine h.cursors before.length entry ?_
  rw [List.getElem?_append_right le_rfl, Nat.sub_self]
  rfl

theorem Recorded.next_sound (h : Recorded dateParses (before ++ entry :: entries)) :
    entry.Sound dateParses := h.sound entry (List.mem_append_right _ List.mem_cons_self)

/-- The state of `load` after the lines of entries. -/
def loaded (entries : List RuntimeJournalEntry) : Loading :=
  { eventCursors := indexOf entries
    nextCursorValue := entries.length + 1
    validBytes := (fileOf entries).length }

theorem loadLine_entry (h : entry.Sound dateParses) {s : Loading}
    (hcursor : entry.cursor = s.nextCursorValue) (terminated : Bool) (stop : Nat) :
    loadLine dateParses s ⟨entry.toJson.stringify, terminated, stop⟩ = .ok { s with
        eventCursors := noteEntry s.eventCursors entry
        nextCursorValue := s.nextCursorValue + 1
        validBytes := stop
        needsTrailingNewline := !terminated } := by
  unfold loadLine
  rw [parseText_stringify h.wellFormed]
  show (checkedEntry dateParses entry.toJson >>= _) = _
  rw [h.checked]
  dsimp only [bind, Except.bind]
  rw [if_neg (not_not.mpr hcursor)]
  cases entry <;> rfl

theorem stringify_entry_ne_nil (entry : RuntimeJournalEntry) : entry.toJson.stringify ≠ [] := by
  obtain ⟨more, heq⟩ := stringify_entry entry
  rw [heq]
  exact List.cons_ne_nil _ _

theorem loadLines_entries (h : Recorded dateParses (before ++ entries)) (rest : List Nat) :
    loadLines dateParses (loaded before) (linesFrom (fileOf before).length [] (fileOf entries ++ rest)) =
      loadLines dateParses (loaded (before ++ entries))
        (linesFrom (fileOf (before ++ entries)).length [] rest) := by
  induction entries generalizing before with
  | nil => rw [List.append_nil, fileOf_nil, List.nil_append]
  | cons entry entries ih =>
    have hlength : (fileOf before).length + (lineBytes entry).length = (fileOf (before ++ [entry])).length := by
      rw [fileOf_append, fileOf_singleton, List.length_append]
    have hsplit : before ++ entry :: entries = before ++ [entry] ++ entries :=
      (List.append_assoc before [entry] entries).symm
    have hfile : fileOf (entry :: entries) ++ rest = lineBytes entry ++ (fileOf entries ++ rest) :=
      List.append_assoc _ _ _
    rw [hfile, linesFrom_entry, loadLines, if_neg (stringify_entry_ne_nil entry), loadLine_entry h.next_sound h.next_cursor]
    dsimp only
    rw [hsplit] at h ⊢
    rw [hlength, ← ih h]
    congr 1
    unfold loaded
    rw [indexOf_append, List.length_append]
    rfl

theorem loadLines_file (h : Recorded dateParses entries) (rest : List Nat) :
    loadLines dateParses {} (journalLines (fileOf entries ++ rest)) =
      loadLines dateParses (loaded entries) (linesFrom (fileOf entries).length [] rest) :=
  @loadLines_entries dateParses entries [] h rest

theorem openAt_torn (h : Recorded dateParses entries) {tail : List Nat} (hline : 0x0A ∉ tail)
    (htorn : tail = [] ∨ (decode tail ≠ [] ∧ parseText (decode tail) = .error .syntaxError)) :
    openAt dateParses (some (fileOf entries ++ tail)) = .ok (journalOf entries) := by
  unfold openAt
  dsimp only
  rw [loadLines_file h]
  rcases htorn with rfl | ⟨hne, hparse⟩
  · rw [List.append_nil]
    rfl
  · have hnil : tail ≠ [] := by
      rintro rfl
      exact hne rfl
    have hload : ∀ line, line = (⟨decode tail, false, (fileOf entries).length + tail.length⟩ : JournalLine) →
        loadLine dateParses (loaded entries) line = .error .syntaxError := by
      rintro line rfl
      unfold loadLine
      rw [hparse]
      rfl
    rw [linesFrom_tail _ _ hline (by rwa [List.nil_append]), List.nil_append, loadLines, if_neg hne, hload _ rfl]
    dsimp only [bind, Except.bind, pure, Except.pure]
    rw [if_neg (by decide)]
    refine congrArg Except.ok ?_
    have hcut : (fileOf entries ++ tail).take (fileOf entries).length = fileOf entries :=
      List.take_left' rfl
    exact congrArg (FileJournal.mk (indexOf entries) (entries.length + 1)) hcut

theorem openAt_unterminated (h : Recorded dateParses (entries ++ [entry])) :
    openAt dateParses (some (fileOf entries ++ JournalRun.textBytes entry)) =
      .ok (journalOf (entries ++ [entry])) := by
  unfold openAt
  dsimp only
  rw [loadLines_file h.of_append, linesFrom_tail _ _ (newline_notMem_textBytes entry)
    (textBytes_ne_nil entry), List.nil_append, decode_textBytes, loadLines,
    if_neg (stringify_entry_ne_nil entry), loadLine_entry h.next_sound h.next_cursor]
  refine congrArg Except.ok ?_
  unfold journalOf
  rw [indexOf_append, List.length_append, fileOf_append, fileOf_singleton, lineBytes_eq, ← List.append_assoc]
  rfl

theorem openAt_file (h : Recorded dateParses entries) :
    openAt dateParses (some (fileOf entries)) = .ok (journalOf entries) := by
  have hopen := @openAt_torn dateParses entries h [] nofun (Or.inl rfl)
  rwa [List.append_nil] at hopen

def atMost {α : Type} (maxEntries : Option Nat) (l : List α) : List α :=
  match maxEntries with
  | none => l
  | some n => l.take n

theorem readEntries_entries (h : ∀ entry ∈ entries, entry.Sound dateParses) (offset cursor : Nat)
    (tenantId : Option String) {maxEntries : Option Nat} (hmax : maxEntries ≠ some 0) :
    readEntries dateParses cursor tenantId maxEntries (linesFrom offset [] (fileOf entries)) =
      .ok (atMost maxEntries (entries.filter (fun entry => entry.selected cursor tenantId))) := by
  induction entries generalizing offset maxEntries with
  | nil =>
    cases maxEntries with
    | none => rfl
    | some n => exact congrArg Except.ok List.take_nil.symm
  | cons entry entries ih =>
    have hrest := fun entry hmem => h entry (List.mem_cons_of_mem _ hmem)
    have hsound := h entry List.mem_cons_self
    have hfile : fileOf (entry :: entries) = lineBytes entry ++ fileOf entries := rfl
    rw [hfile, linesFrom_entry, readEntries, if_neg (stringify_entry_ne_nil entry)]
    rw [parseText_stringify hsound.wellFormed]
    show (checkedEntry dateParses entry.toJson >>= _) = _
    rw [hsound.checked]
    dsimp only [bind, Except.bind]
    by_cases hselected : entry.selected cursor tenantId = true
    · rw [if_neg (by rw [hselected]; decide), List.filter_cons, if_pos hselected]
      cases maxEntries with
      | none =>
        rw [ih hrest _ (by simp)]
        rfl
      | some n =>
        dsimp only
        split_ifs with hn
        · obtain rfl : n = 1 := by
            have hne : n ≠ 0 := fun hzero => hmax (by rw [hzero])
            omega
          rfl
        · rw [ih hrest _ (by simp; omega)]
          obtain ⟨m, rfl⟩ : ∃ m, n = m + 1 := ⟨n - 1, by omega⟩
          rfl
    · rw [Bool.not_eq_true] at hselected
      rw [if_pos hselected, List.filter_cons, if_neg (by rw [hselected]; decide), ih hrest _ hmax]

theorem clones_entries (h : ∀ entry ∈ entries, entry.Sound dateParses) : entries.mapM (fun entry => clone entry.toJson)
      = Except.ok (entries.map RuntimeJournalEntry.toJson) := by
  induction entries with
  | nil => rfl
  | cons entry entries ih =>
    rw [List.mapM_cons, clone_wellFormed (h entry List.mem_cons_self).wellFormed,
      ih (fun e hmem => h e (List.mem_cons_of_mem _ hmem))]
    rfl

theorem readFrom_zero (h : Recorded dateParses entries) : ((journalOf entries).reader dateParses).readFrom 0 {}
      = .ok (entries.map RuntimeJournalEntry.toJson) := by
  have hall : entries.filter (fun entry => entry.selected 0 none) = entries := by
    refine List.filter_eq_self.mpr fun entry hmem => ?_
    obtain ⟨i, hget⟩ := List.mem_iff_getElem?.mp hmem
    have hcursor := h.cursors i entry hget
    unfold RuntimeJournalEntry.selected
    rw [hcursor]
    simp
  have hread : (journalOf entries).reader dateParses 0 none none = .ok entries := by
    have heq := @readEntries_entries dateParses entries h.sound 0 0 none none (by simp)
    rw [hall] at heq
    exact heq
  have hcursor : checkedCursor 0 = .ok 0 := by decide +kernel
  unfold Reader.readFrom
  rw [hcursor]
  show ((journalOf entries).reader dateParses 0 none none >>= _) = _
  rw [hread]
  exact clones_entries h.sound

/-!
# Proofs: appending to a file journal

What an append does; the runs in which writes fail and the journal is opened again; the files that are cut
at any byte.
-/

open Control JournalRun

variable {dateParses : String → Bool} {entry : RuntimeJournalEntry}
variable {entries : List RuntimeJournalEntry}

/-! ## One append -/

/-- What the checks of a call come to, for either journal. -/
inductive Outcome (dateParses : String → Bool) (eventCursors : OrderedMap String JournalEventIndex)
    (next : Nat) (call : JournalCall) : Prop
  /-- The call throws and changes nothing. -/
  | refused (err : JournalError) :
      (∀ (j : FileJournal) outcome, j.eventCursors = eventCursors → j.nextCursorValue = next →
        j.append dateParses outcome call = (.error err, j)) →
      (∀ j : InMemoryJournal, j.eventCursors = eventCursors → j.nextCursorValue = next →
        j.append dateParses call = (.error err, j)) → Outcome dateParses eventCursors next call
  /-- The event is known. -/
  | known (event : Document) (previous : JournalEventIndex) : call = .appendEvent event →
      eventCursors.get? (eventKey (textField "tenantId" event.1) event.1) = some previous →
      eventIndex previous.cursor event.1 = previous →
      (∀ (j : FileJournal) outcome, j.eventCursors = eventCursors → j.nextCursorValue = next →
        j.append dateParses outcome call = (.ok previous.cursor, j)) →
      (∀ j : InMemoryJournal, j.eventCursors = eventCursors → j.nextCursorValue = next →
        j.append dateParses call = (.ok previous.cursor, j)) →
      Outcome dateParses eventCursors next call
  /-- The entry is new and passes the checks. -/
  | written : (∀ j : FileJournal, j.eventCursors = eventCursors → j.nextCursorValue = next →
        Writes dateParses j call) →
      (∀ (j : FileJournal) outcome, j.eventCursors = eventCursors → j.nextCursorValue = next →
        j.append dateParses outcome call
          = j.writeEntry outcome (call.entry next) (noteEntry eventCursors (call.entry next))) →
      (∀ j : InMemoryJournal, j.eventCursors = eventCursors → j.nextCursorValue = next →
        j.append dateParses call
          = j.retainEntry (call.entry next) (noteEntry eventCursors (call.entry next))) →
      Outcome dateParses eventCursors next call

theorem append_outcome (dateParses : String → Bool)
    (eventCursors : OrderedMap String JournalEventIndex) (next : Nat) (call : JournalCall) :
    Outcome dateParses eventCursors next call := by
  cases call with
  | appendEvent event =>
    have hclone : ∀ f : Json → Except JournalError Json, (clone event.1).bind f = f event.1 := by
      intro f
      rw [clone_wellFormed event.2]
      rfl
    by_cases hvalid : validateV2Event event.1 = []
    · have hparsed : (parseV2Event event.1).mapError JournalError.invalid = .ok event.1 := by
        rw [parseV2Event_valid hvalid]
        rfl
      cases hget : eventCursors.get? (eventKey (textField "tenantId" event.1) event.1) with
      | some previous =>
        by_cases hconflict : previous.requestDigest ≠ textField "requestDigest" event.1
            ∨ previous.eventId ≠ textField "eventId" event.1
        · refine .refused
            (.error ("Conflicting journal event: " ++ textField "idempotencyKey" event.1)) ?_ ?_
          · rintro j outcome rfl rfl
            simp only [FileJournal.append, FileJournal.appendEvent, hclone, hparsed, hget]
            rw [if_pos hconflict]
          · rintro j rfl rfl
            simp only [InMemoryJournal.append, InMemoryJournal.appendEvent, hclone, hparsed, hget]
            rw [if_pos hconflict]
        · rw [not_or, not_not, not_not] at hconflict
          refine .known event previous rfl hget ?_ ?_ ?_
          · unfold eventIndex
            rw [← hconflict.1, ← hconflict.2]
          · rintro j outcome rfl rfl
            simp only [FileJournal.append, FileJournal.appendEvent, hclone, hparsed, hget]
            rw [if_neg (by rw [not_or, not_not, not_not]; exact hconflict)]
          · rintro j rfl rfl
            simp only [InMemoryJournal.append, InMemoryJournal.appendEvent, hclone, hparsed, hget]
            rw [if_neg (by rw [not_or, not_not, not_not]; exact hconflict)]
      | none =>
        cases hchecked : checkedEntry dateParses
            (RuntimeJournalEntry.event next (textField "tenantId" event.1) event.1).toJson with
        | error err =>
          refine .refused err ?_ ?_
          · rintro j outcome rfl rfl
            simp only [FileJournal.append, FileJournal.appendEvent, hclone, hparsed, hget, hchecked]
          · rintro j rfl rfl
            simp only [InMemoryJournal.append, InMemoryJournal.appendEvent, hclone, hparsed, hget, hchecked]
        | ok checked =>
          obtain rfl := @checkedEntry_entry dateParses _ (.appendEvent event) next hchecked
          refine .written ?_ ?_ ?_
          · rintro j rfl rfl
            refine ⟨?_, _, hchecked⟩
            simp only [Known]
            rw [hget]
            exact Bool.false_ne_true
          · rintro j outcome rfl rfl
            simp only [FileJournal.append, FileJournal.appendEvent, hclone, hparsed, hget, hchecked]
            rfl
          · rintro j rfl rfl
            simp only [InMemoryJournal.append, InMemoryJournal.appendEvent, hclone, hparsed, hget, hchecked]
            rfl
    · have hparsed : (parseV2Event event.1).mapError JournalError.invalid
          = .error (.invalid (validateV2Event event.1)) := by
        unfold parseV2Event
        rw [if_neg hvalid]
        rfl
      refine .refused (.invalid (validateV2Event event.1)) ?_ ?_
      · rintro j outcome rfl rfl
        simp only [FileJournal.append, FileJournal.appendEvent, hclone, hparsed]
      · rintro j rfl rfl
        simp only [InMemoryJournal.append, InMemoryJournal.appendEvent, hclone, hparsed]
  | appendDecision tenantId decision occurredAt =>
    cases hchecks : (do
        let _ ← assertNonEmpty (some (.string tenantId)) "tenantId"
        let _ ← assertTimestamp dateParses (some (.string occurredAt)) "occurredAt"
        checkedEntry dateParses (RuntimeJournalEntry.decision next tenantId occurredAt decision.1).toJson :
        Except JournalError RuntimeJournalEntry) with
    | error err =>
      refine .refused err ?_ ?_
      · rintro j outcome rfl rfl
        simp only [FileJournal.append, FileJournal.appendDecision, hchecks]
      · rintro j rfl rfl
        simp only [InMemoryJournal.append, InMemoryJournal.appendDecision, hchecks]
    | ok checked =>
      obtain ⟨_, -, hrest⟩ := of_bind_ok hchecks
      obtain ⟨_, -, hchecked⟩ := of_bind_ok hrest
      obtain rfl := @checkedEntry_entry dateParses _ (.appendDecision tenantId decision occurredAt) next hchecked
      refine .written ?_ ?_ ?_
      · rintro j rfl rfl
        exact ⟨id, _, hchecked⟩
      · rintro j outcome rfl rfl
        simp only [FileJournal.append, FileJournal.appendDecision, hchecks]
        rfl
      · rintro j rfl rfl
        simp only [InMemoryJournal.append, InMemoryJournal.appendDecision, hchecks]
        rfl

theorem Outcome.sound {j : FileJournal} {call : JournalCall} (h : Writes dateParses j call) :
    (call.entry j.nextCursorValue).Sound dateParses := by
  obtain ⟨-, checked, hchecked⟩ := h
  exact sound_entry hchecked

theorem cursor_entry (call : JournalCall) (n : Nat) : (call.entry n).cursor = n := by
  cases call <;> rfl

theorem mem_of_indexOf {key : String} {index : JournalEventIndex}
    (h : (indexOf entries).get? key = some index) :
    ∃ n tenantId value, RuntimeJournalEntry.event n tenantId value ∈ entries ∧
      eventKey tenantId value = key ∧ eventIndex n value = index := by
  induction entries using List.reverseRecOn with
  | nil => cases h
  | append_singleton entries entry ih =>
    rw [indexOf_append] at h
    have hold : (indexOf entries).get? key = some index → ∃ n tenantId value,
        RuntimeJournalEntry.event n tenantId value ∈ entries ++ [entry] ∧
          eventKey tenantId value = key ∧ eventIndex n value = index := by
      intro hget
      obtain ⟨n, tenantId, value, hmem, hkey, hindex⟩ := ih hget
      exact ⟨n, tenantId, value, List.mem_append_left _ hmem, hkey, hindex⟩
    cases entry with
    | event n tenantId value =>
      have hget : ((indexOf entries).set (eventKey tenantId value) (eventIndex n value)).get? key = some index := h
      rw [OrderedMap.get?_set] at hget
      split_ifs at hget with hkey
      · exact ⟨n, tenantId, value, List.mem_append_right _ List.mem_cons_self, hkey.symm, Option.some.inj hget⟩
      · exact hold hget
    | decision n tenantId occurredAt value => exact hold h

end Premise.RuntimeCore
