import Premise.RuntimeCore.Proofs.AppendProofs

/-!
# Proofs: the runs of a file journal

As long as writes that fail are followed by opening the journal again, the file yields what the calls have
returned. A file that is cut at any byte yields the entries before the cut, and is gone on with.
-/

namespace Premise.RuntimeCore

open Collections Control Js Protocol FileJournal JournalRun

variable {dateParses : String → Bool} {entry : RuntimeJournalEntry}
variable {entries : List RuntimeJournalEntry}

/-! ## Failed writes -/

/-- The file holds the entries that were returned and what is left of those that were lost. -/
structure Held (dateParses : String → Bool) (s : JournalRun) : Prop where
  recorded : Recorded dateParses s.returned
  cursors : s.journal.eventCursors = indexOf (s.returned ++ s.lost)
  next : s.journal.nextCursorValue = s.returned.length + s.lost.length + 1
  file : ∃ pieces, s.journal.file = fileOf s.returned ++ tornBytes pieces ∧
    (∀ p ∈ pieces, p.2 < (textBytes p.1).length) ∧ (s.lost = [] → pieces = [])

variable {s : JournalRun}

theorem Held.journal_eq (h : Held dateParses s) (hlost : s.lost = []) : s.journal = journalOf s.returned := by
  obtain ⟨pieces, hfile, -, hpieces⟩ := h.file
  have hcursors := h.cursors
  have hnext := h.next
  rw [hlost, List.append_nil] at hcursors
  rw [hlost, List.length_nil, Nat.add_zero] at hnext
  rw [hpieces hlost] at hfile
  show FileJournal.mk s.journal.eventCursors s.journal.nextCursorValue s.journal.file = _
  rw [hcursors, hnext, hfile]
  exact congrArg _ (List.append_nil _)

theorem Held.opened (h : Held dateParses s) : openAt dateParses (some s.journal.file) = .ok (journalOf s.returned) := by
  obtain ⟨pieces, hfile, hshort, -⟩ := h.file
  rw [hfile]
  exact openAt_torn h.recorded (newline_notMem_tornBytes pieces) (parse_tornBytes hshort)

theorem Held.intact (h : Held dateParses s) : s.Intact dateParses :=
  ⟨journalOf s.returned, h.opened, readFrom_zero h.recorded, h.recorded.cursors⟩

theorem take_lineBytes {k : Nat} (h : k < (textBytes entry).length) :
    (lineBytes entry).take k = (textBytes entry).take k := by
  rw [lineBytes_eq, List.take_append_of_le_length (by omega)]

theorem any_cursor {e : RuntimeJournalEntry} (h : e ∈ entries) :
    entries.any (fun entry => entry.cursor == e.cursor) = true :=
  List.any_eq_true.mpr ⟨e, h, beq_self_eq_true _⟩

theorem Recorded.any_next (h : Recorded dateParses entries) :
    entries.any (fun entry => entry.cursor == entries.length + 1) = false := by
  refine Bool.eq_false_iff.mpr fun hany => ?_
  obtain ⟨e, hmem, heq⟩ := List.any_eq_true.mp hany
  obtain ⟨i, hget⟩ := List.mem_iff_getElem?.mp hmem
  have hcursor := h.cursors i e hget
  have hlt := (List.getElem?_eq_some_iff.mp hget).1
  rw [beq_iff_eq, hcursor] at heq
  omega

theorem Held.append (h : Held dateParses s) (outcome : Persist) (call : JournalCall)
    (htolerates : Tolerates dateParses s (.append outcome call)) :
    Held dateParses (s.append dateParses outcome call) := by
  obtain ⟨hrepeats, hwrites⟩ := htolerates
  unfold JournalRun.append
  rcases append_outcome dateParses s.journal.eventCursors s.journal.nextCursorValue call with
    ⟨err, hfile, -⟩ | ⟨event, previous, rfl, hget, hindex, hfile, -⟩ | ⟨hwrite, hfile, -⟩
  · rw [hfile _ _ rfl rfl]
    dsimp only
    rw [if_pos rfl]
    exact h
  · rw [hfile _ _ rfl rfl]
    dsimp only
    rw [h.cursors] at hget
    obtain ⟨n, tenantId, value, hmem, hkey, hvalue⟩ := mem_of_indexOf hget
    have hcursor : n = previous.cursor := congrArg JournalEventIndex.cursor hvalue
    rcases List.mem_append.mp hmem with hreturned | hlost
    · have hany : s.returned.any (fun entry => entry.cursor == n) = true := any_cursor hreturned
      rw [hcursor] at hany
      rw [if_pos hany]
      exact h
    · refine absurd ⟨hkey.symm, ?_⟩ (hrepeats _ hlost)
      rw [hvalue, hcursor]
      exact hindex
  · have hsound := Outcome.sound (hwrite _ rfl rfl)
    obtain ⟨pieces, hbytes, hshort, hpieces⟩ := h.file
    rw [hfile _ _ rfl rfl]
    cases outcome with
    | done =>
      have hlost : s.lost = [] := hwrites (hwrite _ rfl rfl)
      have hnext := h.next
      rw [hlost, List.length_nil, Nat.add_zero] at hnext
      have hcursors := h.cursors
      rw [hlost, List.append_nil] at hcursors
      simp only [writeEntry, persistEntry, Except.map, cursor_entry]
      rw [hnext, h.recorded.any_next, if_neg Bool.false_ne_true]
      rw [hnext] at hsound
      refine ⟨h.recorded.concat hsound (cursor_entry _ _), ?_, ?_, [], ?_, nofun, fun _ => rfl⟩
      · dsimp only
        rw [hlost, List.append_nil, indexOf_append, hcursors]
      · dsimp only
        rw [hlost, List.length_append]
        rfl
      · dsimp only
        rw [hbytes, hpieces hlost, fileOf_append, fileOf_singleton, List.append_assoc, List.append_assoc]
        exact congrArg _ (List.append_nil _).symm
    | fails k error =>
      have hk := hwrites (hwrite _ rfl rfl)
      simp only [writeEntry, persistEntry, Except.map, Nat.succ_ne_self, if_false]
      refine ⟨h.recorded, ?_, ?_, pieces ++ [(call.entry s.journal.nextCursorValue, k)], ?_, ?_, ?_⟩
      · dsimp only
        rw [← List.append_assoc, indexOf_append, ← h.cursors]
      · dsimp only
        rw [h.next, List.length_append]
        rfl
      · dsimp only
        have htorn : tornBytes (pieces ++ [(call.entry s.journal.nextCursorValue, k)])
            = tornBytes pieces ++ (textBytes (call.entry s.journal.nextCursorValue)).take k := by
          unfold tornBytes
          rw [List.flatMap_append]
          exact congrArg _ (List.append_nil _)
        rw [hbytes, htorn, take_lineBytes hk, List.append_assoc]
      · intro p hp
        rcases List.mem_append.mp hp with hp | hp
        · exact hshort p hp
        · rw [List.mem_singleton.mp hp]
          exact hk
      · intro hnil
        exact absurd hnil (by simp)

theorem held_reachable
    (h : ((JournalRun.system dateParses).restrict (fun s i _ => s.Tolerates dateParses i)).Reachable s) :
    Held dateParses s := by
  refine h.invariant _ ?_ ?_
  · rintro s ⟨hopen, hreturned, hlost⟩
    obtain ⟨journal, returned, lost⟩ := s
    obtain rfl := (Except.ok.inj hopen).symm
    subst hreturned hlost
    exact ⟨Recorded.nil, rfl, rfl, [], rfl, nofun, fun _ => rfl⟩
  · rintro s i s' hheld ⟨hstep, htolerates⟩
    cases i with
    | append outcome call =>
      have heq : s' = s.append dateParses outcome call := hstep
      rw [heq]
      exact hheld.append outcome call htolerates
    | reopen =>
      obtain ⟨journal, hopen, heq⟩ := hstep
      rw [hheld.opened] at hopen
      cases hopen
      subst heq
      refine ⟨hheld.recorded, ?_, rfl, [], (List.append_nil _).symm, nofun, fun _ => rfl⟩
      rw [List.append_nil]
      rfl

/-- In every run that goes on from a failed write only by opening the journal again, the file yields what
    the calls have returned. -/
theorem failed_writes_are_recovered (dateParses : String → Bool) (s : JournalRun)
    (h : ((JournalRun.system dateParses).restrict (fun s i _ => s.Tolerates dateParses i)).Reachable s) :
    s.Intact dateParses :=
  (held_reachable h).intact

def allowed : JournalCall :=
  .appendDecision "t"
    ⟨.object [("memoryId", .string "m"), ("decision", .string "ALLOW")],
      by simp, trivial, trivial, trivial⟩ "2026-08-13T00:00:00Z"

def newRun : JournalRun :=
  { journal :=
      { eventCursors := ∅
        nextCursorValue := 1
        file := [] }
    returned := []
    lost := [] }

theorem failed_writes_are_recovered_torn : ((newRun.append isDateTime
    (.fails 40 (JsError.error "ENOSPC")) allowed).append isDateTime
      (.fails 0 (JsError.error "ENOSPC")) allowed).Intact isDateTime := by
  refine failed_writes_are_recovered isDateTime _ (System.Reachable.step (System.Reachable.step
    (System.Reachable.init ⟨rfl, rfl, rfl⟩) (i := .append _ _) ⟨rfl, fun _ h => absurd h List.not_mem_nil, fun _ => ?_⟩)
    (i := .append _ _) ⟨rfl, ?_, fun _ => ?_⟩)
  · decide +kernel
  · exact fun entry _ hrepeats => hrepeats
  · decide +kernel

/-- An append whose write fails at once, and one that succeeds: the journal cannot be opened. -/
theorem append_after_failed_write :
    ∃ s, (JournalRun.system isDateTime).Reachable s ∧ ¬ s.Intact isDateTime := by
  refine ⟨(newRun.append isDateTime (.fails 0 (JsError.error "ENOSPC")) allowed).append isDateTime
      .done allowed,
    System.Reachable.step (System.Reachable.step (System.Reachable.init ⟨rfl, rfl, rfl⟩)
      (i := .append _ _) rfl) (i := .append _ _) rfl, ?_⟩
  rintro ⟨journal, hopen, -⟩
  have hfails : (openAt isDateTime (some ((newRun.append isDateTime
      (.fails 0 (JsError.error "ENOSPC")) allowed).append isDateTime .done allowed).journal.file)).isOk
        = false := by decide +kernel
  rw [hopen] at hfails
  cases hfails

/-! ## Cut files -/

theorem persists_reachable (h : ((JournalRun.system dateParses).restrict (fun _ i _ => i.Persists)).Reachable s) :
    Held dateParses s ∧ s.lost = [] := by
  refine h.invariant (fun s => Held dateParses s ∧ s.lost = []) ?_ ?_
  · rintro s hinit
    exact ⟨held_reachable (System.Reachable.init hinit), hinit.2.2⟩
  · rintro s i s' ⟨hheld, hlost⟩ ⟨hstep, hpersists⟩
    cases i with
    | append outcome call =>
      cases outcome with
      | fails k error => exact hpersists.elim
      | done =>
        have heq : s' = s.append dateParses .done call := hstep
        rw [heq]
        refine ⟨hheld.append .done call ⟨?_, fun _ => hlost⟩, ?_⟩
        · rw [hlost]
          exact nofun
        unfold JournalRun.append
        rcases append_outcome dateParses s.journal.eventCursors s.journal.nextCursorValue call with
          ⟨err, hfile, -⟩ | ⟨event, previous, -, -, -, hfile, -⟩ | ⟨-, hfile, -⟩
        · rw [hfile _ _ rfl rfl]
          exact (if_pos rfl).trans hlost
        · rw [hfile _ _ rfl rfl]
          exact hlost
        · rw [hfile _ _ rfl rfl]
          exact hlost
    | reopen =>
      obtain ⟨journal, hopen, heq⟩ := hstep
      rw [hheld.opened] at hopen
      cases hopen
      subst heq
      refine ⟨⟨hheld.recorded, ?_, rfl, [], (List.append_nil _).symm, nofun, fun _ => rfl⟩, rfl⟩
      rw [List.append_nil]
      rfl

theorem textEnd_concat_last (entries : List RuntimeJournalEntry) (entry : RuntimeJournalEntry) :
    textEnd (entries ++ [entry]) entries.length = (fileOf entries).length + (textBytes entry).length := by
  unfold textEnd
  rw [List.take_of_length_le (by simp)]
  show (fileOf (entries ++ [entry])).length - 1 = _
  rw [fileOf_append, fileOf_singleton, List.length_append, length_lineBytes]
  omega

theorem textEnd_concat_lt {i : Nat} (h : i < entries.length) (entry : RuntimeJournalEntry) :
    textEnd (entries ++ [entry]) i = textEnd entries i := by
  unfold textEnd
  rw [List.take_append_of_le_length (by omega)]

theorem textEnd_lt {i : Nat} (h : i < entries.length) : textEnd entries i < (fileOf entries).length := by
  have hpos : 0 < (fileOf (entries.take (i + 1))).length := by
    rw [List.take_succ_eq_append_getElem h, fileOf_append, fileOf_singleton, List.length_append, length_lineBytes]
    omega
  have hle : (fileOf (entries.take (i + 1))).length ≤ (fileOf entries).length := by
    conv_rhs => rw [← List.take_append_drop (i + 1) entries, fileOf_append, List.length_append]
    omega
  have hend : textEnd entries i = (fileOf (entries.take (i + 1))).length - 1 := rfl
  omega

theorem openAt_cut (h : Recorded dateParses entries) (cut : Nat) :
    ∃ n ≤ entries.length, (∀ i < entries.length, i < n ↔ textEnd entries i ≤ cut) ∧
      openAt dateParses (some ((fileOf entries).take cut)) = .ok (journalOf (entries.take n)) := by
  induction entries using List.reverseRecOn with
  | nil => exact ⟨0, le_rfl, nofun, by rw [fileOf_nil, List.take_nil]; exact openAt_file Recorded.nil⟩
  | append_singleton entries entry ih =>
    have hlast := textEnd_concat_last entries entry
    have htotal : (fileOf (entries ++ [entry])).length = (fileOf entries).length + ((textBytes entry).length + 1) := by
      rw [fileOf_append, fileOf_singleton, List.length_append, length_lineBytes]
    have hearlier : ∀ i < entries.length, textEnd (entries ++ [entry]) i < (fileOf entries).length := by
      intro i hi
      rw [textEnd_concat_lt hi]
      exact textEnd_lt hi
    have hsplit : ∀ i < (entries ++ [entry]).length, i < entries.length ∨ i = entries.length := by
      intro i hi
      rw [List.length_append, List.length_singleton] at hi
      omega
    -- All entries are kept as soon as the text of the last one is.
    have hall : ∀ file, (∀ i < (entries ++ [entry]).length, textEnd (entries ++ [entry]) i ≤ cut) →
        openAt dateParses (some file) = .ok (journalOf (entries ++ [entry])) →
        ∃ n ≤ (entries ++ [entry]).length,
          (∀ i < (entries ++ [entry]).length, i < n ↔ textEnd (entries ++ [entry]) i ≤ cut) ∧
          openAt dateParses (some file) = .ok (journalOf ((entries ++ [entry]).take n)) := by
      intro file hends hopen
      refine ⟨_, le_rfl, fun i hi => ⟨fun _ => hends i hi, fun _ => hi⟩, ?_⟩
      rw [List.take_length]
      exact hopen
    have hends : (fileOf entries).length + (textBytes entry).length ≤ cut →
        ∀ i < (entries ++ [entry]).length, textEnd (entries ++ [entry]) i ≤ cut := by
      intro hcut i hi
      rcases hsplit i hi with hlt | rfl
      · have hle := hearlier i hlt
        omega
      · omega
    rcases Nat.lt_or_ge cut (fileOf entries).length with hshort | hlong
    -- The cut is in an earlier line.
    · obtain ⟨n, hn, hkept, hopen⟩ := ih h.of_append
      refine ⟨n, by rw [List.length_append]; omega, fun i hi => ?_, ?_⟩
      · rcases hsplit i hi with hlt | rfl
        · rw [textEnd_concat_lt hlt]
          exact hkept i hlt
        · constructor <;> intro hlt <;> omega
      · rw [fileOf_append, List.take_append_of_le_length (by omega), hopen, List.take_append_of_le_length hn]
    have htake : (fileOf (entries ++ [entry])).take cut
        = fileOf entries ++ (lineBytes entry).take (cut - (fileOf entries).length) := by
      rw [fileOf_append, fileOf_singleton, List.take_append, List.take_of_length_le hlong]
    rw [htake]
    rcases Nat.lt_trichotomy (cut - (fileOf entries).length) (textBytes entry).length with
      htorn | hexact | hwhole
    · refine ⟨entries.length, by rw [List.length_append]; omega, fun i hi => ?_, ?_⟩
      · rcases hsplit i hi with hlt | rfl
        · have hle := hearlier i hlt
          constructor <;> intro _ <;> omega
        · constructor <;> intro hlt <;> omega
      · rw [take_lineBytes htorn, List.take_left' rfl]
        have hpiece : tornBytes [(entry, cut - (fileOf entries).length)]
            = (textBytes entry).take (cut - (fileOf entries).length) := List.append_nil _
        rw [← hpiece]
        refine openAt_torn h.of_append (newline_notMem_tornBytes _) (parse_tornBytes ?_)
        intro p hp
        rw [List.mem_singleton.mp hp]
        exact htorn
    · refine hall _ (hends (by omega)) ?_
      rw [hexact, lineBytes_eq, List.take_left' rfl]
      exact openAt_unterminated h
    · refine hall _ (hends (by omega)) ?_
      rw [List.take_of_length_le (by rw [length_lineBytes]; omega), ← fileOf_singleton, ← fileOf_append]
      exact openAt_file h

theorem recovers_journalOf (h : Recorded dateParses entries) :
    Recovers dateParses (journalOf entries) entries where
  reads := readFrom_zero h
  continues := by
    intro call cursor journal' happend
    rcases append_outcome dateParses (indexOf entries) (entries.length + 1) call with
      ⟨err, hfile, -⟩ | ⟨event, previous, rfl, hget, hindex, hfile, -⟩ | ⟨hwrite, hfile, -⟩
    · rw [hfile _ _ rfl rfl] at happend
      cases happend
    · rw [hfile _ _ rfl rfl] at happend
      obtain ⟨hcursor, rfl⟩ := Prod.mk.inj happend
      have hknown : Known (journalOf entries) (.appendEvent event) := Option.isSome_iff_exists.mpr ⟨_, hget⟩
      refine ⟨fun _ => ⟨rfl, ?_⟩, fun hunknown => absurd hknown hunknown⟩
      obtain ⟨n, tenantId, value, hmem, hkey, hvalue⟩ := mem_of_indexOf hget
      have hn : n = previous.cursor := congrArg JournalEventIndex.cursor hvalue
      refine ⟨_, hmem, hn.trans (Except.ok.inj hcursor), hkey.symm, ?_⟩
      rw [hvalue, hn]
      exact hindex
    · have hwrites := hwrite (journalOf entries) rfl rfl
      have hsound := Outcome.sound hwrites
      have hrecorded := h.concat hsound (cursor_entry _ _)
      rw [hfile _ _ rfl rfl] at happend
      obtain ⟨hcursor, rfl⟩ := Prod.mk.inj happend
      have hnext : cursor = entries.length + 1 :=
        (Except.ok.inj hcursor).symm.trans (cursor_entry call _)
      subst hnext
      refine ⟨fun hknown => absurd hknown hwrites.1, fun _ => ⟨rfl, _, ?_, readFrom_zero hrecorded⟩⟩
      show openAt dateParses (some (fileOf entries ++ lineBytes (call.entry (entries.length + 1)))) = _
      rw [← fileOf_singleton, ← fileOf_append]
      exact openAt_file hrecorded

/-- A file written by appends that succeed, cut at any byte, yields the entries before the cut, and is gone
    on with. -/
theorem cut_file_is_recovered (dateParses : String → Bool) (s : JournalRun)
    (h : ((JournalRun.system dateParses).restrict (fun _ i _ => i.Persists)).Reachable s) (cut : Nat) :
    ∃ n ≤ s.returned.length,
      (∀ i < s.returned.length, i < n ↔ textEnd s.returned i ≤ cut) ∧
      ∃ journal, openAt dateParses (some (s.journal.file.take cut)) = .ok journal ∧
        Recovers dateParses journal (s.returned.take n) := by
  obtain ⟨hheld, hlost⟩ := persists_reachable h
  obtain ⟨n, hn, hkept, hopen⟩ := openAt_cut hheld.recorded cut
  have hfile : s.journal.file = fileOf s.returned := by rw [hheld.journal_eq hlost]; rfl
  refine ⟨n, hn, hkept, _, ?_, recovers_journalOf (hheld.recorded.take n)⟩
  rw [hfile]
  exact hopen

/-- A file with one entry, cut after 40 bytes. -/
theorem cut_file_is_recovered_once : ∃ n ≤ 1,
    (∀ i < 1, i < n ↔ textEnd (newRun.append isDateTime .done allowed).returned i ≤ 40) ∧
    ∃ journal, openAt isDateTime
        (some ((newRun.append isDateTime .done allowed).journal.file.take 40)) = .ok journal ∧
      Recovers isDateTime journal ((newRun.append isDateTime .done allowed).returned.take n) := by
  have hlength : (newRun.append isDateTime .done allowed).returned.length = 1 := by decide +kernel
  have hrecovered := cut_file_is_recovered isDateTime (newRun.append isDateTime .done allowed)
    (System.Reachable.step (System.Reachable.init ⟨rfl, rfl, rfl⟩) (i := .append _ _) ⟨rfl, trivial⟩) 40
  rw [hlength] at hrecovered
  exact hrecovered

end Premise.RuntimeCore
