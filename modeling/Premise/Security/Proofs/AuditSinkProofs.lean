import Premise.Collections.Lines
import Premise.Js.JsonScan
import Premise.Security.AuditSink
import Premise.Security.Proofs.AuditProofs

/-!
# The file of a sink

The file of the sinks is always made of the lines of the entries that count, and of a part of one line. A sink
that is not poisoned and knows the length of the file knows that there is no such part.
-/

namespace Premise.Security

open Collections Control Js
open Control.Command

variable {sha : Sha256}

section Lines

def lineOf (entry : Payload) : List Char :=
  match entry.canonicalize with
  | .ok line => line.toList
  | .error _ => []

def Faithful (entry : Payload) : Prop := (parseJson (lineOf entry)).map Payload.ofJson = some entry

def textOf (entries : List Payload) : List Char := unlines '\n' (entries.map lineOf)

theorem newline_notMem_lineOf (entry : Payload) : '\n' ∉ lineOf entry := by
  unfold lineOf
  cases hline : entry.canonicalize with
  | error e => exact List.not_mem_nil
  | ok line =>
    obtain ⟨doc, -, htext⟩ := Payload.canonicalize_eq_ok hline
    show '\n' ∉ line.toList
    rw [htext]
    exact newline_notMem_stringify doc

theorem canonicalEntry_eq_ok {value entry : Payload} {secrets : List String} {line : String}
    (h : canonicalEntry value secrets = .ok (entry, line)) : lineOf entry = line.toList ∧ Faithful entry := by
  unfold canonicalEntry at h
  cases hcanonical : value.canonicalize with
  | error e =>
    rw [hcanonical] at h
    cases h
  | ok canonical =>
    rw [hcanonical] at h
    dsimp only at h
    cases hparse : parseJson canonical.toList with
    | none =>
      rw [hparse] at h
      cases h
    | some normalized =>
      rw [hparse] at h
      dsimp only at h
      split_ifs at h with hshape hsecret hsame
      obtain ⟨rfl, rfl⟩ := Prod.mk.inj (Except.ok.inj h)
      have hline : lineOf (.ofJson normalized) = canonical.toList := by
        unfold lineOf
        rw [not_not.mp hsame]
      refine ⟨hline, ?_⟩
      unfold Faithful
      rw [hline, hparse]
      rfl

theorem canonicalEntry_ofList {value : Payload} {secrets : List String} {line : List Char} {normalized : Json}
    (hline : value.canonicalFragment = .ok line) (hparse : parseJson line = some normalized)
    (hshape : validEntryShape (.ofJson normalized) = true)
    (hsecret : (Payload.ofJson normalized).containsSecret secrets = false)
    (hsame : (Payload.ofJson normalized).canonicalFragment = .ok line) :
    canonicalEntry value secrets = .ok (.ofJson normalized, String.ofList line) := by
  unfold canonicalEntry Payload.canonicalize
  rw [hline]
  simp only [Except.map, String.toList_ofList, hparse, hshape, hsecret, hsame]
  simp

theorem textOf_injective {entries entries' : List Payload} (h : ∀ entry ∈ entries, Faithful entry)
    (h' : ∀ entry ∈ entries', Faithful entry) (heq : textOf entries = textOf entries') : entries = entries' := by
  have hnewline : ∀ (l : List Payload), ∀ line ∈ l.map lineOf, '\n' ∉ line := by
    intro l line hline
    obtain ⟨entry, -, rfl⟩ := List.mem_map.mp hline
    exact newline_notMem_lineOf entry
  have hlines := unlines_injective (hnewline entries) (hnewline entries') heq
  have hread : ∀ l : List Payload, (∀ entry ∈ l, Faithful entry) →
      (l.map lineOf).map (fun line => (parseJson line).map Payload.ofJson) = l.map some := by
    intro l hl
    rw [List.map_map]
    exact List.map_congr_left hl
  have hsome : entries.map some = entries'.map some := by
    rw [← hread entries h, ← hread entries' h', hlines]
  exact List.map_injective_iff.mpr (Option.some_injective _) hsome

end Lines

section Reading

variable {options : FileAuditSinkOptions}

theorem decodeLine_eq_ok {entries entries' : List Payload} {line : List Char}
    (h : decodeLine options entries line = .ok entries') :
    ∃ entry, entries' = entries ++ [entry] ∧ lineOf entry = line ∧ Faithful entry := by
  unfold decodeLine at h
  obtain ⟨-, h⟩ := of_check_ok h
  cases hparse : parseJson line with
  | none =>
    rw [hparse] at h
    cases h
  | some parsed =>
    rw [hparse] at h
    dsimp only at h
    cases hentry : canonicalEntry (.ofJson parsed) options.secretValues with
    | error e =>
      rw [hentry] at h
      cases h
    | ok p =>
      obtain ⟨entry, canonical⟩ := p
      rw [hentry] at h
      obtain ⟨hnew, h⟩ := of_check_ok h
      obtain ⟨-, h⟩ := of_check_ok h
      obtain ⟨hline, hfaithful⟩ := canonicalEntry_eq_ok hentry
      have hsame : canonical.toList = line := not_not.mp (fun hne => hnew (Or.inl hne))
      exact ⟨entry, (Except.ok.inj h).symm, hline.trans hsame, hfaithful⟩

theorem decodeFile_eq_ok {text : List Char} {entries : List Payload}
    (h : decodeFile sha options text = .ok entries) :
    textOf entries = text ∧ (∀ entry ∈ entries, Faithful entry) ∧ verifyAuditChain sha entries = true := by
  unfold decodeFile at h
  by_cases htext : text = []
  · rw [if_pos htext] at h
    cases h
    exact ⟨htext.symm, List.forall_mem_nil _, rfl⟩
  · rw [if_neg htext] at h
    obtain ⟨hlast, h⟩ := of_check_ok h
    obtain ⟨-, h⟩ := of_check_ok h
    obtain ⟨read, hread, h⟩ := Control.of_bind_ok h
    obtain ⟨hchain, h⟩ := of_check_ok h
    obtain rfl := Except.ok.inj h
    have hlines : read.map lineOf = text.dropLast.splitOn '\n' ∧ ∀ entry ∈ read, Faithful entry := by
      refine of_foldlM_ok (fun lines entries => entries.map lineOf = lines ∧ ∀ entry ∈ entries, Faithful entry)
        (fun lines line _ entries entries' hentries hline => ?_) ⟨rfl, List.forall_mem_nil _⟩ hread
      obtain ⟨entry, rfl, hlineOf, hfaithful⟩ := decodeLine_eq_ok hline
      refine ⟨by rw [List.map_append, hentries.1, List.map_singleton, hlineOf], fun e he => ?_⟩
      rcases List.mem_append.mp he with hold | hnew
      · exact hentries.2 e hold
      · rw [List.mem_singleton.mp hnew]
        exact hfaithful
    refine ⟨?_, hlines.2, Bool.not_eq_false _ ▸ hchain⟩
    unfold textOf
    rw [hlines.1]
    exact unlines_splitOn (not_not.mp hlast)

theorem getLast?_textOf {entries : List Payload} (h : entries ≠ []) : (textOf entries).getLast? = some '\n' := by
  unfold textOf
  rw [unlines_eq_intercalate _ (by simpa using h)]
  simp

theorem openFile_eq_ok {file : List Nat} {sink : FileAuditSink}
    (h : FileAuditSink.openFile sha file options = .ok sink) :
    sink.fileBytes = file.length ∧ sink.poisoned = false ∧ decodeBytes none file = textOf sink.entries
      ∧ (∀ entry ∈ sink.entries, Faithful entry) ∧ verifyAuditChain sha sink.entries = true := by
  unfold FileAuditSink.openFile at h
  obtain ⟨-, h⟩ := of_check_ok h
  obtain ⟨-, h⟩ := of_check_ok h
  obtain ⟨entries, hdecode, h⟩ := Control.of_bind_ok h
  cases h
  obtain ⟨htext, hfaithful, hchain⟩ := decodeFile_eq_ok hdecode
  exact ⟨rfl, rfl, htext.symm, hfaithful, hchain⟩

end Reading

/-! ## What a sink does -/

section Calls

variable {s : SinkFile}

theorem writeAll_cases (answers : List (Option Nat)) (data : List Nat) (s : SinkFile) :
    (∃ n e, writeAll answers data s = ({ s with file := s.file ++ data.take n }, .error e)) ∨
    writeAll answers data s = ({ s with file := s.file ++ data }, .ok ()) := by
  have hnothing : ∀ (data : List Nat) (s : SinkFile), { s with file := s.file ++ data.take 0 } = s := by
    intro data s
    rw [List.take_zero, List.append_nil]
  induction answers generalizing data s with
  | nil =>
    cases data with
    | nil => exact .inr (by rw [List.append_nil]; rfl)
    | cons b data => exact .inl ⟨0, _, by rw [hnothing]; rfl⟩
  | cons answer answers ih =>
    match answer, data with
    | _, [] => exact .inr (by rw [List.append_nil, writeAll]; rfl)
    | none, _ :: _ | some 0, _ :: _ => exact .inl ⟨0, _, by rw [hnothing]; rfl⟩
    | some (n + 1), b :: data =>
      rw [writeAll, update_bind]
      rcases ih ((b :: data).drop (n + 1)) { s with file := s.file ++ (b :: data).take (n + 1) } with
        ⟨m, e, hrun⟩ | hrun
      · refine .inl ⟨n + 1 + m, e, ?_⟩
        rw [hrun, List.append_assoc, ← List.take_add]
      · refine .inr ?_
        rw [hrun, List.append_assoc, List.take_append_drop]

/-- The write of a record: it is there, or a part of it is and the sink is poisoned. -/
theorem write_cases (answers : List (Option Nat)) (synced : Bool) (bytes : List Nat) (s : SinkFile) :
    (∃ n e, FileAuditSink.write answers synced bytes s =
      ({ sink := { s.sink with poisoned := true }, file := s.file ++ bytes.take n }, .error e)) ∨
    FileAuditSink.write answers synced bytes s = ({ s with file := s.file ++ bytes }, .ok ()) := by
  unfold FileAuditSink.write Command.onError
  rcases writeAll_cases answers bytes s with ⟨n, e, hrun⟩ | hrun
  · rw [bind_run_error hrun]
    exact .inl ⟨n, e, rfl⟩
  · rw [bind_run_ok hrun]
    cases synced with
    | true => exact .inr rfl
    | false =>
      refine Or.inl ⟨bytes.length, .security .auditIntegrityError "Audit entry could not be durably appended", ?_⟩
      rw [List.take_length]
      rfl

theorem ensureOpen_same : FileAuditSink.ensureOpen.Meets (.same (@id SinkFile)) :=
  (Meets.read _).bind fun _ => (Meets.rejectIf _ _).bind fun _ => Meets.rejectIf _ _

theorem assertFileSize_same : FileAuditSink.assertFileSize.Meets (.same (@id SinkFile)) :=
  (Meets.read _).bind fun _ => Meets.rejectIf _ _

theorem checked_same (input : Payload) : (FileAuditSink.checked sha input).Meets (.same (@id SinkFile)) :=
  ensureOpen_same.bind fun _ => assertFileSize_same.bind fun _ => (Meets.read _).bind fun _ =>
    (Meets.lift _).bind fun _ => (Meets.rejectIf _ _).bind fun _ => (Meets.rejectIf _ _).bind fun _ =>
      Meets.pure _

theorem of_ensureOpen_ok {u : Unit} (h : (FileAuditSink.ensureOpen s).2 = .ok u) :
    s.sink.closed = false ∧ s.sink.poisoned = false := by
  obtain ⟨sink, hread, h⟩ := of_bind_snd_ok h
  cases hread
  obtain ⟨_, hclosed, h⟩ := of_bind_snd_ok h
  exact ⟨Bool.not_eq_true _ ▸ of_rejectIf_snd_ok hclosed, Bool.not_eq_true _ ▸ of_rejectIf_snd_ok h⟩

/-- An entry that may be written is a line after a file whose length the sink knows. -/
theorem of_checked_ok {input entry : Payload} {bytes : List Nat}
    (h : (FileAuditSink.checked sha input s).2 = .ok (entry, bytes)) :
    s.sink.poisoned = false ∧ s.file.length = s.sink.fileBytes ∧ bytes = utf8 (lineOf entry ++ ['\n'])
      ∧ Faithful entry := by
  unfold FileAuditSink.checked at h
  obtain ⟨_, hopen, h⟩ := of_bind_snd_ok h
  rw [show (FileAuditSink.ensureOpen s).1 = s from ensureOpen_same s] at h
  obtain ⟨_, hsize, h⟩ := of_bind_snd_ok h
  rw [show (FileAuditSink.assertFileSize s).1 = s from assertFileSize_same s] at h
  obtain ⟨sink, -, h⟩ := of_bind_snd_ok h
  obtain ⟨p, hentry, h⟩ := of_bind_snd_ok h
  obtain ⟨entry', line⟩ := p
  obtain ⟨-, -, h⟩ := of_bind_snd_ok h
  obtain ⟨-, -, h⟩ := of_bind_snd_ok h
  cases h
  obtain ⟨hline, hfaithful⟩ := canonicalEntry_eq_ok (of_lift_snd_ok hentry)
  obtain ⟨file, hread, hcheck⟩ := of_bind_snd_ok hsize
  cases hread
  refine ⟨(of_ensureOpen_ok hopen).2, not_not.mp (of_rejectIf_snd_ok hcheck), ?_, hfaithful⟩
  rw [hline]
  rfl

theorem FileAuditSink.checked_eq {input entry : Payload} {line : List Char} (hopen : s.sink.closed = false)
    (hlive : s.sink.poisoned = false) (hlength : s.file.length = s.sink.fileBytes)
    (hentry : canonicalEntry input s.sink.options.secretValues = .ok (entry, String.ofList line))
    (hsize : ¬ ((utf8 (line ++ ['\n'])).length > s.sink.options.maxEntryBytes
      ∨ s.sink.entries.length ≥ s.sink.options.maxEntries
      ∨ s.sink.fileBytes + (utf8 (line ++ ['\n'])).length > s.sink.options.maxFileBytes))
    (hchain : ¬ (s.sink.entries.any (fun e => e.text "eventId" = entry.text "eventId" || e.text "hash" = entry.text "hash")
        = true ∨ verifyAuditChain sha (s.sink.entries ++ [entry]) = false)) :
    FileAuditSink.checked sha input s = (s, .ok (entry, utf8 (line ++ ['\n']))) := by
  have hensure : FileAuditSink.ensureOpen s = (s, .ok ()) := by
    unfold FileAuditSink.ensureOpen
    rw [read_bind, rejectIf_neg (by simp [hopen]), pure_bind_run, rejectIf_neg (by simp [hlive]), pure_run]
  have hassert : FileAuditSink.assertFileSize s = (s, .ok ()) := by
    show (rejectIf (s.file.length ≠ s.sink.fileBytes) failIntegrity : SinkCommand Unit) s = (s, .ok ())
    rw [rejectIf_neg (not_not.mpr hlength), pure_run]
  have hlift : (lift (canonicalEntry input s.sink.options.secretValues) : SinkCommand (Payload × String)) s
      = (s, .ok (entry, String.ofList line)) := by rw [lift_run, hentry]
  have hrecord : FileAuditSink.record (String.ofList line) = utf8 (line ++ ['\n']) := by
    rw [FileAuditSink.record, String.toList_ofList]
  unfold FileAuditSink.checked
  rw [bind_run_ok hensure, bind_run_ok hassert, read_bind, bind_run_ok hlift]
  dsimp only
  rw [hrecord, rejectIf_neg hsize, pure_bind_run, rejectIf_neg hchain, pure_bind_run, pure_run]

theorem append_cases (answers : List (Option Nat)) (synced : Bool) (input : Payload) (s : SinkFile) :
    (∃ e, (FileAuditSink.checked sha input s).2 = .error e
      ∧ FileAuditSink.append sha answers synced input s = (s, .error e)) ∨
    ∃ entry bytes, (FileAuditSink.checked sha input s).2 = .ok (entry, bytes) ∧
      ((∃ n e, FileAuditSink.append sha answers synced input s =
        ({ sink := { s.sink with poisoned := true }, file := s.file ++ bytes.take n }, .error e)) ∨
      FileAuditSink.append sha answers synced input s = ({ sink := { s.sink with
            entries := s.sink.entries ++ [entry]
            fileBytes := s.sink.fileBytes + bytes.length }, file := s.file ++ bytes }, .ok ())) := by
  have hsame : (FileAuditSink.checked sha input s).1 = s := checked_same input s
  unfold FileAuditSink.append
  rcases bind_cases (FileAuditSink.checked sha input) _ s with ⟨e, hfail, hrun⟩ | ⟨p, hok, hrun⟩
  · refine .inl ⟨e, hfail, ?_⟩
    rw [hrun, hsame]
  · obtain ⟨entry, bytes⟩ := p
    refine .inr ⟨entry, bytes, hok, ?_⟩
    rw [hrun, hsame]
    dsimp only
    rcases write_cases answers synced bytes s with ⟨n, e, hwrite⟩ | hwrite
    · rw [bind_run_error hwrite]
      exact .inl ⟨n, e, rfl⟩
    · rw [bind_run_ok hwrite]
      exact .inr rfl

theorem append_poisoned (h : s.sink.poisoned = true) (answers : List (Option Nat)) (synced : Bool)
    (input : Payload) : ∃ e, FileAuditSink.append sha answers synced input s = (s, .error e) := by
  rcases append_cases answers synced input s with ⟨e, -, hrun⟩ | ⟨entry, bytes, hok, -⟩
  · exact ⟨e, hrun⟩
  · rw [(of_checked_ok hok).1] at h
    cases h

/-- What `flush` and `close` may do to a sink and its file. -/
structure Settles (s s' : SinkFile) : Prop where
  file : s'.file = s.file
  fileBytes : s'.sink.fileBytes = s.sink.fileBytes
  poisoned : s.sink.poisoned = true → s'.sink.poisoned = true

theorem flush_settles (synced : Bool) (s : SinkFile) : Settles s (FileAuditSink.flush synced s).1 := by
  let G : Guarantee SinkFile := ⟨Settles, fun s => ⟨rfl, rfl, id⟩, fun s s' s'' h h' =>
    ⟨h'.file.trans h.file, h'.fileBytes.trans h.fileBytes, fun hp => h'.poisoned (h.poisoned hp)⟩⟩
  have hsame : ∀ s s', (Guarantee.same (@id SinkFile)).holds s s' → G.holds s s' := by
    intro s s' h
    obtain rfl : s' = s := h
    exact G.refl s'
  have hpoison : FileAuditSink.poison.Meets G := Meets.update fun s => ⟨rfl, rfl, fun _ => rfl⟩
  have hflush : (FileAuditSink.flush synced).Meets G :=
    (ensureOpen_same.mono hsame).bind fun _ =>
      ((assertFileSize_same.mono hsame).bind fun _ => Meets.rejectIf _ _).onError hpoison
  exact hflush s

theorem close_settles (synced : Bool) (s : SinkFile) : Settles s (FileAuditSink.close synced s).1 := by
  unfold FileAuditSink.close
  split_ifs
  · exact ⟨rfl, rfl, id⟩
  · exact ⟨rfl, rfl, id⟩

end Calls

/-!
# A durable audit sink

Every reachable file is made of the lines of the entries whose append has returned, of at most one further
line, and of a part of a line; a file with such a part is not opened.
-/

variable {sha : Sha256}

variable {d : AuditDisk} {sink : FileAuditSink}

namespace AuditDisk

def entries (d : AuditDisk) : List Payload := d.returned ++ d.interrupted.toList

/-- The file of a disk: lines, and a part of a line. -/
structure Shape (d : AuditDisk) (lines torn : List Nat) : Prop where
  file : d.file = lines ++ torn
  whole : lines = [] ∨ lines.getLast? = some 0x0A
  text : decodeBytes none lines = textOf d.entries
  part : 0x0A ∉ torn
  faithful : ∀ entry ∈ d.entries, Faithful entry
  /-- A sink that may write knows that nothing was written but its entries. -/
  current : ∀ sink ∈ d.sinks, sink.fileBytes = d.file.length → sink.poisoned = false →
    torn = [] ∧ d.interrupted = none
  shorter : ∀ sink ∈ d.sinks, sink.fileBytes ≤ d.file.length

structure Inv (d : AuditDisk) : Prop where
  shape : ∃ lines torn, d.Shape lines torn
  failed : ∀ i ∈ d.failed, ∃ sink, d.sinks[i]? = some sink ∧ sink.poisoned = true

theorem Shape.opened {lines torn : List Nat} (h : d.Shape lines torn) {options : FileAuditSinkOptions}
    (hopen : FileAuditSink.openFile sha d.file options = .ok sink) : torn = [] ∧ sink.entries = d.entries := by
  obtain ⟨-, -, htext, hfaithful, -⟩ := openFile_eq_ok hopen
  rw [h.file, decodeBytes_append h.whole, h.text] at htext
  have htorn : torn = [] := by
    by_contra hne
    have hdecoded := decodeBytes_ne_nil none hne
    have hentries : sink.entries ≠ [] := by
      intro hnil
      rw [hnil] at htext
      exact hdecoded (List.append_eq_nil_iff.mp htext).2
    have hlast := getLast?_textOf hentries
    rw [← htext, List.getLast?_append_of_ne_nil _ hdecoded] at hlast
    exact h.part (newline_mem_decodeBytes (fun s hs => absurd hs (Option.not_mem_none s)) (List.mem_of_getLast? hlast))
  subst htorn
  rw [decodeBytes, List.append_nil] at htext
  exact ⟨rfl, (textOf_injective h.faithful hfaithful htext).symm⟩

theorem Inv.openFile (h : d.Inv) (options : FileAuditSinkOptions) : (d.opened sha options).Inv := by
  unfold opened
  cases hopen : FileAuditSink.openFile sha d.file options with
  | error e => exact h
  | ok sink =>
    obtain ⟨lines, torn, hshape⟩ := h.shape
    obtain ⟨rfl, hentries⟩ := hshape.opened hopen
    obtain ⟨hbytes, -, -, hfaithful, -⟩ := openFile_eq_ok hopen
    have hsame : ({ d with
        sinks := d.sinks ++ [sink]
        returned := sink.entries
        interrupted := none } : AuditDisk).entries = d.entries := by
      rw [entries, ← hentries]
      exact List.append_nil _
    refine ⟨⟨lines, [], ?_⟩, fun i hi => ?_⟩
    · exact {
        file := hshape.file
        whole := hshape.whole
        text := by rw [hsame]; exact hshape.text
        part := List.not_mem_nil
        faithful := by rw [hsame]; exact hshape.faithful
        current := fun _ _ _ _ => ⟨rfl, rfl⟩
        shorter := by
          intro s hs
          rcases List.mem_append.mp hs with hold | hnew
          · exact hshape.shorter s hold
          · rw [List.mem_singleton.mp hnew, hbytes] }
    · obtain ⟨s, hs, hpoisoned⟩ := h.failed i hi
      refine ⟨s, ?_, hpoisoned⟩
      rw [List.getElem?_append_left (List.getElem?_eq_some_iff.mp hs).1]
      exact hs

/-! ## Calls of a sink -/

theorem mem_set_cases {l : List FileAuditSink} {i : Nat} {a b : FileAuditSink} (h : b ∈ l.set i a) : b = a ∨ b ∈ l := by
  rcases List.mem_or_eq_of_mem_set h with h | h
  · exact .inr h
  · exact .inl h

theorem failed_set (h : d.Inv) {i : Nat} {sink' : FileAuditSink} (hsink : d.sinks[i]? = some sink)
    (hpoisoned : sink.poisoned = true → sink'.poisoned = true) :
    ∀ j ∈ d.failed, ∃ s, (d.sinks.set i sink')[j]? = some s ∧ s.poisoned = true := by
  intro j hj
  obtain ⟨s, hs, hp⟩ := h.failed j hj
  by_cases hij : i = j
  · subst hij
    obtain rfl := Option.some.inj (hsink.symm.trans hs)
    exact ⟨sink', List.getElem?_set_self (List.getElem?_eq_some_iff.mp hs).1, hpoisoned hp⟩
  · exact ⟨s, by rw [List.getElem?_set_ne hij]; exact hs, hp⟩

theorem Inv.settles (h : d.Inv) {i : Nat} (hsink : d.sinks[i]? = some sink) {s : SinkFile}
    (hs : Settles ⟨sink, d.file⟩ s) : (d.after i s).Inv := by
  obtain ⟨lines, torn, hshape⟩ := h.shape
  have hmem := List.mem_of_getElem? hsink
  refine ⟨⟨lines, torn, ?_⟩, failed_set h hsink hs.poisoned⟩
  exact {
    file := hs.file.trans hshape.file
    whole := hshape.whole
    text := hshape.text
    part := hshape.part
    faithful := hshape.faithful
    current := by
      intro s' hs' hlength hlive
      have hlength : s'.fileBytes = d.file.length := hlength.trans (congrArg _ hs.file)
      rcases mem_set_cases hs' with rfl | hold
      · refine hshape.current sink hmem (hs.fileBytes.symm.trans hlength) ?_
        cases hp : sink.poisoned with
        | false => rfl
        | true => exact absurd (hs.poisoned hp) (by rw [hlive]; decide)
      · exact hshape.current s' hold hlength hlive
    shorter := by
      intro s' hs'
      have hlength : (d.after i s).file.length = d.file.length := congrArg _ hs.file
      rw [hlength]
      rcases mem_set_cases hs' with rfl | hold
      · exact hs.fileBytes.le.trans (hshape.shorter sink hmem)
      · exact hshape.shorter s' hold }

theorem getLast?_line (entry : Payload) : (utf8 (lineOf entry ++ ['\n'])).getLast? = some 0x0A := by
  rw [utf8, List.flatMap_append, List.getLast?_append_of_ne_nil _ (by decide)]
  rfl

theorem textOf_snoc (entries : List Payload) (entry : Payload) :
    textOf (entries ++ [entry]) = textOf entries ++ (lineOf entry ++ ['\n']) := by
  rw [textOf, List.map_append, unlines_append]
  simp [textOf]

theorem newline_notMem_take {entry : Payload} {n : Nat}
    (hn : n < (utf8 (lineOf entry ++ ['\n'])).length) : 0x0A ∉ (utf8 (lineOf entry ++ ['\n'])).take n := by
  have hline : utf8 (lineOf entry ++ ['\n']) = utf8 (lineOf entry) ++ [0x0A] := by
    rw [utf8, List.flatMap_append]
    rfl
  rw [hline, List.length_append, List.length_singleton] at hn
  rw [hline, List.take_append_of_le_length (by omega)]
  intro hmem
  exact newline_notMem_lineOf entry (newline_mem_utf8.mp (List.mem_of_mem_take hmem))

theorem Shape.writes {lines torn : List Nat} (h : d.Shape lines torn) (hmem : sink ∈ d.sinks)
    (hlength : d.file.length = sink.fileBytes) (hlive : sink.poisoned = false) :
    d.file = lines ∧ d.interrupted = none ∧ d.entries = d.returned := by
  obtain ⟨rfl, hnone⟩ := h.current sink hmem hlength.symm hlive
  refine ⟨by rw [h.file, List.append_nil], hnone, ?_⟩
  rw [entries, hnone]
  exact List.append_nil _

theorem Shape.line {d' : AuditDisk} {lines : List Nat} (h : d.Shape lines []) {entry : Payload}
    (hfaithful : Faithful entry) (hfile : d'.file = d.file ++ utf8 (lineOf entry ++ ['\n']))
    (hentries : d'.entries = d.entries ++ [entry])
    (hcurrent : ∀ sink ∈ d'.sinks, sink.fileBytes = d'.file.length → sink.poisoned = false → d'.interrupted = none)
    (hshorter : ∀ sink ∈ d'.sinks, sink.fileBytes ≤ d'.file.length) : d'.Shape d'.file [] where
  file := (List.append_nil _).symm
  whole := by
    refine .inr ?_
    rw [hfile, List.getLast?_append_of_ne_nil]
    · exact getLast?_line entry
    · rw [utf8, List.flatMap_append]
      exact List.append_ne_nil_of_right_ne_nil _ (by decide)
  text := by
    rw [hfile, h.file, List.append_nil, decodeBytes_append h.whole, h.text, hentries, textOf_snoc, decodeBytes_utf8]
  part := List.not_mem_nil
  faithful := by
    intro e he
    rw [hentries] at he
    rcases List.mem_append.mp he with hold | hnew
    · exact h.faithful e hold
    · rw [List.mem_singleton.mp hnew]
      exact hfaithful
  current := fun sink hs hlength hlive => ⟨rfl, hcurrent sink hs hlength hlive⟩
  shorter := hshorter

theorem Inv.append (h : d.Inv) {i : Nat} (hsink : d.sinks[i]? = some sink) (answers : List (Option Nat))
    (synced : Bool) (input : Payload) :
    (d.appended sha i sink answers synced input).Inv := by
  have hmem := List.mem_of_getElem? hsink
  have hindex : i < d.sinks.length := (List.getElem?_eq_some_iff.mp hsink).1
  unfold appended
  rcases append_cases answers synced input ⟨sink, d.file⟩ with
    ⟨e, hchecked, hrun⟩ | ⟨entry, bytes, hchecked, hrun⟩
  · rw [hchecked, hrun]
    exact h.settles hsink ⟨rfl, rfl, id⟩
  obtain ⟨hlive, hlength, hbytes, hfaithful⟩ := of_checked_ok hchecked
  obtain ⟨lines, torn, hshape⟩ := h.shape
  obtain ⟨rfl, hnone⟩ := hshape.current sink hmem hlength.symm hlive
  obtain ⟨hfile, -, hentries⟩ := hshape.writes hmem hlength hlive
  have hpositive : 0 < bytes.length := by
    rw [hbytes, utf8, List.flatMap_append, List.length_append]
    exact Nat.lt_of_lt_of_le Nat.zero_lt_one (Nat.le_add_left 1 _)
  have hgrown : ∀ s ∈ d.sinks, ∀ tail : List Nat, s.fileBytes ≤ (d.file ++ tail).length := by
    intro s hs tail
    rw [List.length_append]
    exact (hshape.shorter s hs).trans (Nat.le_add_right _ _)
  rw [hchecked]
  rcases hrun with ⟨n, e, hrun⟩ | hrun
  · rw [hrun]
    have hfailed : ∀ j ∈ i :: d.failed,
        ∃ s, (d.sinks.set i { sink with poisoned := true })[j]? = some s ∧ s.poisoned = true := by
      intro j hj
      rcases List.mem_cons.mp hj with rfl | hold
      · exact ⟨_, List.getElem?_set_self hindex, rfl⟩
      · exact failed_set h hsink (fun _ => rfl) j hold
    -- a sink that knows the new length of the file has seen no part of the line
    have hnew : ∀ s ∈ d.sinks.set i { sink with poisoned := true },
        s.fileBytes = (d.file ++ bytes.take n).length → s.poisoned = false → bytes.take n = [] := by
      intro s hs hlength' hpoisoned
      rcases mem_set_cases hs with rfl | hold
      · cases hpoisoned
      · have := hshape.shorter s hold
        rw [List.length_append] at hlength'
        exact List.length_eq_zero_iff.mp (by omega)
    have hshorter : ∀ s ∈ d.sinks.set i { sink with poisoned := true }, s.fileBytes ≤ (d.file ++ bytes.take n).length := by
      intro s hs
      rcases mem_set_cases hs with rfl | hold
      · exact hgrown sink hmem _
      · exact hgrown s hold _
    refine ⟨?_, hfailed⟩
    dsimp only [after]
    by_cases hn : bytes.length ≤ n
    · -- the whole line was written
      have hall : bytes.take n = bytes := List.take_of_length_le hn
      rw [hall] at hnew hshorter ⊢
      rw [if_pos rfl]
      refine ⟨_, [], hshape.line hfaithful (congrArg (d.file ++ ·) hbytes) ?_ ?_ hshorter⟩
      · rw [hentries]
        rfl
      · intro s hs hlength' hpoisoned
        exact absurd (hnew s hs hlength' hpoisoned) (List.ne_nil_of_length_pos hpositive)
    · -- a part of the line was written
      have hpart : d.file ++ bytes.take n ≠ d.file ++ bytes := by
        intro heq
        have := congrArg List.length (List.append_cancel_left heq)
        rw [List.length_take] at this
        omega
      rw [if_neg hpart]
      refine ⟨lines, bytes.take n, ?_⟩
      exact {
        file := by rw [hfile]
        whole := hshape.whole
        text := hshape.text
        part := by
          rw [hbytes] at hn ⊢
          exact newline_notMem_take (by omega)
        faithful := hshape.faithful
        current := fun s hs hlength' hpoisoned => ⟨hnew s hs hlength' hpoisoned, hnone⟩
        shorter := hshorter }
  · rw [hrun]
    refine ⟨⟨_, [], hshape.line hfaithful (congrArg (d.file ++ ·) hbytes) ?_ (fun _ _ _ _ => hnone) ?_⟩,
      failed_set h hsink id⟩
    · rw [hentries]
      show d.returned ++ [entry] ++ d.interrupted.toList = _
      rw [hnone]
      exact List.append_nil _
    · intro s hs
      rcases mem_set_cases hs with rfl | hold
      · show sink.fileBytes + bytes.length ≤ (d.file ++ bytes).length
        rw [List.length_append, ← hlength]
      · exact hgrown s hold bytes

/-! ## Runs -/

theorem Inv.init (h : (system sha).init d) : d.Inv := by
  obtain ⟨sink, hopen, hd⟩ := h
  generalize d.file = file at hopen hd
  subst hd
  obtain ⟨hbytes, -, htext, hfaithful, -⟩ := openFile_eq_ok hopen
  have hentries : ({ file, sinks := [sink], returned := sink.entries } : AuditDisk).entries
      = sink.entries := List.append_nil _
  refine ⟨⟨file, [], ?_⟩, nofun⟩
  exact {
    file := (List.append_nil _).symm
    whole := by
      by_cases hnil : sink.entries = []
      · rw [hnil] at htext
        refine .inl ?_
        by_contra hne
        exact decodeBytes_ne_nil none hne htext
      · exact .inr (getLast?_of_decodeBytes (htext ▸ getLast?_textOf hnil))
    text := by rw [hentries]; exact htext
    part := List.not_mem_nil
    faithful := by rw [hentries]; exact hfaithful
    current := fun _ _ _ _ => ⟨rfl, rfl⟩
    shorter := by
      intro s hs
      rw [List.mem_singleton.mp hs, hbytes] }

theorem Inv.step {d d' : AuditDisk} {i : AuditDiskStep} (h : d.Inv) (hstep : (system sha).step d i d') : d'.Inv := by
  cases i with
  | openFile options =>
    obtain rfl := hstep
    exact h.openFile options
  | append i answers synced input =>
    obtain ⟨sink, hsink, rfl⟩ := hstep
    exact h.append hsink answers synced input
  | flush i synced =>
    obtain ⟨sink, hsink, rfl⟩ := hstep
    exact h.settles hsink (flush_settles synced _)
  | close i synced =>
    obtain ⟨sink, hsink, rfl⟩ := hstep
    exact h.settles hsink (close_settles synced _)

/-- A file of audit entries is durable, wherever writes fail. -/
theorem durable {d : AuditDisk} (h : (system sha).Reachable d) : d.Durable sha := by
  have hinv : d.Inv := h.invariant Inv (fun _ => Inv.init) (fun _ _ _ => Inv.step)
  obtain ⟨lines, torn, hshape⟩ := hinv.shape
  constructor
  · intro i hi sink hsink answers synced input
    obtain ⟨s, hs, hpoisoned⟩ := hinv.failed i hi
    obtain rfl := Option.some.inj (hs.symm.trans hsink)
    exact append_poisoned hpoisoned answers synced input
  · intro options sink hopen
    refine ⟨(openFile_eq_ok hopen).2.2.2.2, ?_⟩
    have hentries := (hshape.opened hopen).2
    cases hinterrupted : d.interrupted with
    | none =>
      refine Or.inl ?_
      rw [hentries, entries, hinterrupted]
      exact List.append_nil _
    | some entry =>
      refine Or.inr ⟨entry, rfl, ?_⟩
      rw [hentries, entries, hinterrupted]
      rfl

theorem appended_torn {i : Nat} {input entry : Payload} {bytes : List Nat} {n : Nat}
    (h : FileAuditSink.checked sha input ⟨sink, d.file⟩ = (⟨sink, d.file⟩, .ok (entry, bytes)))
    (hlong : n + 1 < bytes.length) :
    (d.appended sha i sink [some (n + 1), none] true input).file = d.file ++ bytes.take (n + 1)
      ∧ (d.appended sha i sink [some (n + 1), none] true input).failed = i :: d.failed := by
  have hwrite : FileAuditSink.write [some (n + 1), none] true bytes ⟨sink, d.file⟩ =
      (⟨{ sink with poisoned := true }, d.file ++ bytes.take (n + 1)⟩,
        .error (.security .auditIntegrityError "Audit entry could not be durably appended")) := by
    obtain ⟨b, data, rfl⟩ := List.exists_cons_of_ne_nil (List.ne_nil_of_length_pos (Nat.zero_lt_of_lt hlong))
    obtain ⟨c, rest, hrest⟩ : ∃ c rest, (b :: data).drop (n + 1) = c :: rest :=
      List.exists_cons_of_ne_nil (by simpa using hlong)
    have hall : writeAll [some (n + 1), none] (b :: data) ⟨sink, d.file⟩ = (⟨sink, d.file ++ (b :: data).take (n + 1)⟩,
          .error (.security .auditIntegrityError "Audit entry could not be durably appended")) := by
      rw [writeAll, Command.update_bind, hrest]
      rfl
    unfold FileAuditSink.write Command.onError
    rw [Command.bind_run_error hall]
    rfl
  have hrun : FileAuditSink.append sha [some (n + 1), none] true input ⟨sink, d.file⟩ =
      (⟨{ sink with poisoned := true }, d.file ++ bytes.take (n + 1)⟩,
        .error (.security .auditIntegrityError "Audit entry could not be durably appended")) := by
    unfold FileAuditSink.append
    rw [Command.bind_run_ok h]
    exact Command.bind_run_error hwrite
  unfold appended
  rw [hrun, h]
  exact ⟨rfl, rfl⟩

def emptySink : FileAuditSink := { options := {}, fileBytes := 0, entries := [] }

def tornDisk : AuditDisk :=
  ({ file := [], sinks := [emptySink], returned := [] } : AuditDisk).appended constantSha 0 emptySink
    [some 5, none] true (firstEntry (.string "data"))

def firstLine : List Char := ((firstEntry (.string "data")).canonicalFragment.toOption).getD []

def firstValue : Payload := .ofJson ((parseJson firstLine).getD .null)

theorem firstLine_spec : (firstEntry (.string "data")).canonicalFragment = .ok firstLine ∧
    (parseJson firstLine).isSome = true ∧ validEntryShape firstValue = true ∧
    firstValue.containsSecret emptySink.options.secretValues = false ∧
    firstValue.canonicalFragment = .ok firstLine ∧ verifyAuditChain constantSha [firstValue] = true ∧
    4 + 1 < (utf8 (firstLine ++ ['\n'])).length ∧ (utf8 (firstLine ++ ['\n'])).length ≤ 1024 := by
  decide +kernel

theorem checked_first : FileAuditSink.checked constantSha (firstEntry (.string "data")) ⟨emptySink, []⟩
    = (⟨emptySink, []⟩, .ok (firstValue, utf8 (firstLine ++ ['\n']))) := by
  obtain ⟨hline, hparsed, hshape, hsecret, hsame, hchain, -, hlength⟩ := firstLine_spec
  obtain ⟨normalized, h⟩ := Option.isSome_iff_exists.mp hparsed
  have hvalue : .ofJson normalized = firstValue := by rw [firstValue, h, Option.getD_some]
  rw [← hvalue] at hshape hsecret hsame hchain ⊢
  refine FileAuditSink.checked_eq rfl rfl rfl (canonicalEntry_ofList hline h hshape hsecret hsame) ?_ ?_
  · rintro (hentry | hentries | hfile)
    · exact absurd (hlength.trans (by decide)) (Nat.not_le.mpr hentry)
    · exact absurd hentries (by decide)
    · exact absurd (hlength.trans (by decide)) (Nat.not_le.mpr ((Nat.zero_add _).symm ▸ hfile))
  · rintro (hknown | hbroken)
    · cases hknown
    · exact absurd (hchain.symm.trans hbroken) (by decide)

/-- A write that fails after five bytes. -/
theorem durable_after_a_torn_write :
    tornDisk.file.length = 5 ∧ tornDisk.failed = [0] ∧ tornDisk.Durable constantSha := by
  have hlong := firstLine_spec.2.2.2.2.2.2.1
  obtain ⟨hfile, hfailed⟩ := appended_torn (d := { file := [], sinks := [emptySink], returned := [] }) (i := 0)
    checked_first hlong
  refine ⟨?_, hfailed, ?_⟩
  · rw [tornDisk, hfile, List.nil_append, List.length_take]
    omega
  · exact durable (.step (.init ⟨emptySink, rfl, rfl⟩) (show (system constantSha).step _ (.append 0 _ _ _) _ from
      ⟨emptySink, rfl, rfl⟩))

end AuditDisk

end Premise.Security
