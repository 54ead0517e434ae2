import Premise.Backup.Proofs.WriterProofs

/-!
# Proofs: files that are accepted

What the reader delivers are the values of the lines, and the digest is taken over their canonical texts.
-/

namespace Premise.Backup

open Collections Control Js

variable {host : BackupHost} {now : String} {expected : Option String}

def lineValue (line : List Char) : Option Parsed :=
  (parse line).bind (fun value => if (BackupReader.kindOf value).isSome then prop "value" value else none)

variable {r r' : BackupReader} {value : Parsed} {line : List Char}

namespace BackupReader

/-- What a line does to the reader. -/
inductive LineRead (r r' : BackupReader) (line : List Char) : Prop
  /-- The header, or the footer. -/
  | quiet : r'.lineNumber = r.lineNumber + 1 → (parse line).isSome = true → (r.lineNumber ≠ 0 → lineValue line = none) →
      r'.digest = r.digest → r'.delivered = r.delivered → LineRead r r' line
  | entry (e : BackupEntry) : r'.lineNumber = r.lineNumber + 1 → (parse line).isSome = true → r.lineNumber ≠ 0 →
      lineValue line = some e.value → r.digest.add e = .ok r'.digest → r'.delivered = r.delivered ++ [e] →
      LineRead r r' line

theorem of_deliver_ok {e : BackupEntry} (h : r.deliver e = .ok r') :
    r.digest.add e = .ok r'.digest ∧ r'.delivered = r.delivered ++ [e] ∧ r'.lineNumber = r.lineNumber := by
  unfold deliver at h
  obtain ⟨d, hadd, h⟩ := of_bind_ok h
  cases h
  exact ⟨hadd, rfl, rfl⟩

theorem of_entryLine_ok {header : StreamHeader} {kind : EntryKind} (h : r.entryLine host header kind value = .ok r') :
    ∃ e : BackupEntry, prop "value" (some value) = some e.value ∧ r.digest.add e = .ok r'.digest
      ∧ r'.delivered = r.delivered ++ [e] ∧ r'.lineNumber = r.lineNumber := by
  unfold entryLine at h
  obtain ⟨_, -, h⟩ := of_bind_ok h
  obtain ⟨_, hvalid, h⟩ := of_bind_ok h
  have hvalue : ∃ content, prop "value" (some value) = some content := by
    unfold validateEntry at hvalid
    obtain ⟨_, hobject, -⟩ := of_bind_ok hvalid
    cases hprop : prop "value" (some value) with
    | none =>
      rw [hprop] at hobject
      cases hobject
    | some content => exact ⟨content, rfl⟩
  obtain ⟨content, hcontent⟩ := hvalue
  rw [hcontent] at h ⊢
  split at h
  · obtain ⟨sequence, -, h⟩ := of_bind_ok h
    obtain ⟨hadd, hdelivered, hnumber⟩ := of_deliver_ok h
    exact ⟨_, rfl, hadd, hdelivered, hnumber⟩
  · obtain ⟨hadd, hdelivered, hnumber⟩ := of_deliver_ok h
    exact ⟨_, rfl, hadd, hdelivered, hnumber⟩

theorem of_parseLine_ok {n : Nat} (h : parseLine n line = .ok value) : parse line = some value := by
  unfold parseLine at h
  split at h
  · cases h
  · split at h
    · cases h
    · rename_i heq
      rw [heq, Except.ok.inj h]

theorem of_headerLine_ok (h : r.headerLine host now expected value = .ok r') :
    r'.lineNumber = r.lineNumber ∧ r'.digest = r.digest ∧ r'.delivered = r.delivered := by
  unfold headerLine at h
  obtain ⟨header, -, h⟩ := of_bind_ok h
  obtain ⟨_, -, h⟩ := of_bind_ok h
  obtain ⟨_, -, h⟩ := of_bind_ok h
  cases h
  exact ⟨rfl, rfl, rfl⟩

theorem kindOf_footer (h : isText "footer" (prop "kind" (some value)) = true) : kindOf value = none := by
  unfold isText at h
  split at h
  · rename_i heq
    obtain rfl := of_decide_eq_true h
    unfold kindOf
    rw [heq]
    rfl
  · cases h

theorem lineRead (h : readLine host now expected r line = .ok r') : LineRead r r' line := by
  unfold readLine at h
  dsimp only at h
  obtain ⟨value, hparse, h⟩ := of_bind_ok h
  have hline := of_parseLine_ok hparse
  have hsome : (parse line).isSome = true := by rw [hline]; rfl
  split at h
  · rename_i hfirst
    obtain ⟨hnumber, hdigest, hdelivered⟩ := of_headerLine_ok h
    exact .quiet hnumber hsome (fun hne => absurd hfirst (by omega)) hdigest hdelivered
  · rename_i hlater
    split at h
    · cases h
    · unfold dataOrFooter at h
      split at h
      · cases h
      · split at h
        · rename_i hfooter
          cases hsummary : footerSummary value with
          | error e =>
            rw [hsummary] at h
            cases h
          | ok footer =>
            rw [hsummary] at h
            cases h
            refine .quiet rfl hsome (fun _ => ?_) rfl rfl
            unfold lineValue
            rw [hline, Option.bind_some, kindOf_footer hfooter]
            rfl
        · split at h
          · cases h
          · rename_i kind hkind
            obtain ⟨e, hvalue, hadd, hdelivered, hnumber⟩ := of_entryLine_ok h
            refine .entry e hnumber hsome (by omega) ?_ hadd hdelivered
            unfold lineValue
            rw [hline, Option.bind_some, hkind]
            exact hvalue

/-- The reader after some lines. -/
structure Progress (r : BackupReader) (lines : List (List Char)) : Prop where
  lineNumber : r.lineNumber = lines.length
  parsed : ∀ line ∈ lines, (parse line).isSome = true
  values : r.delivered.map (·.value) = (lines.drop 1).filterMap lineValue
  hashed : r.digest.hashed = unlines '\n' (r.delivered.map BackupEntry.lineText)
  added : r.delivered.foldlM IncrementalDigest.add {} = .ok r.digest
  wellFormed : ∀ e ∈ r.delivered, e.value.json.WellFormed

theorem wellFormed_parse {v : Parsed} (h : parse line = some v) : v.json.WellFormed := by
  obtain ⟨document, hdocument, rfl⟩ := Option.map_eq_some_iff.mp h
  exact Parsed.wellFormed_parsed_json (Json.wellFormed_parseJson hdocument)

theorem wellFormed_prop {v w : Parsed} {key : String} (hv : v.json.WellFormed) (h : prop key (some v) = some w) :
    w.json.WellFormed := by
  cases v with
  | object fields =>
    obtain ⟨p, hp, rfl⟩ := Option.map_eq_some_iff.mp h
    rw [Parsed.json, Json.WellFormed, Json.wellFormedFields_iff, Parsed.jsonFields_eq] at hv
    exact hv.2 (p.1, p.2.json) (List.mem_map.mpr ⟨p, List.mem_of_find?_eq_some hp, rfl⟩)
  | _ => cases h

theorem wellFormed_lineValue {v : Parsed} (h : lineValue line = some v) : v.json.WellFormed := by
  obtain ⟨value, hparse, hvalue⟩ := Option.bind_eq_some_iff.mp h
  split at hvalue
  · exact wellFormed_prop (wellFormed_parse hparse) hvalue
  · cases hvalue

theorem Progress.step {r r' : BackupReader} {lines : List (List Char)} {line : List Char} (hr : r.Progress lines)
    (h : LineRead r r' line) : r'.Progress (lines ++ [line]) := by
  have hparsed : (parse line).isSome = true → ∀ l ∈ lines ++ [line], (parse l).isSome = true := by
    intro hsome l hl
    obtain hl | hl := List.mem_append.mp hl
    · exact hr.parsed l hl
    · obtain rfl := List.mem_singleton.mp hl
      exact hsome
  have hdrop : lines.length ≠ 0 → (lines ++ [line]).drop 1 = lines.drop 1 ++ [line] := by
    intro hne
    exact List.drop_append_of_le_length (by omega)
  cases h with
  | quiet hnumber hsome hvalue hdigest hdelivered =>
    refine ⟨?_, hparsed hsome, ?_, ?_, ?_, ?_⟩
    · rw [hnumber, hr.lineNumber, List.length_append]
      rfl
    · rw [hdelivered, hr.values]
      by_cases hempty : lines.length = 0
      · obtain rfl := List.eq_nil_of_length_eq_zero hempty
        rfl
      · rw [hdrop hempty, List.filterMap_append]
        simp [hvalue (by rw [hr.lineNumber]; exact hempty)]
    · rw [hdigest, hdelivered, hr.hashed]
    · rw [hdigest, hdelivered, hr.added]
    · rw [hdelivered]
      exact hr.wellFormed
  | entry e hnumber hsome hne hvalue hadd hdelivered =>
    refine ⟨?_, hparsed hsome, ?_, ?_, ?_, ?_⟩
    · rw [hnumber, hr.lineNumber, List.length_append]
      rfl
    · rw [hdrop (by rw [← hr.lineNumber]; exact hne), hdelivered, List.map_append, hr.values, List.filterMap_append]
      simp [hvalue]
    · rw [(IncrementalDigest.added hadd).hashed, hr.hashed, hdelivered, List.map_append, unlines_append, dataLine_eq]
      simp [BackupEntry.lineText]
    · rw [hdelivered, List.foldlM_append, hr.added, ok_bind, List.foldlM_cons, hadd]
      rfl
    · rw [hdelivered]
      intro f hf
      obtain hf | hf := List.mem_append.mp hf
      · exact hr.wellFormed f hf
      · obtain rfl := List.mem_singleton.mp hf
        exact wellFormed_lineValue hvalue

end BackupReader

/-- What is known of a file that was accepted. -/
structure Accepted (host : BackupHost) (file : List Nat) (delivered : List BackupEntry) (result : BackupResult) : Prop where
  parsed : ∀ line ∈ readLines (decodeBytes none file), (parse line).isSome = true
  values : delivered.map (·.value) = fileValues file
  sha256 : result.summary.sha256 = host.sha256 (utf8 (unlines '\n' (delivered.map BackupEntry.lineText)))
  added : ∃ d, delivered.foldlM IncrementalDigest.add {} = .ok d
  wellFormed : ∀ e ∈ delivered, e.value.json.WellFormed

theorem accepted {file : List Nat} {delivered : List BackupEntry} {result : BackupResult}
    (h : readIncrementalBackup host now expected file = .ok (delivered, result)) : Accepted host file delivered result := by
  unfold readIncrementalBackup at h
  obtain ⟨r, hfold, h⟩ := of_bind_ok h
  have hr : r.Progress (readLines (decodeBytes none file)) := by
    refine of_foldlM_ok (fun done r => BackupReader.Progress r done) ?_ ?_ hfold
    · intro done line _ b b' hb hstep
      exact hb.step (BackupReader.lineRead hstep)
    · exact ⟨rfl, List.forall_mem_nil _, rfl, rfl, rfl, List.forall_mem_nil _⟩
  unfold BackupReader.finish at h
  split at h
  · cases h
  · cases h
  · split at h
    · cases h
      refine ⟨hr.parsed, hr.values, ?_, ⟨_, hr.added⟩, hr.wellFormed⟩
      show host.sha256 (utf8 r.digest.hashed) = _
      rw [hr.hashed]
    · cases h

namespace BackupReader

/-- One turn of the loop over the lines, with the value of the line. -/
def readValue (host : BackupHost) (now : String) (expected : Option String) (r : BackupReader) (value : Parsed) :
    Except JsError BackupReader :=
  let r := { r with lineNumber := r.lineNumber + 1 }
  if r.lineNumber = 1 then r.headerLine host now expected value
  else match r.header with
    | none => .error (.error "PREMiSE NDJSON backup header is missing")
    | some header => r.dataOrFooter host header value

def readable (line : List Char) : Bool :=
  line.all (fun c => !isLineEnd c) && line.any (fun c => !isWhitespace c) && (parse line).isSome

theorem readLine_readable (h : readable line = true) (r : BackupReader) :
    readLine host now expected r line = readValue host now expected r ((parse line).getD .null) := by
  unfold readable at h
  rw [Bool.and_eq_true, Bool.and_eq_true] at h
  obtain ⟨value, hvalue⟩ := Option.isSome_iff_exists.mp h.2
  have hblank : nonEmpty (String.ofList line) = true := by
    rw [nonEmpty, String.toList_ofList]
    exact h.1.2
  have hparsed : parseLine (r.lineNumber + 1) line = .ok value := by
    unfold parseLine
    rw [hblank, hvalue]
    rfl
  rw [hvalue, Option.getD_some]
  show (parseLine (r.lineNumber + 1) line >>= readValue host now expected r) = readValue host now expected r value
  rw [hparsed, ok_bind]

end BackupReader

theorem readIncrementalBackup_lines {lines : List (List Char)} (h : lines.all BackupReader.readable = true) :
    readIncrementalBackup host now expected (utf8 (unlines '\n' lines)) = (do
      let r ← (lines.map (fun line => (parse line).getD .null)).foldlM (BackupReader.readValue host now expected) {}
      r.finish host) := by
  have hreadable : ∀ line ∈ lines, BackupReader.readable line = true := List.all_eq_true.mp h
  have hclean : ∀ line ∈ lines, Clean line := by
    intro line hline c hc
    have hall := hreadable line hline
    unfold BackupReader.readable at hall
    rw [Bool.and_eq_true, Bool.and_eq_true, List.all_eq_true] at hall
    simpa using hall.1.1 c hc
  have hfold : ∀ (ls : List (List Char)) (r : BackupReader), (∀ line ∈ ls, BackupReader.readable line = true) →
      ls.foldlM (BackupReader.readLine host now expected) r
        = (ls.map (fun line => (parse line).getD .null)).foldlM (BackupReader.readValue host now expected) r := by
    intro ls
    induction ls with
    | nil => exact fun _ _ => rfl
    | cons line ls ih =>
      intro r hls
      rw [List.foldlM_cons, List.map_cons, List.foldlM_cons, BackupReader.readLine_readable (hls line List.mem_cons_self)]
      exact bind_congr fun r' => ih r' (fun l hl => hls l (List.mem_cons_of_mem _ hl))
  unfold readIncrementalBackup
  rw [decodeBytes_utf8, readLines_unlines hclean, hfold lines {} hreadable]

end Premise.Backup
