import Premise.Backup.Proofs.AcceptedProofs

/-!
# Proofs: what a digest determines

Files that are accepted with one digest have the same canonical lines. What they deliver is the same but
for the numbers out of range, which the digest takes for `null`.
-/

namespace Premise.Backup

open Collections Control Js

/-- Entries that the digest does not tell apart. -/
structure SameLine (e f : BackupEntry) : Prop where
  kind : e.kind = f.kind
  sequence : e.sequence = f.sequence
  document : e.value.json.Same f.value.json

theorem sameLine {e f : BackupEntry} (he : e.value.json.WellFormed) (hf : f.value.json.WellFormed)
    (h : e.lineText = f.lineText) : SameLine e f := by
  have hdocument := same_of_canonicalJson (wellFormed_entryObject_json e.kind e.sequence he)
    (wellFormed_entryObject_json f.kind f.sequence hf) h
  obtain ⟨hkind, hsequence, hvalue⟩ := entryObject_same hdocument
  exact ⟨hkind, hsequence, hvalue⟩

theorem sameEntry_iff {e f : BackupEntry} (h : SameLine e f) :
    SameEntry e f ↔ e.value.sorted.nulls = f.value.sorted.nulls := by
  constructor
  · intro hsame
    exact (Parsed.same_iff.mp hsame.value).2
  · intro hnulls
    exact ⟨h.kind, h.sequence, Parsed.same_iff.mpr ⟨h.document, hnulls⟩⟩

variable {entries others : List BackupEntry}

theorem sameLines (hentries : ∀ e ∈ entries, e.value.json.WellFormed)
    (hothers : ∀ e ∈ others, e.value.json.WellFormed)
    (h : entries.map BackupEntry.lineText = others.map BackupEntry.lineText) :
    List.Forall₂ SameLine entries others := by
  induction entries generalizing others with
  | nil =>
    obtain rfl := List.map_eq_nil_iff.mp h.symm
    exact .nil
  | cons e entries ih =>
    cases others with
    | nil => cases h
    | cons f others =>
      obtain ⟨hline, hrest⟩ := List.cons.inj h
      rw [List.forall_mem_cons] at hentries hothers
      exact .cons (sameLine hentries.1 hothers.1 hline) (ih hentries.2 hothers.2 hrest)

/-- Entries with the same lines are the same when the same stands in them for `null`. -/
theorem sameEntries_iff (h : List.Forall₂ SameLine entries others) : List.Forall₂ SameEntry entries others
      ↔ entries.map (fun e => e.value.sorted.nulls) = others.map (fun e => e.value.sorted.nulls) := by
  induction h with
  | nil => simp
  | cons hline _ ih => rw [List.forall₂_cons, sameEntry_iff hline, ih, List.map_cons, List.map_cons, List.cons.injEq]

theorem lines_of_digest {host : BackupHost} (hinjective : Function.Injective host.sha256)
    (h : host.sha256 (utf8 (unlines '\n' (entries.map BackupEntry.lineText))) = host.sha256 (utf8 (unlines '\n' (others.map BackupEntry.lineText)))) :
    
    entries.map BackupEntry.lineText = others.map BackupEntry.lineText := by
  have htext : unlines '\n' (entries.map BackupEntry.lineText) = unlines '\n' (others.map BackupEntry.lineText) := by
    rw [← decodeBytes_utf8 (unlines '\n' (entries.map BackupEntry.lineText)), hinjective h, decodeBytes_utf8]
  have hline : ∀ es : List BackupEntry, ∀ line ∈ es.map BackupEntry.lineText, '\n' ∉ line := by
    intro es line hline
    obtain ⟨e, -, rfl⟩ := List.mem_map.mp hline
    exact control_notMem_canonicalJson (by decide) _
  exact unlines_injective (hline entries) (hline others) htext

namespace Pinned

def headerLine : List Char :=
  "\x7b\"format\":\"premise-v2-backup-ndjson\",\"version\":1,\"capturedAt\":\"2026-01-01T00:00:00.000Z\",\"tenantId\":\"acme\"\x7d".toList

def recordLine (content : String) : List Char :=
  ("\x7b\"kind\":\"record\",\"value\":\x7b\"envelope\":\x7b\"content\":" ++ content
    ++ ",\"memoryId\":\"m-1\",\"tenantId\":\"acme\"\x7d\x7d\x7d").toList

def sha256 : String := "e3b0c44298fc1c149afbf4c8996fb92427ae41e4649b934ca495991b7852b855"

def footerLine : List Char :=
  ("\x7b\"kind\":\"footer\",\"records\":1,\"events\":0,\"sha256\":\"" ++ sha256 ++ "\"\x7d").toList

def file (content : String) : List Nat := utf8 (unlines '\n' [headerLine, recordLine content, footerLine])

/-- A text of `a` and `b` for every list of bytes. -/
def unary (bytes : List Nat) : String := String.ofList (unlines 'b' (bytes.map (fun n => List.replicate n 'a')))

/-- A host whose hash of the record with `null` is a digest. -/
def host : BackupHost where
  sha256 bytes := if bytes = utf8 (recordLine "null" ++ ['\n']) then sha256 else unary bytes
  dateParse _ := some 0

theorem unary_injective : Function.Injective unary := by
  intro bytes others h
  have hlines := unlines_injective ?_ ?_ (String.ofList_injective h)
  · refine List.map_injective_iff.mpr ?_ hlines
    intro n m hnm
    simpa using congrArg List.length hnm
  all_goals
    intro line hline
    obtain ⟨n, -, rfl⟩ := List.mem_map.mp hline
    simp

theorem unary_ne_sha256 (bytes : List Nat) : unary bytes ≠ sha256 := by
  intro h
  have hmem : 'e' ∈ (unary bytes).toList := by
    rw [h]
    decide
  unfold unary unlines at hmem
  rw [String.toList_ofList, List.mem_flatMap] at hmem
  obtain ⟨line, hline, he⟩ := hmem
  obtain ⟨n, -, rfl⟩ := List.mem_map.mp hline
  simp at he

theorem sha256_injective : Function.Injective host.sha256 := by
  intro bytes others h
  simp only [host] at h
  split_ifs at h with hb ho ho
  · rw [hb, ho]
  · exact absurd h.symm (unary_ne_sha256 others)
  · exact absurd h (unary_ne_sha256 bytes)
  · exact unary_injective h

def inRange (v : Parsed) : Bool := v.nulls.all (fun w => match w with | .null => true | _ => false)

theorem inRange_iff {v : Parsed} : inRange v = true ↔ v.Finite := by
  unfold inRange Parsed.Finite
  rw [List.all_eq_true]
  refine forall₂_congr ?_
  intro w _
  cases w <;> simp

theorem inRange_of_same (h : List.Forall₂ SameEntry entries others) :
    entries.map (fun e => inRange e.value) = others.map (fun e => inRange e.value) := by
  induction h with
  | nil => rfl
  | @cons e f entries others hsame _ ih =>
    have hrange : inRange e.value = inRange f.value := by
      rw [Bool.eq_iff_iff, inRange_iff, inRange_iff, hsame.value.finite]
    rw [List.map_cons, List.map_cons, ih, hrange]

/-- What is observed of a file that was read. -/
def view (delivered : List BackupEntry) (result : BackupResult) : String × List Bool :=
  (result.summary.sha256, delivered.map (fun e => inRange e.value))

theorem of_view {read : Except JsError (List BackupEntry × BackupResult)} {v : String × List Bool}
    (h : read.toOption.map (fun p => view p.1 p.2) = some v) :
    ∃ delivered result, read = .ok (delivered, result) ∧ view delivered result = v := by
  cases read with
  | error e => cases h
  | ok p => exact ⟨p.1, p.2, rfl, Option.some.inj h⟩

theorem recordLine_eq (content : String) : recordLine content
    = "\x7b\"kind\":\"record\",\"value\":\x7b\"envelope\":\x7b\"content\":".toList ++ content.toList
      ++ ",\"memoryId\":\"m-1\",\"tenantId\":\"acme\"\x7d\x7d\x7d".toList := by
  unfold recordLine
  rw [String.toList_append, String.toList_append]

theorem footerLine_eq : footerLine = "\x7b\"kind\":\"footer\",\"records\":1,\"events\":0,\"sha256\":\"".toList
    ++ sha256.toList ++ "\"\x7d".toList := by
  unfold footerLine
  rw [String.toList_append, String.toList_append]

theorem read_file {content : String} {v : String × List Bool}
    (hlines : [headerLine, recordLine content, footerLine].all BackupReader.readable = true)
    (h : (do
        let r ← ([headerLine, recordLine content, footerLine].map (fun line => (parse line).getD .null)).foldlM
          (BackupReader.readValue host "" none) ({} : BackupReader)
        r.finish host : Except JsError (List BackupEntry × BackupResult)).toOption.map (fun p => view p.1 p.2) = some v) :
    ∃ delivered result, readIncrementalBackup host "" none (file content) = .ok (delivered, result)
      ∧ view delivered result = v := by
  refine of_view ?_
  unfold file
  rw [readIncrementalBackup_lines hlines, h]

theorem read_contents : ∀ p ∈ [("null", true), (" null ", true), ("1e400", false)], ∃ delivered result,
    readIncrementalBackup host "" none (file p.1) = .ok (delivered, result)
      ∧ view delivered result = (sha256, [p.2]) := by
  have hheader : headerLine = _ := String.toList_ofList
  have hstart : "\x7b\"kind\":\"record\",\"value\":\x7b\"envelope\":\x7b\"content\":".toList = _ := String.toList_ofList
  have hend : ",\"memoryId\":\"m-1\",\"tenantId\":\"acme\"\x7d\x7d\x7d".toList = _ := String.toList_ofList
  have hfooter : "\x7b\"kind\":\"footer\",\"records\":1,\"events\":0,\"sha256\":\"".toList = _ := String.toList_ofList
  have hsha : sha256.toList = _ := String.toList_ofList
  intro p hp
  simp only [List.mem_cons, List.not_mem_nil, or_false] at hp
  rcases hp with rfl | rfl | rfl
  all_goals
    refine read_file ?_ ?_
    · rw [hheader, recordLine_eq, hstart, hend, footerLine_eq, hfooter, hsha]
      decide +kernel
    · rw [hheader, recordLine_eq, hstart, hend, footerLine_eq, hfooter, hsha]
      decide +kernel

theorem read_null : ∃ delivered result, readIncrementalBackup host "" none (file "null") = .ok (delivered, result)
    ∧ view delivered result = (sha256, [true]) := read_contents ("null", true) List.mem_cons_self

theorem read_spaced : ∃ delivered result, readIncrementalBackup host "" none (file " null ") = .ok (delivered, result)
    ∧ view delivered result = (sha256, [true]) := read_contents (" null ", true) (List.mem_cons_of_mem _ List.mem_cons_self)

theorem read_outOfRange : ∃ delivered result, readIncrementalBackup host "" none (file "1e400") = .ok (delivered, result)
    ∧ view delivered result = (sha256, [false]) :=
  read_contents ("1e400", false) (List.mem_cons_of_mem _ (List.mem_cons_of_mem _ List.mem_cons_self))

end Pinned

end Premise.Backup
