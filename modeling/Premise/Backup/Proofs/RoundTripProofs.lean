import Premise.Backup.Proofs.AcceptedProofs

/-!
# Proofs: reading a written backup

The reader goes through the lines of a file as the writer has written them: the entries are delivered in
key order, and the footer is the one that the reader computes.
-/

namespace Premise.Backup

open Collections Control Js

variable {host : BackupHost} {now : String} {expected : Option String}

theorem nonEmpty_object (fields : List (String × Parsed)) :
    nonEmpty (String.ofList (canonicalJson (.object fields))) = true := by
  unfold nonEmpty
  rw [String.toList_ofList, canonicalJson, List.any_cons]
  rfl

theorem exists_some {v : Parsed} (hv : v.WellFormed) : Exists (some v) := by
  intro w hw
  cases hw
  exact hv

theorem wellFormed_header (header : StreamHeader) : header.toParsed.WellFormed :=
  ⟨by simp, trivial, wellFormed_natural (by decide), trivial, trivial, trivial⟩

theorem finite_header (header : StreamHeader) : header.toParsed.Finite := by
  simp [StreamHeader.toParsed, natural, Parsed.Finite, Parsed.nulls, Parsed.nullsFields]

theorem prop_header (header : StreamHeader) (key : String) :
    prop key (some header.toParsed.sorted) = (prop key (some header.toParsed)).map Parsed.sorted :=
  prop_sorted (exists_some (wellFormed_header header)) key

theorem streamHeader_sorted {now0 : String} {metadata : Parsed} {header : StreamHeader}
    (h : streamHeader host now0 metadata = .ok header) :
    streamHeader host now header.toParsed.sorted = .ok header := by
  have hchecked : (host.dateParse header.capturedAt).isSome ∧ ¬ (header.tenantId.isEmpty || !isTrimmed header.tenantId) = true := by
    unfold streamHeader at h
    obtain ⟨_, -, h⟩ := of_bind_ok h
    obtain ⟨_, hdate, h⟩ := of_bind_ok h
    split at h
    · rename_i hcaptured htenant
      split at h
      · cases h
      · rename_i hnonempty
        cases h
        refine ⟨?_, hnonempty⟩
        rw [hcaptured] at hdate
        unfold assertDateTime instantOf at hdate
        by_contra hnone
        rw [if_neg hnone] at hdate
        cases hdate
    · cases h
  have hcaptured : prop "capturedAt" (some header.toParsed.sorted) = some (.string header.capturedAt) := by
    rw [prop_header]
    simp [StreamHeader.toParsed, prop, Parsed.sorted]
  have htenant : prop "tenantId" (some header.toParsed.sorted) = some (.string header.tenantId) := by
    rw [prop_header]
    simp [StreamHeader.toParsed, prop, Parsed.sorted]
  have hdate : assertDateTime host (some (.string header.capturedAt)) "backup capturedAt" = .ok () := by
    unfold assertDateTime instantOf
    rw [if_pos hchecked.1]
  have hmetadata : assertMetadata header.toParsed.sorted = .ok () := rfl
  unfold streamHeader
  rw [hmetadata, hcaptured, htenant]
  simp only [isNullish, Bool.false_eq_true, if_false, hdate, bind, Except.bind, hchecked.2]

namespace BackupReader

theorem parseLine_object {v : Parsed} {fields : List (String × Parsed)} {n : Nat} (hv : v.WellFormed)
    (hfinite : v.Finite) (hobject : v = .object fields) : parseLine n (canonicalJson v) = .ok v.sorted := by
  have hblank : nonEmpty (String.ofList (canonicalJson v)) = true := by
    rw [hobject]
    exact nonEmpty_object fields
  unfold parseLine
  rw [hblank, parse_canonicalJson_finite hv hfinite]
  rfl

theorem readLine_header {now0 : String} {metadata : Parsed} {header : StreamHeader}
    (h : streamHeader host now0 metadata = .ok header) (hexpected : ∀ t ∈ expected, t = header.tenantId) :
    readLine host now expected {} (canonicalJson header.toParsed) = .ok { lineNumber := 1, header := some header } := by
  have hversion : prop "version" (some header.toParsed.sorted) = some (natural streamVersion) := by
    rw [prop_header]
    simp [StreamHeader.toParsed, prop, natural, Parsed.sorted]
  have hany : expected.any (fun tenantId => header.tenantId ≠ tenantId) = false := by
    rw [Option.any_eq_false]
    intro t ht
    simp [hexpected t ht]
  have hsame : (Number.finite (streamVersion : ℚ)).same (.finite (streamVersion : ℚ)) = true := by simp [Number.same]
  unfold readLine
  dsimp only
  rw [parseLine_object (wellFormed_header header) (finite_header header) rfl]
  show headerLine _ _ _ _ _ = _
  unfold headerLine
  rw [streamHeader_sorted h, hversion]
  simp only [assertVersion, natural, hsame, assertTenant, hany, bind, Except.bind, pure, Except.pure,
    Bool.false_eq_true, if_false, if_true]

/-! ## Entries -/

section Entry

variable {e : BackupEntry} {r : BackupReader} {header : StreamHeader} {d : IncrementalDigest}

theorem prop_entry (key : String) (kind : EntryKind) (value : Parsed) (sequence : Option Nat) :
    prop key (some (entryObject kind value sequence).sorted)
      = if key = "kind" then some (.string kind.text)
        else if key = "sequence" then sequence.map natural
        else if key = "value" then some value.sorted
        else none := by
  rw [sorted_entryObject]
  by_cases hkind : key = "kind"
  · subst hkind
    cases sequence <;> rfl
  by_cases hsequence : key = "sequence"
  · subst hsequence
    cases sequence <;> rfl
  by_cases hvalue : key = "value"
  · subst hvalue
    cases sequence <;> rfl
  rw [if_neg hkind, if_neg hsequence, if_neg hvalue]
  cases sequence <;> simp [prop, Ne.symm hkind, Ne.symm hsequence, Ne.symm hvalue]

theorem kindOf_entry (kind : EntryKind) (value : Parsed) (sequence : Option Nat) :
    kindOf (entryObject kind value sequence).sorted = some kind := by
  unfold kindOf
  rw [prop_entry, if_pos rfl]
  cases kind <;> rfl

theorem eventSequence_ok {r : BackupReader} {value : Parsed} {sequence : Option Nat}
    (hprop : prop "sequence" (some value) = sequence.map natural) (hrange : ∀ n ∈ sequence, 1 ≤ n ∧ n < 2 ^ 53)
    (hlast : ∀ n ∈ sequence, ∀ last ∈ r.lastEventSequence, last < n) : r.eventSequence value = .ok sequence := by
  unfold eventSequence
  rw [hprop]
  cases sequence with
  | none => rfl
  | some n =>
    obtain ⟨hmin, hmax⟩ := hrange n rfl
    have hany : r.lastEventSequence.any (fun last => n ≤ last) = false := by
      rw [Option.any_eq_false]
      intro last hmem
      simpa using hlast n rfl last hmem
    simp only [Option.map_some, assertSequence_natural hmin hmax, hany, bind, Except.bind, pure, Except.pure,
      Bool.false_eq_true, if_false]

theorem deliver_ok {r : BackupReader} {e : BackupEntry} (d : IncrementalDigest) (hadd : r.digest.add e = .ok d) :
    r.deliver e = .ok { r with digest := d, delivered := r.delivered ++ [e] } := by
  unfold deliver
  rw [hadd]
  rfl

def afterEntry (r : BackupReader) (e : BackupEntry) (d : IncrementalDigest) : BackupReader :=
  { r with
    lineNumber := r.lineNumber + 1
    phase := some e.kind
    lastEventSequence := e.sequence.or r.lastEventSequence
    digest := d
    delivered := r.delivered ++ [e.inOrder] }

theorem readLine_entry (hheader : r.header = some header) (hfooter : r.footer = none) (hline : 1 ≤ r.lineNumber)
    (hvalid : e.Valid host header.tenantId) (hfinite : e.value.Finite)
    (hphase : ∀ phase ∈ r.phase, phase.order ≤ e.kind.order)
    (hsequence : ∀ n ∈ e.sequence, ∀ last ∈ r.lastEventSequence, last < n)
    (hadd : r.digest.add e = .ok d) :
    readLine host now expected r e.lineText = .ok (r.afterEntry e d) := by
  obtain ⟨kind, value, sequence, hevent⟩ := e
  have hwf : (entryObject kind value sequence).WellFormed :=
    wellFormed_entryObject hvalid.wellFormed (fun n hn => (hvalid.sequence n hn).2)
  have haccepted : validateEntry host kind (some value.sorted) header.tenantId = .ok () :=
    validateEntry_sorted (exists_some hvalid.wellFormed) hvalid.accepted
  have hadd' := IncrementalDigest.add_inOrder r.digest ⟨kind, value, sequence, hevent⟩ (Parsed.sorted_sorted value)
  rw [hadd] at hadd'
  have hany : r.phase.any (fun phase => kind.order < phase.order) = false := by
    rw [Option.any_eq_false]
    intro phase hmem
    simpa using hphase phase hmem
  have hkind : isText "footer" (prop "kind" (some (entryObject kind value sequence).sorted)) = false := by
    rw [prop_entry, if_pos rfl]
    cases kind <;> rfl
  have hvalue : prop "value" (some (entryObject kind value sequence).sorted) = some value.sorted := by
    rw [prop_entry, if_neg (by decide), if_neg (by decide), if_pos rfl]
  unfold readLine BackupEntry.lineText
  dsimp only
  rw [parseLine_object hwf (finite_entryObject hfinite) rfl]
  show (if r.lineNumber + 1 = 1 then _ else _) = _
  rw [if_neg (by omega), hheader]
  unfold dataOrFooter
  rw [hfooter, hkind, kindOf_entry]
  show entryLine _ _ _ _ _ = _
  unfold entryLine assertPhase
  rw [hany, hvalue, haccepted]
  show (if h : kind = .event then _ else _) = _
  by_cases hk : kind = .event
  · subst hk
    rw [dif_pos rfl, eventSequence_ok ?_ hvalid.sequence ?_]
    · show deliver _ _ = _
      refine (deliver_ok d ?_).trans ?_
      · exact hadd'
      · simp [afterEntry, hheader, hfooter, BackupEntry.inOrder]
    · rw [prop_entry, if_neg (by decide), if_pos rfl]
    · exact hsequence
  · obtain rfl : sequence = none := by
      by_contra hne
      exact hk (hevent hne)
    rw [dif_neg hk]
    refine (deliver_ok d ?_).trans ?_
    · exact hadd'
    · simp [afterEntry, hheader, hfooter, BackupEntry.inOrder]

theorem foldlM_readLine (now : String) (expected : Option String) {entries : List BackupEntry} (hheader : r.header = some header) (hfooter : r.footer = none)
    (hline : 1 ≤ r.lineNumber) (hvalid : ∀ e ∈ entries, e.Valid host header.tenantId)
    (hfinite : ∀ e ∈ entries, e.value.Finite)
    (hkinds : entries.Pairwise (fun e f => e.kind.order ≤ f.kind.order))
    (hphase : ∀ e ∈ entries, ∀ phase ∈ r.phase, phase.order ≤ e.kind.order)
    (hsequences : (entries.filterMap (·.sequence)).Pairwise (· < ·))
    (hlast : ∀ n ∈ entries.filterMap (·.sequence), ∀ last ∈ r.lastEventSequence, last < n)
    (hadd : entries.foldlM IncrementalDigest.add r.digest = .ok d) :
    ∃ r', (entries.map BackupEntry.lineText).foldlM (readLine host now expected) r = .ok r'
      ∧ r'.header = some header ∧ r'.footer = none ∧ 1 ≤ r'.lineNumber ∧ r'.digest = d
      ∧ r'.delivered = r.delivered ++ entries.map BackupEntry.inOrder := by
  induction entries generalizing r with
  | nil =>
    cases hadd
    exact ⟨r, rfl, hheader, hfooter, hline, rfl, by simp⟩
  | cons e entries ih =>
    rw [List.foldlM_cons] at hadd
    obtain ⟨d1, hfirst, hrest⟩ := of_bind_ok hadd
    have hmem : ∀ n ∈ e.sequence, n ∈ (e :: entries).filterMap (·.sequence) :=
      fun n hn => List.mem_filterMap.mpr ⟨e, List.mem_cons_self, hn⟩
    have hread : readLine host now expected r e.lineText = .ok (r.afterEntry e d1) :=
      readLine_entry hheader hfooter hline (hvalid e List.mem_cons_self) (hfinite e List.mem_cons_self) (hphase e List.mem_cons_self) (fun n hn => hlast n (hmem n hn)) hfirst
    have hlater : ∀ n ∈ entries.filterMap (·.sequence), n ∈ (e :: entries).filterMap (·.sequence) := by
      intro n hn
      obtain ⟨f, hf, hsequence⟩ := List.mem_filterMap.mp hn
      exact List.mem_filterMap.mpr ⟨f, List.mem_cons_of_mem _ hf, hsequence⟩
    have hbefore : ∀ m ∈ e.sequence, ∀ n ∈ entries.filterMap (·.sequence), m < n := by
      intro m hm n hn
      rw [List.filterMap_cons_some hm] at hsequences
      exact (List.pairwise_cons.mp hsequences).1 n hn
    have htail : (entries.filterMap (·.sequence)).Pairwise (· < ·) := by
      refine hsequences.sublist ?_
      exact (List.sublist_cons_self e entries).filterMap _
    obtain ⟨r', hfold, hheader', hfooter', hline', hdigest, hdelivered⟩ := ih (r := r.afterEntry e d1) hheader hfooter
      (Nat.le_add_left _ _) (fun f hf => hvalid f (List.mem_cons_of_mem _ hf))
      (fun f hf => hfinite f (List.mem_cons_of_mem _ hf)) (List.pairwise_cons.mp hkinds).2
      (fun f hf phase hphase => by
        cases hphase
        exact (List.pairwise_cons.mp hkinds).1 f hf)
      htail
      (fun n hn last hmax => by
        rcases Option.or_eq_some_iff.mp hmax with hown | ⟨-, hold⟩
        · exact hbefore last hown n hn
        · exact hlast n (hlater n hn) last hold)
      hrest
    refine ⟨r', ?_, hheader', hfooter', hline', hdigest, ?_⟩
    · rw [List.map_cons, List.foldlM_cons, hread]
      exact hfold
    · rw [hdelivered]
      simp [afterEntry]

end Entry

section Footer

variable {summary : BackupSummary}

theorem wellFormed_footer (h : summary.counts.total < 2 ^ 53) : summary.footer.WellFormed := by
  unfold BackupCounts.total at h
  refine ⟨by simp, trivial, wellFormed_natural ?_, wellFormed_natural ?_, wellFormed_natural ?_,
    wellFormed_natural ?_, wellFormed_natural ?_, trivial, trivial, trivial⟩
  all_goals omega

theorem finite_footer : summary.footer.Finite := by
  simp [BackupSummary.footer, natural, Parsed.Finite, Parsed.nulls, Parsed.nullsFields]

theorem prop_footer (h : summary.counts.total < 2 ^ 53) (key : String) :
    prop key (some summary.footer.sorted) = (prop key (some summary.footer)).map Parsed.sorted :=
  prop_sorted (exists_some (wellFormed_footer h)) key

theorem footerCount_ok {value : Parsed} {field legacyField : String} {required : Bool} {n : Nat}
    (h : prop field (some value) = some (natural n)) (hn : n < 2 ^ 53) :
    footerCount value field legacyField required = .ok n := by
  unfold footerCount countOf
  rw [h]
  simp only [Option.isNone_some, Bool.false_and, Bool.false_eq_true, if_false]
  exact assertSequence_natural (Nat.zero_le n) hn

theorem footerSummary_footer (h : summary.counts.total < 2 ^ 53) (hsha : isSha256 summary.sha256 = true) :
    footerSummary summary.footer.sorted = .ok ⟨summary.counts, summary.sha256, some summary.eventSequences⟩ := by
  have hprop := prop_footer h
  have hcounts := h
  unfold BackupCounts.total at hcounts
  have hrecords : prop "records" (some summary.footer.sorted) = some (natural summary.counts.records) := by
    rw [hprop]
    rfl
  have hevents : prop "events" (some summary.footer.sorted) = some (natural summary.counts.events) := by
    rw [hprop]
    rfl
  have hsnapshots : prop "snapshots" (some summary.footer.sorted) = some (natural summary.counts.snapshots) := by
    rw [hprop]
    rfl
  have hcheckpoints : prop "checkpoints" (some summary.footer.sorted) = some (natural summary.counts.checkpoints) := by
    rw [hprop]
    rfl
  have hidempotency : prop "httpIdempotency" (some summary.footer.sorted)
      = some (natural summary.counts.httpIdempotency) := by
    rw [hprop]
    rfl
  have hsequences : prop "eventSequences" (some summary.footer.sorted) = some (.boolean summary.eventSequences) := by
    rw [hprop]
    rfl
  have hdigest : prop "sha256" (some summary.footer.sorted) = some (.string summary.sha256) := by
    rw [hprop]
    rfl
  have hobject : assertObject (some summary.footer.sorted) "footer" = .ok () := rfl
  unfold footerSummary
  rw [hobject, footerCount_ok hrecords (by omega), footerCount_ok hevents (by omega),
    footerCount_ok hsnapshots (by omega), footerCount_ok hcheckpoints (by omega),
    footerCount_ok hidempotency (by omega), hsequences, hdigest]
  simp only [bind, Except.bind, pure, Except.pure, hsha, Bool.not_true, Bool.false_eq_true, if_false]

theorem readLine_footer (now : String) (expected : Option String) {r : BackupReader} {header : StreamHeader} (hheader : r.header = some header)
    (hfooter : r.footer = none) (hline : 1 ≤ r.lineNumber) (h : summary.counts.total < 2 ^ 53)
    (hsha : isSha256 summary.sha256 = true) :
    readLine host now expected r (canonicalJson summary.footer) = .ok { r with
      lineNumber := r.lineNumber + 1
      footer := some ⟨summary.counts, summary.sha256, some summary.eventSequences⟩ } := by
  have hkind : isText "footer" (prop "kind" (some summary.footer.sorted)) = true := by
    rw [prop_footer h]
    rfl
  unfold readLine
  dsimp only
  rw [parseLine_object (wellFormed_footer h) finite_footer rfl]
  show (if r.lineNumber + 1 = 1 then _ else _) = _
  rw [if_neg (by omega), hheader]
  unfold dataOrFooter
  rw [hfooter, hkind, footerSummary_footer h hsha]
  rfl

end Footer

end BackupReader

theorem read_written {now0 : String} {metadata : Parsed} {header : StreamHeader} {entries : List BackupEntry}
    {d : IncrementalDigest} (hsha : ∀ bytes, isSha256 (host.sha256 bytes) = true)
    (hheader : streamHeader host now0 metadata = .ok header) (hexpected : ∀ t ∈ expected, t = header.tenantId)
    (hvalid : ∀ e ∈ entries, e.Valid host header.tenantId) (hfinite : ∀ e ∈ entries, e.value.Finite)
    (hkinds : entries.Pairwise (fun e f => e.kind.order ≤ f.kind.order))
    (hsequences : (entries.filterMap (·.sequence)).Pairwise (· < ·)) (hlength : entries.length < 2 ^ 53)
    (hadd : entries.foldlM IncrementalDigest.add {} = .ok d) :
    ((canonicalJson header.toParsed :: (entries.map BackupEntry.lineText
        ++ [canonicalJson (d.finish host).footer])).foldlM (BackupReader.readLine host now expected) {}
      >>= BackupReader.finish host)
      = .ok (entries.map BackupEntry.inOrder, ⟨header, d.finish host⟩) := by
  have htotal : (d.finish host).counts.total < 2 ^ 53 := by
    have hcounts := (IncrementalDigest.foldlM_added hadd).2
    show d.counts.total < 2 ^ 53
    rw [hcounts]
    simpa [BackupCounts.total] using hlength
  have hsha' : isSha256 (d.finish host).sha256 = true := hsha _
  obtain ⟨r, hfold, hrheader, hrfooter, hrline, hrdigest, hrdelivered⟩ :=
    BackupReader.foldlM_readLine now expected (r := { lineNumber := 1, header := some header }) rfl rfl le_rfl hvalid
      hfinite hkinds (fun _ _ phase hphase => absurd hphase (Option.not_mem_none phase)) hsequences
      (fun _ _ last hlast => absurd hlast (Option.not_mem_none last)) hadd
  have hsummary : r.digest.finish host = d.finish host := by rw [hrdigest]
  generalize d.finish host = summary at htotal hsha' hsummary ⊢
  have hlines : (entries.map BackupEntry.lineText ++ [canonicalJson summary.footer]).foldlM
      (BackupReader.readLine host now expected) { lineNumber := 1, header := some header }
      = .ok { r with
          lineNumber := r.lineNumber + 1
          footer := some ⟨summary.counts, summary.sha256, some summary.eventSequences⟩ } := by
    rw [List.foldlM_append, hfold, ok_bind, List.foldlM_cons,
      BackupReader.readLine_footer now expected hrheader hrfooter hrline htotal hsha', ok_bind, List.foldlM_nil]
    rfl
  rw [List.foldlM_cons, BackupReader.readLine_header hheader hexpected, ok_bind, hlines, ok_bind]
  unfold BackupReader.finish
  rw [hrheader, hsummary, hrdelivered]
  have hcompare : compareSummary ⟨summary.counts, summary.sha256, some summary.eventSequences⟩ summary = true := by
    simp [compareSummary]
  simp only [hcompare, if_true, List.nil_append]

/-!
# Proofs: what is written is read again

A written file is read as it was written when no text in it has a line separator or a paragraph separator,
and no number in it is infinite. Otherwise a line is torn, or an infinity comes back as `null`.
-/

variable {host : BackupHost} {now : String} {expected : Option String}

theorem unbroken_header (header : StreamHeader) :
    UnbrokenValue header.toParsed ↔ Unbroken header.capturedAt ∧ Unbroken header.tenantId := by
  have hwords : ∀ text ∈ ["format", streamFormat, "version", "capturedAt", "tenantId"], Unbroken text := by decide
  simp only [List.forall_mem_cons] at hwords
  obtain ⟨hformat, hstream, hversion, hcaptured, htenant, -⟩ := hwords
  simp [UnbrokenValue, StreamHeader.toParsed, natural, Parsed.json, Parsed.jsonFields, Json.texts, Json.textsFields,
    hformat, hstream, hversion, hcaptured, htenant]

theorem unbroken_entry (kind : EntryKind) (value : Parsed) (sequence : Option Nat) :
    UnbrokenValue (entryObject kind value sequence) ↔ UnbrokenValue value := by
  have hwords : ∀ text ∈ ["kind", "value", "sequence"], Unbroken text := by decide
  simp only [List.forall_mem_cons] at hwords
  obtain ⟨hkind, hvalue, hsequence, -⟩ := hwords
  have htext : Unbroken kind.text := by cases kind <;> decide
  cases sequence <;>
    simp [UnbrokenValue, entryObject, natural, Parsed.json, Parsed.jsonFields, Json.texts, Json.textsFields,
      hkind, hvalue, hsequence, htext, or_imp, forall_and]

theorem unbroken_footer {summary : BackupSummary} (hsha : isSha256 summary.sha256 = true) : UnbrokenValue summary.footer := by
  have hwords : ∀ text ∈ ["kind", "footer", "records", "events", "snapshots", "checkpoints", "httpIdempotency",
      "eventSequences", "sha256"], Unbroken text := by decide
  simp only [List.forall_mem_cons] at hwords
  obtain ⟨h1, h2, h3, h4, h5, h6, h7, h8, h9, -⟩ := hwords
  have hdigest : Unbroken summary.sha256 := by
    unfold isSha256 at hsha
    rw [Bool.and_eq_true, List.all_eq_true] at hsha
    constructor
    · intro hmem
      exact absurd (hsha.2 _ hmem) (by decide)
    · intro hmem
      exact absurd (hsha.2 _ hmem) (by decide)
  simp [UnbrokenValue, BackupSummary.footer, natural, Parsed.json, Parsed.jsonFields, Json.texts, Json.textsFields,
    h1, h2, h3, h4, h5, h6, h7, h8, h9, hdigest]

theorem clean_of_parsed {lines : List (List Char)} (hobjects : ∀ line ∈ lines, ∃ fields, line = canonicalJson (.object fields))
    (hparsed : ∀ line ∈ readLines (unlines '\n' lines), (parse line).isSome = true) : ∀ line ∈ lines, Clean line := by
  -- the lines before one are clean, so that its first part is read as a line
  have key : ∀ (rest before : List (List Char)), lines = before ++ rest → (∀ line ∈ before, Clean line) →
      ∀ line ∈ rest, Clean line := by
    intro rest
    induction rest with
    | nil => exact fun _ _ _ => List.forall_mem_nil _
    | cons line rest ih =>
      intro before hlines hbefore
      have hclean : Clean line := by
        by_contra htorn
        obtain ⟨first, c, after, rfl, hfirst, hc⟩ := exists_first_lineEnd htorn
        obtain ⟨fields, hfields⟩ := hobjects (first ++ c :: after) (by rw [hlines]; simp)
        have hreturn : c ≠ '\r' := by
          have hmem : c ∈ canonicalJson (.object fields) := by rw [← hfields]; simp
          rcases lineEnd_canonicalJson hmem hc with rfl | rfl <;> decide
        have hread := hparsed first (by
          rw [hlines, unlines_append, unlines_cons, List.append_assoc, List.cons_append]
          exact mem_readLines_torn hbefore hfirst hc hreturn)
        rw [parse_torn hfields.symm hc] at hread
        cases hread
      refine List.forall_mem_cons.mpr ⟨hclean, ih (before ++ [line]) (by rw [hlines]; simp) ?_⟩
      intro l hl
      obtain hl | hl := List.mem_append.mp hl
      · exact hbefore l hl
      · obtain rfl := List.mem_singleton.mp hl
        exact hclean
  exact key lines [] rfl (List.forall_mem_nil _)

section Written

variable {header : StreamHeader} {entries : List BackupEntry} {summary : BackupSummary}

def writtenLines (header : StreamHeader) (entries : List BackupEntry) (summary : BackupSummary) : List (List Char) :=
  canonicalJson header.toParsed :: (entries.map BackupEntry.lineText ++ [canonicalJson summary.footer])

theorem writtenLines_objects : ∀ line ∈ writtenLines header entries summary,
    ∃ fields, line = canonicalJson (.object fields) := by
  intro line hline
  unfold writtenLines at hline
  rcases List.mem_cons.mp hline with rfl | hline
  · exact ⟨_, rfl⟩
  obtain hline | hline := List.mem_append.mp hline
  · obtain ⟨e, -, rfl⟩ := List.mem_map.mp hline
    exact ⟨_, rfl⟩
  · obtain rfl := List.mem_singleton.mp hline
    exact ⟨_, rfl⟩

theorem clean_writtenLines (hsha : isSha256 summary.sha256 = true) :
    (∀ line ∈ writtenLines header entries summary, Clean line) ↔
      Unbroken header.capturedAt ∧ Unbroken header.tenantId ∧ ∀ e ∈ entries, UnbrokenValue e.value := by
  have hfooter : Clean (canonicalJson summary.footer) := clean_canonicalJson.mpr (unbroken_footer hsha)
  unfold writtenLines
  rw [List.forall_mem_cons, List.forall_mem_append, List.forall_mem_map, List.forall_mem_singleton, clean_canonicalJson,
    unbroken_header, and_assoc]
  simp only [BackupEntry.lineText, clean_canonicalJson, unbroken_entry, hfooter, and_true]

theorem lineValue_lineText {e : BackupEntry} (he : e.value.json.WellFormed) :
    lineValue e.lineText = some e.value.json.sorted.parsed := by
  have hparse := parse_canonicalJson (wellFormed_entryObject_json e.kind e.sequence he)
  have hvalue : (entryObject e.kind e.value e.sequence).json.sorted.parsed
      = .object ([("kind", .string e.kind.text)] ++ e.sequence.toList.map (fun n => ("sequence", (natural n).json.parsed))
        ++ [("value", e.value.json.sorted.parsed)]) := by
    rw [← Parsed.json_sorted, sorted_entryObject, ← Parsed.json_sorted]
    cases e.sequence <;> rfl
  unfold lineValue BackupEntry.lineText
  rw [hparse, Option.bind_some, hvalue]
  have hkind : BackupReader.kindOf (.object ([("kind", .string e.kind.text)]
      ++ e.sequence.toList.map (fun n => ("sequence", (natural n).json.parsed)) ++ [("value", e.value.json.sorted.parsed)]))
      = some e.kind := by
    show EntryKind.ofText e.kind.text = some e.kind
    cases e.kind <;> rfl
  rw [hkind, Option.isSome_some, if_pos rfl]
  cases e.sequence <;> rfl

theorem lineValue_footer (hwellFormed : summary.footer.WellFormed) : lineValue (canonicalJson summary.footer) = none := by
  unfold lineValue
  rw [parse_canonicalJson_finite hwellFormed BackupReader.finite_footer, Option.bind_some, BackupReader.kindOf_footer]
  · rfl
  · exact congrArg (isText "footer") (prop_sorted (exists_some hwellFormed) "kind")

theorem fileValues_written (hclean : ∀ line ∈ writtenLines header entries summary, Clean line)
    (hentries : ∀ e ∈ entries, e.value.json.WellFormed) (hfooter : summary.footer.WellFormed) :
    fileValues (utf8 (unlines '\n' (writtenLines header entries summary)))
      = entries.map (fun e => e.value.json.sorted.parsed) := by
  unfold fileValues
  rw [decodeBytes_utf8, readLines_unlines hclean]
  show (entries.map BackupEntry.lineText ++ [canonicalJson summary.footer]).filterMap lineValue = _
  rw [List.filterMap_append, List.filterMap_cons_none (lineValue_footer hfooter), List.filterMap_nil, List.append_nil,
    List.filterMap_map, ← List.filterMap_eq_map]
  refine List.filterMap_congr ?_
  intro e he
  exact lineValue_lineText (hentries e he)

theorem of_roundTrips {text : List Char} {result : BackupResult} (hsha : isSha256 summary.sha256 = true)
    (htext : text = unlines '\n' (writtenLines header entries summary))
    (hentries : ∀ e ∈ entries, e.value.WellFormed) (hfooter : summary.footer.WellFormed)
    (h : RoundTrips host now expected entries text result) :
    Unbroken header.capturedAt ∧ Unbroken header.tenantId ∧ ∀ e ∈ entries, UnbrokenValue e.value ∧ e.value.Finite := by
  subst htext
  obtain ⟨delivered, hread, hsame⟩ := h
  have hfile := accepted hread
  have hclean : ∀ line ∈ writtenLines header entries summary, Clean line := by
    refine clean_of_parsed writtenLines_objects ?_
    rw [← decodeBytes_utf8 (unlines '\n' (writtenLines header entries summary))]
    exact hfile.parsed
  obtain ⟨hcaptured, htenant, hunbroken⟩ := (clean_writtenLines hsha).mp hclean
  refine ⟨hcaptured, htenant, fun e he => ⟨hunbroken e he, ?_⟩⟩
  have hvalues := hfile.values
  rw [fileValues_written hclean (fun e he => Parsed.wellFormed_json (hentries e he)) hfooter] at hvalues
  obtain ⟨i, hi⟩ := List.getElem?_of_mem he
  have hlength := hsame.length_eq
  have hlt : i < delivered.length := by
    rw [← hlength]
    exact (List.getElem?_eq_some_iff.mp hi).1
  have hget : (delivered.map (·.value))[i]? = (entries.map (fun e => e.value.json.sorted.parsed))[i]? := by rw [hvalues]
  rw [List.getElem?_map, List.getElem?_map, hi, List.getElem?_eq_getElem hlt] at hget
  have hvalue : delivered[i].value = e.value.json.sorted.parsed := Option.some.inj hget
  have hvaluesame : e.value.Same delivered[i].value := by
    have hpair := hsame.get (i := i) (by rw [hlength]; exact hlt) hlt
    have hentry : entries.get ⟨i, by rw [hlength]; exact hlt⟩ = e := by
      obtain ⟨hlt', hget'⟩ := List.getElem?_eq_some_iff.mp hi
      exact hget'
    rw [hentry] at hpair
    exact hpair.value
  rw [hvaluesame.finite, hvalue, Parsed.parsed_sorted, Parsed.finite_sorted]
  exact Parsed.finite_parsed_json (hentries e he)

end Written

theorem Ordered.added {entries : List BackupEntry} (h : Ordered entries) :
    ∃ d, entries.foldlM IncrementalDigest.add {} = .ok d := by
  rcases h.sequences with hnone | ⟨hsome, -⟩
  · refine IncrementalDigest.foldlM_add false ?_ {} (fun m hm => absurd hm (Option.not_mem_none m))
    intro e he _
    rw [hnone e he]
    rfl
  · refine IncrementalDigest.foldlM_add true ?_ {} (fun m hm => absurd hm (Option.not_mem_none m))
    intro e he hkind
    exact Option.isSome_iff_ne_none.mpr (hsome e he hkind)

theorem Ordered.increasing {entries : List BackupEntry} (h : Ordered entries) :
    (entries.filterMap (·.sequence)).Pairwise (· < ·) := by
  rcases h.sequences with hnone | ⟨-, hincreasing⟩
  · rw [List.filterMap_eq_nil_iff.mpr hnone]
    exact List.Pairwise.nil
  · exact hincreasing

theorem of_roundTrips_digest (hsha : ∀ bytes, isSha256 (host.sha256 bytes) = true) (header : StreamHeader)
    {entries : List BackupEntry} (hvalid : ∀ e ∈ entries, e.Valid host header.tenantId) (hlength : entries.length < 2 ^ 53)
    {d : IncrementalDigest} (hadd : entries.foldlM IncrementalDigest.add {} = .ok d) (now : String)
    (expected : Option String)
    (h : RoundTrips host now expected entries (unlines '\n' (writtenLines header entries (d.finish host)))
      ⟨header, d.finish host⟩) :
    Unbroken header.capturedAt ∧ Unbroken header.tenantId ∧ ∀ e ∈ entries, UnbrokenValue e.value ∧ e.value.Finite := by
  refine of_roundTrips (hsha _ : isSha256 (d.finish host).sha256) rfl (fun e he => (hvalid e he).wellFormed) (BackupReader.wellFormed_footer ?_) h
  rw [show (d.finish host).counts = d.counts from rfl, (IncrementalDigest.foldlM_added hadd).2]
  simpa [BackupCounts.total] using hlength

theorem sameEntry_inOrder (e : BackupEntry) : SameEntry e e.inOrder := ⟨rfl, rfl, Parsed.same_sorted e.value⟩

namespace Example

def exampleHost : BackupHost where
  sha256 _ := "e3b0c44298fc1c149afbf4c8996fb92427ae41e4649b934ca495991b7852b855"
  dateParse _ := some 0

def metadata : Parsed :=
  .object [("capturedAt", .string "2026-01-01T00:00:00.000Z"), ("tenantId", .string "acme")]

def header : StreamHeader := { capturedAt := "2026-01-01T00:00:00.000Z", tenantId := "acme" }

def record (content : String) : BackupEntry where
  kind := .record
  value := .object [("envelope", .object [("memoryId", .string "m-1"), ("tenantId", .string "acme"),
    ("content", .string content)])]
  sequence := none
  sequence_of_event := fun h => absurd rfl h

theorem isSha256_sha256 (bytes : List Nat) : isSha256 (exampleHost.sha256 bytes) = true := by
  have hdigest : isSha256 (exampleHost.sha256 []) = true := by decide +kernel
  exact hdigest

theorem streamHeader_metadata (now : String) : streamHeader exampleHost now metadata = .ok header := by rfl

theorem valid_record (content : String) : ∀ e ∈ [record content], e.Valid exampleHost header.tenantId := by
  intro e he
  obtain rfl := List.mem_singleton.mp he
  refine ⟨?_, ?_, fun n hn => absurd hn (Option.not_mem_none n)⟩
  · simp [record, Parsed.WellFormed, Parsed.WellFormedFields]
  · rfl

theorem ordered_record (content : String) : Ordered [record content] where
  kinds := List.pairwise_singleton _ _
  sequences := .inl (fun e he => by rw [List.mem_singleton.mp he]; rfl)

end Example

end Premise.Backup
