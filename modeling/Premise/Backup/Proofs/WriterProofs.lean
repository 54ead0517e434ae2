import Premise.Backup.Proofs.FramingProofs

/-!
# Proofs: the checks do not see the order of properties

An entry that is accepted is accepted with its properties in key order.
-/

namespace Premise.Backup

open Collections Js

variable {host : BackupHost} {value : Option Parsed}

def Exists (value : Option Parsed) : Prop := ∀ v ∈ value, v.WellFormed

/-- What a list without repeated keys holds under a key does not depend on its order. -/
theorem find?_perm {α : Type} {l l' : List (String × α)} (hperm : l.Perm l') (hkeys : (l.map Prod.fst).Nodup)
    (key : String) : l.find? (fun p => p.1 = key) = l'.find? (fun p => p.1 = key) := by
  have hkeys' : (l'.map Prod.fst).Nodup := (hperm.map Prod.fst).nodup_iff.mp hkeys
  cases h : l.find? (fun p => p.1 = key) with
  | none =>
    symm
    rw [List.find?_eq_none] at h ⊢
    exact fun p hp => h p (hperm.mem_iff.mpr hp)
  | some p =>
    have hmem := List.mem_of_find?_eq_some h
    have hkey : p.1 = key := by simpa using List.find?_some h
    cases h' : l'.find? (fun p => p.1 = key) with
    | none => exact absurd hkey (by simpa using List.find?_eq_none.mp h' p (hperm.mem_iff.mp hmem))
    | some q =>
      have hq : q.1 = key := by simpa using List.find?_some h'
      have hqmem := hperm.mem_iff.mpr (List.mem_of_find?_eq_some h')
      exact congrArg some (List.inj_on_of_nodup_map hkeys hmem hqmem (hkey.trans hq.symm))

theorem prop_sorted (h : Exists value) (key : String) :
    prop key (value.map Parsed.sorted) = (prop key value).map Parsed.sorted := by
  cases value with
  | none => rfl
  | some v =>
    cases v with
    | object fields =>
      have hv : (Parsed.object fields).WellFormed := h _ rfl
      rw [Parsed.WellFormed] at hv
      have hkeys : ((Parsed.sortedFields fields).map Prod.fst).Nodup := by
        rw [Parsed.sortedFields_eq, List.map_map]
        exact hv.1
      show ((JsValue.sortByKey (Parsed.sortedFields fields)).find? (fun p => p.1 = key)).map Prod.snd
        = ((fields.find? (fun p => p.1 = key)).map Prod.snd).map Parsed.sorted
      rw [find?_perm (sortByKey_perm _) (((sortByKey_perm _).map Prod.fst).nodup_iff.mpr hkeys),
        Parsed.sortedFields_eq, List.find?_map, Option.map_map, Option.map_map]
      rfl
    | _ => rfl

theorem wellFormed_of_mem_fields {fields : List (String × Parsed)} (h : Parsed.WellFormedFields fields)
    {p : String × Parsed} (hp : p ∈ fields) : p.2.WellFormed := by
  induction fields with
  | nil => cases hp
  | cons q fields ih =>
    rcases List.mem_cons.mp hp with rfl | hp
    · exact h.1
    · exact ih h.2 hp

theorem exists_prop (h : Exists value) (key : String) : Exists (prop key value) := by
  intro w hw
  unfold prop at hw
  split at hw
  · rename_i fields
    have hv : (Parsed.object fields).WellFormed := h _ rfl
    rw [Parsed.WellFormed] at hv
    obtain ⟨p, hp, rfl⟩ := Option.map_eq_some_iff.mp hw
    exact wellFormed_of_mem_fields hv.2 (List.mem_of_find?_eq_some hp)
  · cases hw

theorem isText_sorted (text : String) : isText text (value.map Parsed.sorted) = isText text value := by
  rcases value with _ | (_ | _ | _ | _ | _ | _) <;> rfl

theorem isNullish_sorted : isNullish (value.map Parsed.sorted) = isNullish value := by
  rcases value with _ | (_ | _ | _ | _ | _ | _) <;> rfl

theorem assertObject_sorted (label : String) : assertObject (value.map Parsed.sorted) label = assertObject value label := by
  rcases value with _ | (_ | _ | _ | _ | _ | _) <;> rfl

theorem assertString_sorted (label : String) : assertString (value.map Parsed.sorted) label = assertString value label := by
  rcases value with _ | (_ | _ | _ | _ | _ | _) <;> rfl

theorem safeInteger_sorted : safeInteger (value.map Parsed.sorted) = safeInteger value := by
  rcases value with _ | (_ | _ | _ | _ | _ | _) <;> rfl

theorem assertSequence_sorted (label : String) (minimum : Nat) :
    assertSequence (value.map Parsed.sorted) label minimum = assertSequence value label minimum := by
  unfold assertSequence
  rw [safeInteger_sorted]

theorem instantOf_sorted : instantOf host (value.map Parsed.sorted) = instantOf host value := by
  rcases value with _ | (_ | _ | _ | _ | _ | _) <;> rfl

theorem assertDateTime_sorted (label : String) :
    assertDateTime host (value.map Parsed.sorted) label = assertDateTime host value label := by
  unfold assertDateTime
  rw [instantOf_sorted]

theorem whenDefined_sorted (label : String) : whenDefined (value.map Parsed.sorted) (fun v => assertDateTime host v label)
      = whenDefined value (fun v => assertDateTime host v label) := by
  unfold whenDefined
  dsimp only
  rw [assertDateTime_sorted, Option.isNone_map]

theorem isRuntimeSnapshot_sorted (h : Exists value) :
    isRuntimeSnapshot (value.map Parsed.sorted) = isRuntimeSnapshot value := by
  unfold isRuntimeSnapshot
  rw [prop_sorted h, prop_sorted h, prop_sorted h, prop_sorted h, isText_sorted]
  congr 1
  · congr 1
    · congr 1
      rcases prop "version" value with _ | (_ | _ | _ | _ | _ | _) <;> rfl
    · rcases prop "records" value with _ | (_ | _ | _ | _ | _ | _) <;> rfl
  · rcases prop "events" value with _ | (_ | _ | _ | _ | _ | _) <;> rfl

theorem assertEntryTenant_sorted (h : Exists value) (kind : EntryKind) (tenantId : String) :
    assertEntryTenant kind (value.map Parsed.sorted) tenantId = assertEntryTenant kind value tenantId := by
  unfold assertEntryTenant
  rw [prop_sorted h, prop_sorted h, prop_sorted (exists_prop h "envelope")]
  by_cases hkind : kind = .record
  · subst hkind
    simp [isText_sorted]
  · simp [hkind, isText_sorted]

theorem validateSnapshot_sorted (h : Exists value) :
    validateSnapshot host (value.map Parsed.sorted) = validateSnapshot host value := by
  unfold validateSnapshot
  dsimp only
  rw [prop_sorted h, prop_sorted h, prop_sorted h, prop_sorted h, prop_sorted (exists_prop h "snapshot"),
    assertString_sorted, assertDateTime_sorted, whenDefined_sorted, assertObject_sorted,
    isRuntimeSnapshot_sorted (exists_prop h "snapshot"), assertDateTime_sorted, instantOf_sorted, instantOf_sorted]

theorem forM_assertHeader {fields : List (String × Parsed)} :
    fields.forM assertHeader = .ok () ↔ ∀ p ∈ fields, ∃ s, p.2 = .string s := by
  induction fields with
  | nil => exact iff_of_true rfl (List.forall_mem_nil _)
  | cons p fields ih =>
    obtain ⟨k, v⟩ := p
    rw [List.forall_mem_cons, ← ih]
    show (assertHeader (k, v) >>= fun _ => fields.forM assertHeader) = _ ↔ _
    cases v <;> simp [assertHeader, bind, Except.bind]

theorem assertHeaders_sorted (h : assertHeaders value = .ok ()) : assertHeaders (value.map Parsed.sorted) = .ok () := by
  rcases value with _ | (_ | _ | _ | _ | _ | fields) <;> try exact h
  have hall : ∀ p ∈ fields, ∃ s, p.2 = .string s := forM_assertHeader.mp h
  refine forM_assertHeader.mpr ?_
  intro p hp
  have hmem := (sortByKey_perm _).mem_iff.mp hp
  rw [Parsed.sortedFields_eq] at hmem
  obtain ⟨q, hq, rfl⟩ := List.mem_map.mp hmem
  obtain ⟨s, hs⟩ := hall q hq
  exact ⟨s, by rw [hs]; rfl⟩

theorem whenDefined_headers (h : whenDefined value assertHeaders = .ok ()) :
    whenDefined (value.map Parsed.sorted) assertHeaders = .ok () := by
  unfold whenDefined at h ⊢
  rw [Option.isNone_map]
  split
  · rfl
  · rename_i hdefined
    rw [if_neg hdefined] at h
    exact assertHeaders_sorted h

theorem check_then {x y : Except JsError Unit} : (x >>= fun _ => y) = .ok () ↔ x = .ok () ∧ y = .ok () := by
  cases x with
  | error | ok => simp [bind, Except.bind]

theorem assertRequest_sorted (h : Exists value) : assertRequest (value.map Parsed.sorted) = assertRequest value := by
  unfold assertRequest
  simp only [prop_sorted h, assertString_sorted, isText_sorted]

theorem assertResponse_sorted (h : Exists value) : assertResponse (value.map Parsed.sorted) = assertResponse value := by
  unfold assertResponse
  simp only [prop_sorted h, isText_sorted, isNullish_sorted, assertSequence_sorted, Option.isNone_map]

theorem validateHttpIdempotency_sorted (h : Exists value) (haccepted : validateHttpIdempotency host value = .ok ()) :
    validateHttpIdempotency host (value.map Parsed.sorted) = .ok () := by
  unfold validateHttpIdempotency at haccepted ⊢
  obtain ⟨hrequest, haccepted⟩ := check_then.mp haccepted
  obtain ⟨hresponse, haccepted⟩ := check_then.mp haccepted
  obtain ⟨hheaders, htimes⟩ := check_then.mp haccepted
  rw [assertRequest_sorted h, assertResponse_sorted h, prop_sorted h, prop_sorted h, prop_sorted h,
    whenDefined_sorted, whenDefined_sorted]
  exact check_then.mpr ⟨hrequest, check_then.mpr ⟨hresponse, check_then.mpr ⟨whenDefined_headers hheaders, htimes⟩⟩⟩

theorem validateEntry_sorted {kind : EntryKind} {tenantId : String} (h : Exists value)
    (haccepted : validateEntry host kind value tenantId = .ok ()) :
    validateEntry host kind (value.map Parsed.sorted) tenantId = .ok () := by
  unfold validateEntry at haccepted ⊢
  obtain ⟨hobject, haccepted⟩ := check_then.mp haccepted
  obtain ⟨htenant, haccepted⟩ := check_then.mp haccepted
  refine check_then.mpr ⟨(assertObject_sorted _).trans hobject,
    check_then.mpr ⟨(assertEntryTenant_sorted h _ _).trans htenant, ?_⟩⟩
  cases kind with
  | record =>
    rwa [prop_sorted h, prop_sorted (exists_prop h "envelope"), assertObject_sorted, assertString_sorted]
  | event =>
    dsimp only at haccepted ⊢
    rwa [prop_sorted h, prop_sorted h, prop_sorted h, assertString_sorted, assertString_sorted, whenDefined_sorted]
  | snapshot => exact (validateSnapshot_sorted h).trans haccepted
  | checkpoint =>
    dsimp only at haccepted ⊢
    rwa [prop_sorted h, prop_sorted h, prop_sorted h, assertString_sorted, assertSequence_sorted, whenDefined_sorted]
  | httpIdempotency => exact validateHttpIdempotency_sorted h haccepted

/-!
# Proofs: writing a backup

The file of a list of entries: a line for the header, one for every entry, and one for the footer. The
digest does not see the order of properties.
-/

open Control

variable {host : BackupHost}

namespace BackupEntry

def lineText (e : BackupEntry) : List Char := canonicalJson (entryObject e.kind e.value e.sequence)

def inOrder (e : BackupEntry) : BackupEntry := { e with value := e.value.sorted }

end BackupEntry

theorem toInteger_natural (n : Nat) : (Number.finite (n : ℚ)).toInteger = some (n : Int) := by
  simp [Number.toInteger, Number.toFinite]

theorem isSafeInteger_natCast {n : Nat} (h : n < 2 ^ 53) : isSafeInteger n = true := by
  unfold isSafeInteger maxSafeInteger
  rw [Bool.and_eq_true]
  exact ⟨decide_eq_true (by omega), decide_eq_true (by omega)⟩

theorem assertSequence_natural {n minimum : Nat} {label : String} (hmin : minimum ≤ n) (h : n < 2 ^ 53) :
    assertSequence (some (natural n)) label minimum = .ok n := by
  have hsafe : safeInteger (some (natural n)) = some (n : Int) := by
    unfold safeInteger natural
    dsimp only
    rw [toInteger_natural, Option.bind_some, if_pos (isSafeInteger_natCast h)]
  unfold assertSequence
  rw [hsafe]
  dsimp only
  rw [if_pos (by exact_mod_cast hmin)]
  rfl

namespace BackupCounts

def total (c : BackupCounts) : Nat := c.records + c.events + c.snapshots + c.checkpoints + c.httpIdempotency

theorem total_count (c : BackupCounts) (kind : EntryKind) : (c.count kind).total = c.total + 1 := by
  cases kind <;> simp only [count, total] <;> omega

end BackupCounts

variable {d d' : IncrementalDigest} {entries : List BackupEntry}

namespace IncrementalDigest

theorem add_inOrder (d : IncrementalDigest) (e : BackupEntry) (hsorted : e.value.sorted.Same e.value) :
    d.add e.inOrder = d.add e := by
  have hline : dataLine e.kind e.value.sorted e.sequence = dataLine e.kind e.value e.sequence := by
    unfold dataLine
    rw [canonicalJson_congr (same_entryObject hsorted)]
  unfold add BackupEntry.inOrder
  rw [hline]

/-- What one entry adds. -/
structure Added (d d' : IncrementalDigest) (e : BackupEntry) : Prop where
  hashed : d'.hashed = d.hashed ++ dataLine e.kind e.value e.sequence
  counts : d'.counts = d.counts.count e.kind

theorem added {e : BackupEntry} (h : d.add e = .ok d') : Added d d' e := by
  unfold add at h
  dsimp only at h
  split_ifs at h
  all_goals
    cases h
    exact ⟨rfl, rfl⟩

theorem foldlM_added (h : entries.foldlM add d = .ok d') :
    d'.hashed = d.hashed ++ unlines '\n' (entries.map BackupEntry.lineText)
      ∧ d'.counts.total = d.counts.total + entries.length := by
  refine of_foldlM_ok (fun done d1 => d1.hashed = d.hashed ++ unlines '\n' (done.map BackupEntry.lineText)
    ∧ d1.counts.total = d.counts.total + done.length) ?_ ⟨by simp, by simp⟩ h
  rintro done e - d1 d2 ⟨hhashed, hcounts⟩ hadd
  obtain ⟨hhashed', hcounts'⟩ := added hadd
  refine ⟨?_, ?_⟩
  · rw [hhashed', hhashed, dataLine_eq]
    simp [BackupEntry.lineText]
  · rw [hcounts', BackupCounts.total_count, hcounts]
    simp
    omega

theorem foldlM_mode (h : entries.foldlM add d = .ok d') :
    ∀ e ∈ entries, e.kind = .event → d'.eventSequenceMode = some e.sequence.isSome := by
  refine of_foldlM_ok (fun done d1 => ∀ e ∈ done, e.kind = .event → d1.eventSequenceMode = some e.sequence.isSome) ?_
    (List.forall_mem_nil _) h
  intro done e _ d1 d2 hdone hadd
  rw [List.forall_mem_append, List.forall_mem_singleton]
  unfold add at hadd
  by_cases hkind : e.kind = .event
  · rw [if_neg (by simpa using hkind)] at hadd
    split at hadd
    · cases hadd
    · rename_i hmode
      cases hadd
      refine ⟨?_, fun _ => rfl⟩
      intro f hf hfkind
      have hsame : f.sequence.isSome = e.sequence.isSome := by simpa [hdone f hf hfkind] using hmode
      rw [hsame]
  · rw [if_pos hkind] at hadd
    cases hadd
    exact ⟨hdone, fun h => absurd h hkind⟩

theorem foldlM_add (mode : Bool) (hmode : ∀ e ∈ entries, e.kind = .event → e.sequence.isSome = mode)
    (d : IncrementalDigest) (hd : ∀ m ∈ d.eventSequenceMode, m = mode) : ∃ d', entries.foldlM add d = .ok d' := by
  induction entries generalizing d with
  | nil => exact ⟨d, rfl⟩
  | cons e entries ih =>
    have hrest : ∀ e' ∈ entries, e'.kind = .event → e'.sequence.isSome = mode :=
      fun e' he' => hmode e' (List.mem_cons_of_mem _ he')
    have hadd : ∃ d1, d.add e = .ok d1 ∧ ∀ m ∈ d1.eventSequenceMode, m = mode := by
      unfold add
      by_cases hkind : e.kind = .event
      · have hsome := hmode e List.mem_cons_self hkind
        rw [if_neg (by simpa using hkind), hsome]
        have hany : d.eventSequenceMode.any (fun m => m ≠ mode) = false := by
          rw [Option.any_eq_false]
          intro m hm
          simp [hd m hm]
        rw [hany]
        exact ⟨_, rfl, fun m hm => (Option.some.inj hm).symm⟩
      · rw [if_pos hkind]
        exact ⟨_, rfl, hd⟩
    obtain ⟨d1, hfirst, hd1⟩ := hadd
    obtain ⟨d', hd'⟩ := ih hrest d1 hd1
    exact ⟨d', by rw [List.foldlM_cons, hfirst]; exact hd'⟩

end IncrementalDigest

namespace BackupWriter

theorem writeEntry_ok {w : BackupWriter} {e : BackupEntry} (hvalid : e.Valid host w.header.tenantId)
    (hadd : w.digest.add e = .ok d) :
    w.writeEntry host e = .ok { w with digest := d, written := w.written ++ (e.lineText ++ ['\n']) } := by
  unfold writeEntry
  rw [hvalid.accepted]
  cases hsequence : e.sequence with
  | none =>
    simp only [bind, Except.bind, pure, Except.pure, hadd, ← hsequence, trimEnd_dataLine, List.append_assoc]
    rfl
  | some n =>
    obtain ⟨hmin, hmax⟩ := hvalid.sequence n hsequence
    simp only [bind, Except.bind, pure, Except.pure, assertSequence_natural hmin hmax, hadd, ← hsequence,
      trimEnd_dataLine, List.append_assoc]
    rfl

theorem foldlM_writeEntry {w : BackupWriter} (hvalid : ∀ e ∈ entries, e.Valid host w.header.tenantId)
    (hadd : entries.foldlM IncrementalDigest.add w.digest = .ok d) :
    entries.foldlM (writeEntry host) w
      = .ok { w with digest := d, written := w.written ++ unlines '\n' (entries.map BackupEntry.lineText) } := by
  induction entries generalizing w with
  | nil =>
    cases hadd
    simp [pure, Except.pure]
  | cons e entries ih =>
    rw [List.foldlM_cons] at hadd
    obtain ⟨d1, hfirst, hrest⟩ := of_bind_ok hadd
    rw [List.foldlM_cons, writeEntry_ok (hvalid e List.mem_cons_self) hfirst]
    show entries.foldlM (writeEntry host) _ = _
    rw [ih (w := { w with digest := d1, written := w.written ++ (e.lineText ++ ['\n']) })
      (fun e' he' => hvalid e' (List.mem_cons_of_mem _ he')) hrest]
    simp

end BackupWriter

theorem writeBackup_ok {now : String} {metadata : Parsed} {header : StreamHeader}
    (hheader : streamHeader host now metadata = .ok header) (hvalid : ∀ e ∈ entries, e.Valid host header.tenantId)
    (hadd : entries.foldlM IncrementalDigest.add {} = .ok d) :
    writeBackup host now metadata entries
      = .ok (unlines '\n' (canonicalJson header.toParsed :: (entries.map BackupEntry.lineText
          ++ [canonicalJson (d.finish host).footer])), ⟨header, d.finish host⟩) := by
  unfold writeBackup BackupWriter.create
  rw [hheader]
  simp only [bind, Except.bind, pure, Except.pure]
  rw [BackupWriter.foldlM_writeEntry (w := { header, written := canonicalJson header.toParsed ++ ['\n'] }) hvalid hadd]
  simp

end Premise.Backup
