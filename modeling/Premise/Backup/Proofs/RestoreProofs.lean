import Premise.Backup.Proofs.AcceptedProofs
import Premise.Backup.Restore

/-!
# Proofs: numbers after a restore

A restore takes numbers from the sequence for events that come without one, and otherwise leaves it until the
end. There it is set behind the rows that the session sees, which are those of its own tenant.
-/

namespace Premise.Backup

open Control Js Postgres

variable {s s' : Session} {value : Option Parsed} {sequence : Option Nat}

section Restore

variable {types : SqlTypes} {host : BackupHost} {tenantId : String}

/-! ## Insertions -/

/-- The events, and the sequence, of two sessions are the same. -/
structure SameEvents (s s' : Session) : Prop where
  events : s'.tables.events = s.tables.events
  nextSequence : s'.tables.nextSequence = s.tables.nextSequence

theorem sameEvents_insertRecord {record : Option Parsed} (h : insertRecord types host tenantId s record = .ok s') :
    SameEvents s s' := by
  unfold insertRecord at h
  obtain ⟨_, -, h⟩ := of_bind_ok h
  obtain ⟨_, -, h⟩ := of_bind_ok h
  obtain ⟨_, -, h⟩ := of_bind_ok h
  obtain ⟨_, -, h⟩ := of_bind_ok h
  obtain ⟨_, -, h⟩ := of_bind_ok h
  cases h
  exact ⟨rfl, rfl⟩

theorem sameEvents_insertSnapshot (h : insertSnapshot types host tenantId s value = .ok s') : SameEvents s s' := by
  unfold insertSnapshot at h
  obtain ⟨_, -, h⟩ := of_bind_ok h
  obtain ⟨_, -, h⟩ := of_bind_ok h
  obtain ⟨_, -, h⟩ := of_bind_ok h
  obtain ⟨_, -, h⟩ := of_bind_ok h
  cases h
  exact ⟨rfl, rfl⟩

theorem sameEvents_insertCheckpoint (h : insertCheckpoint types host tenantId s value = .ok s') : SameEvents s s' := by
  unfold insertCheckpoint at h
  obtain ⟨_, -, h⟩ := of_bind_ok h
  obtain ⟨_, -, h⟩ := of_bind_ok h
  obtain ⟨_, -, h⟩ := of_bind_ok h
  cases h
  exact ⟨rfl, rfl⟩

theorem sameEvents_insertHttpIdempotency (h : insertHttpIdempotency types host tenantId s value = .ok s') :
    SameEvents s s' := by
  unfold insertHttpIdempotency at h
  obtain ⟨_, -, h⟩ := of_bind_ok h
  obtain ⟨_, -, h⟩ := of_bind_ok h
  obtain ⟨_, -, h⟩ := of_bind_ok h
  obtain ⟨_, -, h⟩ := of_bind_ok h
  cases h
  exact ⟨rfl, rfl⟩

/-- The number that an event gets. -/
inductive Numbered (next next' : Nat) : Option Nat → Nat → Prop
  | given (n : Nat) : 1 ≤ n → next' = next → Numbered next next' (some n) n
  | taken : next' = next + 1 → Numbered next next' none next

theorem of_number {n : Nat} (h : s.number sequence = .ok (n, s')) (hsequence : ∀ m ∈ sequence, 1 ≤ m) :
    s'.tables.events = s.tables.events ∧ Numbered s.tables.nextSequence s'.tables.nextSequence sequence n := by
  unfold Session.number at h
  split at h
  · cases h
    exact ⟨rfl, .given _ (hsequence _ rfl) rfl⟩
  · split at h
    · cases h
    · cases h
      exact ⟨rfl, .taken rfl⟩

theorem of_inserted {α : Type} {result : Option α} {what name : String} {a : α} (h : inserted result what name = .ok a) :
    result = some a := by
  cases result with
  | none => cases h
  | some b => rw [Except.ok.inj h]

theorem of_assertEventSequence (h : assertEventSequence sequence = .ok ()) : ∀ n ∈ sequence, 1 ≤ n := by
  rintro n rfl
  cases hassert : assertSequence (some (natural n)) "event.sequence" 1 with
  | error e =>
    unfold assertEventSequence at h
    dsimp only at h
    rw [hassert] at h
    cases h
  | ok m =>
    unfold assertSequence at hassert
    split at hassert
    · rename_i i hsafe
      split at hassert
      · rename_i hle
        unfold safeInteger natural at hsafe
        dsimp only at hsafe
        rw [toInteger_natural, Option.bind_some] at hsafe
        split at hsafe
        · cases hsafe
          exact_mod_cast hle
        · cases hsafe
      · cases hassert
    · cases hassert

theorem of_insertEvent_session {event : NewEvent} (h : s.insertEvent types sequence event = .ok (some s')) :
    ∃ n s1, s.number sequence = .ok (n, s1) ∧ s1.conflicts n event = false
      ∧ s' = { s1 with tables.events := s1.tables.events ++ [⟨n, event⟩] } := by
  unfold Session.insertEvent at h
  obtain ⟨-, h⟩ := of_check_ok h
  obtain ⟨⟨n, s1⟩, hnumber, h⟩ := of_bind_ok h
  obtain ⟨-, h⟩ := of_check_ok h
  obtain ⟨-, h⟩ := of_check_ok h
  split at h
  · cases h
  · rename_i hconflicts
    exact ⟨n, s1, hnumber, by simpa using hconflicts, (Option.some.inj (Except.ok.inj h)).symm⟩

theorem of_insertEvent {event : Option Parsed} (h : insertEvent types host tenantId s event sequence = .ok s') :
    ∃ n row, s'.tables.events = s.tables.events ++ [⟨n, row⟩] ∧ row.tenantId = tenantId
      ∧ (∀ stored ∈ s.tables.events, stored.sequence ≠ n)
      ∧ Numbered s.tables.nextSequence s'.tables.nextSequence sequence n := by
  unfold insertEvent at h
  obtain ⟨_, -, h⟩ := of_bind_ok h
  obtain ⟨_, hsequence, h⟩ := of_bind_ok h
  obtain ⟨document, -, h⟩ := of_bind_ok h
  obtain ⟨result, hinsert, h⟩ := of_bind_ok h
  obtain rfl := of_inserted h
  obtain ⟨n, s1, hnumber, hconflicts, rfl⟩ := of_insertEvent_session hinsert
  obtain ⟨hevents, hnumbered⟩ := of_number hnumber (of_assertEventSequence hsequence)
  refine ⟨n, newEvent tenantId event document, ?_, rfl, ?_, hnumbered⟩
  · rw [hevents]
  · intro stored hstored heq
    unfold Session.conflicts at hconflicts
    rw [List.any_eq_false] at hconflicts
    refine hconflicts stored (by rw [hevents]; exact hstored) ?_
    rw [heq, decide_eq_true rfl, Bool.true_or]

/-! ## The run of the sink -/

namespace RestoreState

/-- What a call of the sink does to the events. -/
inductive SinkStep (tenantId : String) (r r' : RestoreState) (entry : BackupEntry) : Prop
  | quiet : entry.sequence = none → SameEvents r.session r'.session → r'.maxSequence = r.maxSequence →
      entry.kind ≠ .event → SinkStep tenantId r r' entry
  | event (n : Nat) (row : NewEvent) :
      r'.session.tables.events = r.session.tables.events ++ [⟨n, row⟩] → row.tenantId = tenantId →
      (∀ stored ∈ r.session.tables.events, stored.sequence ≠ n) →
      Numbered r.session.tables.nextSequence r'.session.tables.nextSequence entry.sequence n →
      r'.maxSequence = entry.sequence.elim r.maxSequence (max r.maxSequence) → entry.kind = .event →
      SinkStep tenantId r r' entry

theorem sequence_eq_none {entry : BackupEntry} (h : entry.kind ≠ .event) : entry.sequence = none := by
  by_contra hne
  exact h (entry.sequence_of_event hne)

theorem sinkStep {r r' : RestoreState} {entry : BackupEntry} (h : r.sink types host tenantId entry = .ok r') :
    SinkStep tenantId r r' entry := by
  unfold sink at h
  split at h
  · rename_i hkind
    have hne : entry.kind ≠ .event := by rw [hkind]; decide
    obtain ⟨session, hinsert, h⟩ := of_bind_ok h
    cases h
    obtain ⟨hevents, hnext⟩ := sameEvents_insertRecord hinsert
    exact .quiet (sequence_eq_none hne) ⟨hevents, hnext⟩ rfl hne
  · rename_i hkind
    obtain ⟨session, hinsert, h⟩ := of_bind_ok h
    cases h
    obtain ⟨n, row, hevents, howner, hfresh, hnumbered⟩ := of_insertEvent hinsert
    exact .event n row hevents howner hfresh hnumbered rfl hkind
  · rename_i hkind
    have hne : entry.kind ≠ .event := by rw [hkind]; decide
    obtain ⟨session, hinsert, h⟩ := of_bind_ok h
    cases h
    exact .quiet (sequence_eq_none hne) (sameEvents_insertSnapshot hinsert) rfl hne
  · rename_i hkind
    have hne : entry.kind ≠ .event := by rw [hkind]; decide
    obtain ⟨session, hinsert, h⟩ := of_bind_ok h
    cases h
    exact .quiet (sequence_eq_none hne) (sameEvents_insertCheckpoint hinsert) rfl hne
  · rename_i hkind
    have hne : entry.kind ≠ .event := by rw [hkind]; decide
    obtain ⟨session, hinsert, h⟩ := of_bind_ok h
    cases h
    exact .quiet (sequence_eq_none hne) (sameEvents_insertHttpIdempotency hinsert) rfl hne

/-- The sink after some entries, from the tables `start`. -/
structure Sunk (start : RuntimeTables) (tenantId : String) (done : List BackupEntry) (r : RestoreState) : Prop where
  /-- The rows of the entries. -/
  rows : ∃ new : List StoredEvent, r.session.tables.events = start.events ++ new
    ∧ (∀ stored ∈ new, stored.row.tenantId = tenantId ∧ ∀ other ∈ start.events, other.sequence ≠ stored.sequence)
    ∧ ∀ n, n ∈ new.map (·.sequence)
        ↔ n ∈ done.filterMap (·.sequence) ∨ (start.nextSequence ≤ n ∧ n < r.session.tables.nextSequence)
  next : start.nextSequence ≤ r.session.tables.nextSequence
  given : (∀ e ∈ done, e.kind = .event → e.sequence ≠ none) → r.session.tables.nextSequence = start.nextSequence
  positive : ∀ n ∈ done.filterMap (·.sequence), 1 ≤ n
  maxSequence : r.maxSequence = (done.filterMap (·.sequence)).foldl max 0

theorem Sunk.step {start : RuntimeTables} {done : List BackupEntry} {r r' : RestoreState} {entry : BackupEntry}
    (hr : r.Sunk start tenantId done) (h : SinkStep tenantId r r' entry) :
    r'.Sunk start tenantId (done ++ [entry]) := by
  obtain ⟨new, hevents, hnew, hnumbers⟩ := hr.rows
  cases h with
  | quiet hsequence hsame hmax hkind =>
    have hdone : (done ++ [entry]).filterMap (·.sequence) = done.filterMap (·.sequence) := by
      rw [List.filterMap_append, List.filterMap_cons_none hsequence, List.filterMap_nil, List.append_nil]
    refine ⟨⟨new, ?_, hnew, ?_⟩, ?_, ?_, ?_, ?_⟩
    · rw [hsame.events, hevents]
    · rw [hdone, hsame.nextSequence]
      exact hnumbers
    · rw [hsame.nextSequence]
      exact hr.next
    · intro hgiven
      rw [hsame.nextSequence]
      exact hr.given fun e he => hgiven e (List.mem_append_left _ he)
    · rw [hdone]
      exact hr.positive
    · rw [hdone, hmax]
      exact hr.maxSequence
  | event n row hevents' howner hfresh hnumbered hmax hkind =>
    have hrow : ∀ stored ∈ new ++ [⟨n, row⟩], stored.row.tenantId = tenantId
        ∧ ∀ other ∈ start.events, other.sequence ≠ stored.sequence := by
      intro stored hstored
      obtain hstored | hstored := List.mem_append.mp hstored
      · exact hnew stored hstored
      · obtain rfl := List.mem_singleton.mp hstored
        exact ⟨howner, fun other hother => hfresh other (by rw [hevents]; exact List.mem_append_left _ hother)⟩
    have hrows : r'.session.tables.events = start.events ++ (new ++ [⟨n, row⟩]) := by
      rw [hevents', hevents, List.append_assoc]
    cases hsequence : entry.sequence with
    | some m =>
      rw [hsequence] at hnumbered hmax
      cases hnumbered with
      | given _ hpositive hnext =>
      have hdone : (done ++ [entry]).filterMap (·.sequence) = done.filterMap (·.sequence) ++ [n] := by
        rw [List.filterMap_append, List.filterMap_cons_some hsequence, List.filterMap_nil]
      refine ⟨⟨_, hrows, hrow, ?_⟩, ?_, ?_, ?_, ?_⟩
      · intro m
        rw [hdone, hnext, List.map_append, List.mem_append, hnumbers, List.mem_append, List.map_singleton, or_right_comm]
      · rw [hnext]
        exact hr.next
      · intro hgiven
        rw [hnext]
        exact hr.given fun e he => hgiven e (List.mem_append_left _ he)
      · rw [hdone, List.forall_mem_append, List.forall_mem_singleton]
        exact ⟨hr.positive, hpositive⟩
      · rw [hdone, hmax, List.foldl_append, ← hr.maxSequence]
        rfl
    | none =>
      rw [hsequence] at hnumbered hmax
      cases hnumbered with
      | taken hnext =>
      have hdone : (done ++ [entry]).filterMap (·.sequence) = done.filterMap (·.sequence) := by
        rw [List.filterMap_append, List.filterMap_cons_none hsequence, List.filterMap_nil, List.append_nil]
      have hle := hr.next
      refine ⟨⟨_, hrows, hrow, ?_⟩, by omega, ?_, ?_, ?_⟩
      · intro m
        rw [hdone, hnext, List.map_append, List.mem_append, hnumbers, List.map_singleton, List.mem_singleton]
        by_cases hm : m ∈ done.filterMap (·.sequence)
        · simp [hm]
        · simp only [hm, false_or]
          omega
      · intro hgiven
        exact absurd hsequence (hgiven entry (by simp) hkind)
      · rw [hdone]
        exact hr.positive
      · rw [hdone, hmax]
        exact hr.maxSequence

theorem sunk {entries : List BackupEntry} {session : Session} {r : RestoreState}
    (h : entries.foldlM (sink types host tenantId) { session } = .ok r) : r.Sunk session.tables tenantId entries := by
  refine of_foldlM_ok (fun done r => Sunk session.tables tenantId done r) ?_ ?_ h
  · intro done entry _ r1 r2 hr1 hsink
    exact hr1.step (sinkStep hsink)
  · exact ⟨⟨[], by simp⟩, le_rfl, fun _ => rfl, by simp, rfl⟩

end RestoreState

theorem clearRuntimeTables_events (tables : RuntimeTables) (htenant : tenantId ≠ "") :
    (clearRuntimeTables { tables, tenantId := "" } tenantId).tables.events
        = tables.events.filter (fun stored => stored.row.tenantId ≠ tenantId)
      ∧ (clearRuntimeTables { tables, tenantId := "" } tenantId).tables.nextSequence = tables.nextSequence := by
  have hdeletes : ∀ (s : Session) (owner : String), s.tenantId = tenantId →
      (!s.deletes tenantId owner) = decide (owner ≠ tenantId) := by
    intro s owner hs
    by_cases howner : owner = tenantId <;> simp [Session.deletes, Session.sees, hs, howner, htenant]
  unfold clearRuntimeTables
  split_ifs
  all_goals
    refine ⟨?_, rfl⟩
    simp only [Session.deleteEvents, Session.setTenantContext, hdeletes]

theorem repairEventSequence_next {others new : List StoredEvent} (htenant : tenantId ≠ "")
    (hevents : s.tables.events = others ++ new) (hothers : ∀ stored ∈ others, stored.row.tenantId ≠ tenantId)
    (hnew : ∀ stored ∈ new, stored.row.tenantId = tenantId) {n : Nat} (hn : n ∈ new.map (·.sequence))
    (hpositive : 1 ≤ n) :
    (repairEventSequence tenantId s).tables.events = s.tables.events
      ∧ ∃ m ∈ new.map (·.sequence), (∀ k ∈ new.map (·.sequence), k ≤ m)
        ∧ (repairEventSequence tenantId s).tables.nextSequence = m + 1 := by
  have hvisible : (s.setTenantContext tenantId).tables.events.filter
      (fun stored => (s.setTenantContext tenantId).sees stored.row.tenantId) = new := by
    show s.tables.events.filter _ = new
    rw [hevents, List.filter_append, List.filter_eq_nil_iff.mpr, List.filter_eq_self.mpr, List.nil_append]
    · intro stored hstored
      simp [Session.sees, Session.setTenantContext, htenant, hnew stored hstored]
    · intro stored hstored
      simp [Session.sees, Session.setTenantContext, hothers stored hstored]
  have hmax : ∃ m, (new.map (·.sequence)).max? = some m :=
    Option.isSome_iff_exists.mp (List.isSome_max?_of_mem hn)
  obtain ⟨m, hm⟩ := hmax
  obtain ⟨hmem, hgreatest⟩ := List.max?_eq_some_iff.mp hm
  refine ⟨rfl, m, hmem, hgreatest, ?_⟩
  have hle := hgreatest n hn
  unfold repairEventSequence Session.maxSequence
  dsimp only
  rw [hvisible, hm]
  show max m 1 + 1 = m + 1
  omega

theorem source_sequences {now expected : String} {file : BackupFile} {source : RestoreSource}
    (h : file.source host now expected = .ok source) (hsome : source.sequences ≠ []) :
    ∀ e ∈ source.entries, e.kind = .event → e.sequence ≠ none := by
  cases file with
  | legacy snapshot =>
    have hnone : ∀ e ∈ source.entries, e.sequence = none := by
      have hentries : ∀ kind list, ∀ e ∈ legacyEntries kind list, e.sequence = none := by
        intro kind list e he
        unfold legacyEntries at he
        split at he
        · obtain ⟨_, -, rfl⟩ := List.mem_map.mp he
          rfl
        · cases he
      unfold BackupFile.source legacySource at h
      dsimp only at h
      split at h
      · cases h
      · cases h
        intro e he
        obtain he | he := List.mem_append.mp he
        · obtain he | he := List.mem_append.mp he
          · exact hentries _ _ e he
          · exact hentries _ _ e he
        · obtain rfl := List.mem_singleton.mp he
          rfl
    exact absurd (List.filterMap_eq_nil_iff.mpr hnone) hsome
  | ndjson bytes =>
    unfold BackupFile.source at h
    dsimp only at h
    cases hread : readIncrementalBackup host now (some expected) bytes with
    | error e =>
      rw [hread] at h
      cases h
    | ok p =>
      rw [hread] at h
      cases h
      have haccepted : Accepted host bytes p.1 p.2 := accepted hread
      obtain ⟨d, hadded⟩ := haccepted.added
      obtain ⟨n, hn⟩ := List.exists_mem_of_ne_nil _ hsome
      obtain ⟨e₀, he0, hsequence⟩ := List.mem_filterMap.mp hn
      have hevent := e₀.sequence_of_event (by rw [hsequence]; exact Option.some_ne_none n)
      have hmode := IncrementalDigest.foldlM_mode hadded e₀ he0 hevent
      intro e he hkind
      have hmode' := IncrementalDigest.foldlM_mode hadded e he hkind
      rw [hmode, hsequence] at hmode'
      exact Option.isSome_iff_ne_none.mp (Option.some.inj hmode').symm

/-! ## Numbers after a restore -/

theorem of_restorePostgresState {tables tables' : RuntimeTables} {source : RestoreSource}
    (h : restorePostgresState types host tenantId tables source = .ok tables') :
    tenantId ≠ "" ∧ ∃ r : RestoreState,
      source.entries.foldlM (RestoreState.sink types host tenantId)
          { session := clearRuntimeTables { tables, tenantId := "" } tenantId } = .ok r
        ∧ tables' = if 0 < r.maxSequence then (repairEventSequence tenantId r.session).tables else r.session.tables := by
  unfold restorePostgresState at h
  obtain ⟨htenant, h⟩ := of_check_ok h
  obtain ⟨r, hfold, h⟩ := of_bind_ok h
  obtain ⟨-, h⟩ := of_check_ok h
  obtain ⟨-, h⟩ := of_check_ok h
  refine ⟨?_, r, hfold, ?_⟩
  · rintro rfl
    exact htenant rfl
  · split at h
    · rename_i hmax
      rw [if_pos hmax, Except.ok.inj h]
    · rename_i hmax
      rw [if_neg hmax, Except.ok.inj h]

theorem foldl_max_pos {l : List Nat} {n : Nat} (hn : n ∈ l) (hpositive : 1 ≤ n) : 0 < l.foldl max 0 := by
  have hle : ∀ (l : List Nat) (a : Nat), a ≤ l.foldl max a ∧ ∀ m ∈ l, m ≤ l.foldl max a := by
    intro l
    induction l with
    | nil => exact fun a => ⟨le_rfl, List.forall_mem_nil _⟩
    | cons m l ih =>
      intro a
      obtain ⟨hstart, hrest⟩ := ih (max a m)
      rw [List.foldl_cons, List.forall_mem_cons]
      exact ⟨(le_max_left a m).trans hstart, (le_max_right a m).trans hstart, hrest⟩
  exact Nat.lt_of_lt_of_le hpositive ((hle l 0).2 n hn)

/-- After a restore that commits, the sequence is ahead of all tenants just when no other tenant has a number
beyond the sequences of the backup, or, where the backup has none, when it was ahead of the other tenants. -/
theorem restore_keeps_ahead (types : SqlTypes) (host : BackupHost) (tenantId now expected : String)
    (tables tables' : RuntimeTables) (file : BackupFile) (source : RestoreSource)
    (hsource : file.source host now expected = .ok source)
    (h : restoreBackup types host tenantId now expected tables file = .ok tables') :
    tables'.Ahead ↔ Leads source.sequences tenantId tables := by
  unfold restoreBackup at h
  rw [hsource, ok_bind] at h
  obtain ⟨htenant, r, hfold, rfl⟩ := of_restorePostgresState h
  obtain ⟨hcleared, hnext⟩ := clearRuntimeTables_events tables htenant
  have hsunk := RestoreState.sunk hfold
  obtain ⟨new, hevents, hnew, hnumbers⟩ := hsunk.rows
  rw [hcleared] at hevents hnew
  rw [hnext] at hnumbers
  have hothers : ∀ stored, stored ∈ tables.events.filter (fun stored => stored.row.tenantId ≠ tenantId)
      ↔ stored ∈ tables.events ∧ stored.row.tenantId ≠ tenantId := by
    intro stored
    simp [List.mem_filter]
  unfold Leads RuntimeTables.Ahead
  by_cases hsequences : source.sequences = []
  · -- the numbers were taken from the sequence, which no other tenant's number is among
    have hmax : r.maxSequence = 0 := by
      rw [hsunk.maxSequence, show source.entries.filterMap (·.sequence) = [] from hsequences]
      rfl
    have hle : tables.nextSequence ≤ r.session.tables.nextSequence := hnext ▸ hsunk.next
    rw [if_neg (by omega), hevents]
    simp only [hsequences, if_true]
    have hown : ∀ stored ∈ new, stored.sequence < r.session.tables.nextSequence := by
      intro stored hstored
      obtain hmem | hrange := (hnumbers _).mp (List.mem_map_of_mem hstored)
      · rw [show source.entries.filterMap (·.sequence) = [] from hsequences] at hmem
        exact absurd hmem List.not_mem_nil
      · exact hrange.2
    constructor
    · intro hahead stored hstored howner
      have hmem := (hothers stored).mpr ⟨hstored, howner⟩
      have hlt := hahead stored (List.mem_append_left _ hmem)
      by_contra hge
      obtain ⟨own, hownmem, hsame⟩ := List.mem_map.mp ((hnumbers stored.sequence).mpr (.inr ⟨by omega, hlt⟩))
      exact (hnew own hownmem).2 stored hmem hsame.symm
    · intro hleads stored hstored
      obtain hstored | hstored := List.mem_append.mp hstored
      · obtain ⟨hmem, howner⟩ := (hothers stored).mp hstored
        have hlt := hleads stored hmem howner
        omega
      · exact hown stored hstored
  · -- the sequence is set behind the greatest sequence of the backup
    obtain ⟨n, hn⟩ := List.exists_mem_of_ne_nil _ hsequences
    have hgiven := hsunk.given (source_sequences hsource hsequences)
    rw [hnext] at hgiven
    have hnumbers' : ∀ n, n ∈ new.map (·.sequence) ↔ n ∈ source.sequences := by
      intro n
      rw [hnumbers, hgiven]
      unfold RestoreSource.sequences
      constructor
      · rintro (hmem | ⟨hge, hlt⟩)
        · exact hmem
        · omega
      · exact .inl
    have hpositive := hsunk.positive n hn
    have hmax : 0 < r.maxSequence := by
      rw [hsunk.maxSequence]
      exact foldl_max_pos hn hpositive
    obtain ⟨hsame, m, hm, hgreatest, hset⟩ := repairEventSequence_next htenant hevents
      (fun stored hstored => ((hothers stored).mp hstored).2) (fun stored hstored => (hnew stored hstored).1)
      ((hnumbers' n).mpr hn) hpositive
    rw [if_pos hmax, hsame, hset, hevents]
    simp only [hsequences, if_false]
    constructor
    · intro hahead stored hstored howner
      have hlt := hahead stored (List.mem_append_left _ ((hothers stored).mpr ⟨hstored, howner⟩))
      exact ⟨m, (hnumbers' m).mp hm, by omega⟩
    · intro hleads stored hstored
      obtain hstored | hstored := List.mem_append.mp hstored
      · obtain ⟨hmem, howner⟩ := (hothers stored).mp hstored
        obtain ⟨k, hk, hle⟩ := hleads stored hmem howner
        have hkm := hgreatest k ((hnumbers' k).mpr hk)
        omega
      · have hle := hgreatest stored.sequence (List.mem_map_of_mem hstored)
        omega

end Restore

namespace Beside

def sha256 : String := "e3b0c44298fc1c149afbf4c8996fb92427ae41e4649b934ca495991b7852b855"

def host : BackupHost where
  sha256 _ := sha256
  dateParse _ := some 0

def types : SqlTypes where
  text _ := true
  jsonb _ := true
  timestamptz _ := true

def file (sequence : String) : BackupFile := .ndjson (utf8 (Collections.unlines '\n' [
  ("\x7b\"format\":\"premise-v2-backup-ndjson\",\"version\":1,\"capturedAt\":\"2026-01-01T00:00:00.000Z\","
    ++ "\"tenantId\":\"acme\"\x7d").toList,
  ("\x7b\"kind\":\"event\",\"sequence\":" ++ sequence ++ ",\"value\":\x7b\"eventId\":\"e-1\","
    ++ "\"idempotencyKey\":\"k-1\",\"occurredAt\":\"2026-01-01T00:00:00.000Z\",\"tenantId\":\"acme\"\x7d\x7d").toList,
  ("\x7b\"kind\":\"footer\",\"records\":0,\"events\":1,\"sha256\":\"" ++ sha256 ++ "\"\x7d").toList]))

/-- Another tenant has one event, with the last number of the sequence. -/
def tables : RuntimeTables where
  events := [⟨10, ⟨"other", "k-10", "e-10", .object [], .timestamptz "2026-01-01T00:00:00.000Z"⟩⟩]
  nextSequence := 11

theorem tables_ahead : tables.Ahead := by
  intro stored hstored
  obtain rfl := List.mem_singleton.mp hstored
  decide

def numbers (tables : RuntimeTables) : List Nat × Nat := (tables.events.map (·.sequence), tables.nextSequence)

theorem of_restore {file : BackupFile} {n : List Nat × Nat}
    (h : (restoreBackup types host "acme" "" "acme" tables file).toOption.map numbers = some n) :
    ∃ source tables', file.source host "" "acme" = .ok source
      ∧ restoreBackup types host "acme" "" "acme" tables file = .ok tables' ∧ numbers tables' = n := by
  cases hrestore : restoreBackup types host "acme" "" "acme" tables file with
  | error e =>
    rw [hrestore] at h
    cases h
  | ok tables' =>
    rw [hrestore] at h
    have hsource := hrestore
    unfold restoreBackup at hsource
    obtain ⟨source, hsource, -⟩ := of_bind_ok hsource
    exact ⟨source, tables', hsource, rfl, Option.some.inj h⟩

theorem of_lines {lines : List (List Char)} {n : List Nat × Nat} (hlines : lines.all BackupReader.readable = true)
    (h : (((do
        let r ← (lines.map (fun line => (parse line).getD .null)).foldlM
          (BackupReader.readValue host "" (some "acme")) ({} : BackupReader)
        r.finish host : Except JsError (List BackupEntry × BackupResult)).map (fun p =>
          (⟨p.1, some (.string p.2.header.capturedAt), p.2.summary.counts⟩ : RestoreSource))
        >>= restorePostgresState types host "acme" tables).toOption.map numbers) = some n) :
    ∃ source tables', (BackupFile.ndjson (utf8 (Collections.unlines '\n' lines))).source host "" "acme" = .ok source
      ∧ restoreBackup types host "acme" "" "acme" tables (.ndjson (utf8 (Collections.unlines '\n' lines))) = .ok tables'
      ∧ numbers tables' = n := by
  refine of_restore ?_
  unfold restoreBackup BackupFile.source
  dsimp only
  rw [readIncrementalBackup_lines hlines]
  exact h

theorem restore_sequences : ∀ p ∈ [("1", ([10, 1], 2)), ("12", ([10, 12], 13))], ∃ source tables',
    (file p.1).source host "" "acme" = .ok source
      ∧ restoreBackup types host "acme" "" "acme" tables (file p.1) = .ok tables' ∧ numbers tables' = p.2 := by
  have hheader : "\x7b\"format\":\"premise-v2-backup-ndjson\",\"version\":1,\"capturedAt\":\"2026-01-01T00:00:00.000Z\",".toList
      = _ := String.toList_ofList
  have htenant : "\"tenantId\":\"acme\"\x7d".toList = _ := String.toList_ofList
  have hstart : "\x7b\"kind\":\"event\",\"sequence\":".toList = _ := String.toList_ofList
  have hevent : ",\"value\":\x7b\"eventId\":\"e-1\",".toList = _ := String.toList_ofList
  have hend : "\"idempotencyKey\":\"k-1\",\"occurredAt\":\"2026-01-01T00:00:00.000Z\",\"tenantId\":\"acme\"\x7d\x7d".toList
      = _ := String.toList_ofList
  have hfooter : "\x7b\"kind\":\"footer\",\"records\":0,\"events\":1,\"sha256\":\"".toList = _ := String.toList_ofList
  have hsha : sha256.toList = _ := String.toList_ofList
  intro p hp
  rcases List.mem_pair.mp hp with rfl | rfl
  all_goals
    unfold file
    simp only [String.toList_append]
    rw [hheader, htenant, hstart, hevent, hend, hfooter, hsha]
    exact of_lines (by decide +kernel) (by decide +kernel)

theorem restore_behind : ∃ source tables', (file "1").source host "" "acme" = .ok source
    ∧ restoreBackup types host "acme" "" "acme" tables (file "1") = .ok tables' ∧ numbers tables' = ([10, 1], 2) :=
  restore_sequences ("1", ([10, 1], 2)) List.mem_cons_self

theorem restore_beyond : ∃ source tables', (file "12").source host "" "acme" = .ok source
    ∧ restoreBackup types host "acme" "" "acme" tables (file "12") = .ok tables' ∧ numbers tables' = ([10, 12], 13) :=
  restore_sequences ("12", ([10, 12], 13)) (List.mem_cons_of_mem _ List.mem_cons_self)

end Beside

theorem restore_keeps_ahead_beyond : ∃ source tables', (Beside.file "12").source Beside.host "" "acme" = .ok source
    ∧ restoreBackup Beside.types Beside.host "acme" "" "acme" Beside.tables (Beside.file "12") = .ok tables'
    ∧ (tables'.Ahead ↔ Leads source.sequences "acme" Beside.tables) := by
  obtain ⟨source, tables', hsource, hrestore, -⟩ := Beside.restore_beyond
  refine ⟨source, tables', hsource, hrestore, ?_⟩
  exact restore_keeps_ahead Beside.types Beside.host "acme" "" "acme" Beside.tables tables' (Beside.file "12") source
    hsource hrestore

/-- The sequence is ahead of all tenants, and after the restore of an event with a smaller number it is not. -/
theorem not_restore_keeps_ahead : Beside.tables.Ahead ∧ ∃ tables',
    restoreBackup Beside.types Beside.host "acme" "" "acme" Beside.tables (Beside.file "1") = .ok tables'
      ∧ ¬ tables'.Ahead := by
  obtain ⟨source, tables', -, hrestore, hnumbers⟩ := Beside.restore_behind
  obtain ⟨hsequences, hnext⟩ := Prod.mk.inj hnumbers
  refine ⟨Beside.tables_ahead, tables', hrestore, fun hahead => ?_⟩
  have hten : 10 ∈ tables'.events.map (·.sequence) := by rw [hsequences]; decide
  obtain ⟨stored, hstored, hsequence⟩ := List.mem_map.mp hten
  have hlt := hahead stored hstored
  omega

end Premise.Backup
