import Premise.RuntimeCore.Proofs.MutationProofs
import Premise.RuntimeCore.Signals

/-!
# Signals find what they affect

While the runtime is in step with its store, its indexes name exactly the memories that cite a source or depend
on a memory.
-/

namespace Premise.RuntimeCore.PremiseRuntime

open Collections Control Premise.Graph Js Protocol
open InMemoryRuntimeStore
open Control.Command

variable {P K : Type} {host : RuntimeHost} {o : RuntimeOptions P K} {w w' w₁ w₂ : RuntimeState} {record : RuntimeRecord}

/-! ## Indexes -/

def Link.index : Link → RuntimeState → OrderedMap String (OrderedSet String)
  | .source, w => w.sourceMemoryIds
  | .dependency, w => w.dependentsByDependency

def under (index : OrderedMap String (OrderedSet String)) (key : String) : OrderedSet String :=
  (index.get? key).getD ∅

section Under

variable {index : OrderedMap String (OrderedSet String)} {id key k x : String} {keys : List String} {link : Link}

theorem mem_addUnder : x ∈ under (addUnder id index key) k ↔ (x = id ∧ k = key) ∨ x ∈ under index k := by
  unfold under addUnder
  rw [OrderedMap.get?_set]
  split_ifs with h
  · subst h
    simp
  · simp [h]

theorem mem_foldl_addUnder : x ∈ under (keys.foldl (addUnder id) index) k ↔ (x = id ∧ k ∈ keys) ∨ x ∈ under index k := by
  induction keys generalizing index with
  | nil => simp
  | cons key keys ih =>
    rw [List.foldl_cons, ih, mem_addUnder, List.mem_cons]
    tauto

theorem mem_removeUnder : x ∈ under (removeUnder id index key) k ↔ ¬ (x = id ∧ k = key) ∧ x ∈ under index k := by
  unfold under removeUnder
  cases hget : index.get? key with
  | none =>
    refine (and_iff_right_of_imp fun hx h => ?_).symm
    rw [h.2, hget] at hx
    exact OrderedSet.not_mem_empty x hx
  | some ids =>
    dsimp only
    by_cases hk : k = key
    · subst hk
      have herased : x ∈ ids.erase id ↔ ¬ (x = id ∧ k = k) ∧ x ∈ ids := by simp
      rw [hget, Option.getD_some, ← herased]
      split_ifs with hsize
      · rw [OrderedMap.get?_erase_self]
        exact iff_of_false (OrderedSet.not_mem_empty x) ((OrderedSet.size_eq_zero _).mp hsize x)
      · rw [OrderedMap.get?_set_self, Option.getD_some]
    · split_ifs with hsize
      · rw [OrderedMap.get?_erase_of_ne _ hk]
        simp [hk]
      · rw [OrderedMap.get?_set_of_ne _ _ hk]
        simp [hk]

theorem mem_foldl_removeUnder :
    x ∈ under (keys.foldl (removeUnder id) index) k ↔ ¬ (x = id ∧ k ∈ keys) ∧ x ∈ under index k := by
  induction keys generalizing index with
  | nil => simp
  | cons key keys ih =>
    rw [List.foldl_cons, ih, mem_removeUnder, List.mem_cons]
    tauto

theorem mem_indexed : x ∈ under (link.index (indexed o record w)) k ↔
    (x = record.envelope.memoryId ∧ record.envelope.tenantId = o.tenantId ∧ k ∈ link.keys record) ∨
      x ∈ under (link.index w) k := by
  unfold indexed
  split_ifs with h
  · exact (or_iff_right fun hx => h hx.2.1).symm
  · rw [and_iff_right (not_not.mp h)]
    cases link with
    | source | dependency => exact mem_foldl_addUnder

theorem mem_deindexed : x ∈ under (link.index (deindexed o record w)) k ↔
    ¬ (x = record.envelope.memoryId ∧ record.envelope.tenantId = o.tenantId ∧ k ∈ link.keys record) ∧
      x ∈ under (link.index w) k := by
  unfold deindexed
  split_ifs with h
  · exact (and_iff_right fun hx => h hx.2.1).symm
  · rw [and_iff_right (not_not.mp h)]
    cases link with
    | source | dependency => exact mem_foldl_removeUnder

end Under

/-- The indexes name what the records of the tenant name. -/
def Indexed (o : RuntimeOptions P K) (w : RuntimeState) : Prop :=
  ∀ link key id, id ∈ under (Link.index link w) key ↔ Linked o w.store link id key

def Keyed (s : InMemoryRuntimeStore) : Prop := ∀ id record, s.get id = some record → record.envelope.memoryId = id

/-- The invariant of a runtime without a frontier engine. -/
structure Sound (o : RuntimeOptions P K) (w : RuntimeState) : Prop where
  keyed : Keyed w.store
  revision : ∀ revision, w.indexedStoreRevision = some revision → revision ≤ w.store.revision
  indexed : w.indexedStoreRevision = some w.store.revision → Indexed o w
  frontier : w.frontierEngine = none

theorem foldl_indexed {α : Type} {f : RuntimeState → α} (hf : ∀ record w, f (indexed o record w) = f w)
    (records : List RuntimeRecord) (w : RuntimeState) :
    f (records.foldl (fun w record => indexed o record w) w) = f w := by
  induction records generalizing w with
  | nil => rfl
  | cons record records ih => exact (ih _).trans (hf record w)

theorem mem_foldl_indexed {link : Link} {key id : String} {records : List RuntimeRecord} :
    id ∈ under (link.index (records.foldl (fun w record => indexed o record w) w)) key ↔
      (∃ record ∈ records, id = record.envelope.memoryId ∧ record.envelope.tenantId = o.tenantId ∧
        key ∈ link.keys record) ∨ id ∈ under (link.index w) key := by
  induction records generalizing w with
  | nil => simp
  | cons record records ih =>
    simp only [List.foldl_cons, ih, mem_indexed, List.mem_cons, exists_eq_or_imp]
    exact or_left_comm.trans or_assoc.symm

theorem rebuildIndexes_store (host : RuntimeHost) (o : RuntimeOptions P K) (w : RuntimeState) : (rebuildIndexes host o w).store = w.store :=
  foldl_indexed (f := RuntimeState.store) indexed_store _ _

theorem rebuildIndexes_sound (hkeyed : Keyed w.store) (hfrontier : w.frontierEngine = none) :
    Sound o (rebuildIndexes host o w) ∧ Indexed o (rebuildIndexes host o w) := by
  have hstore := rebuildIndexes_store host o w
  have hindexed : Indexed o (rebuildIndexes host o w) := by
    intro link key id
    rw [hstore]
    obtain ⟨cleared, hrun, hempty⟩ : ∃ cleared, (∀ link : Link, link.index (rebuildIndexes host o w)
        = link.index (w.store.list.foldl (fun w record => indexed o record w) cleared)) ∧
        ∀ (link : Link) key x, x ∉ under (link.index cleared) key := by
      refine ⟨{ w with
        sourceMemoryIds := ∅
        dependentsByDependency := ∅
        recordOrder := ∅
        nextRecordOrder := 0
        frontierEngine := w.frontierEngine.bind (fun _ => rebuiltFrontier host o w.store.list) }, ?_, ?_⟩
      · rintro (_ | _) <;> rfl
      · rintro (_ | _) key x <;> exact OrderedSet.not_mem_empty x
    rw [hrun, mem_foldl_indexed, or_iff_left (hempty link key id)]
    constructor
    · rintro ⟨record, hmem, rfl, hlinked⟩
      obtain ⟨id, hget⟩ := (OrderedMap.mem_values _).mp hmem
      have hid := hkeyed id record hget
      exact ⟨record, by rwa [hid], hlinked⟩
    · rintro ⟨record, hget, hlinked⟩
      exact ⟨record, (OrderedMap.mem_values _).mpr ⟨id, hget⟩, (hkeyed id record hget).symm, hlinked⟩
  refine ⟨⟨by rwa [hstore], ?_, fun _ => hindexed, ?_⟩, hindexed⟩
  · intro revision hrevision
    rw [hstore]
    exact (Option.some.inj hrevision).ge
  · refine (foldl_indexed (f := RuntimeState.frontierEngine) (fun record w => ?_) _ _).trans ?_
    · unfold indexed
      split_ifs <;> rfl
    · rw [hfrontier]
      rfl

theorem index_congr (h : indexes w' = indexes w) (link : Link) : link.index w' = link.index w := by
  cases link with
  | source => exact congrArg Prod.fst h
  | dependency => exact congrArg (fun p => p.2.1) h

/-! ## Writes to the store -/

/-- Without a new revision there are no new records. -/
def advances : Guarantee InMemoryRuntimeStore where
  holds s s' := (Keyed s → Keyed s') ∧ s.revision ≤ s'.revision ∧ (s'.revision = s.revision → s'.records = s.records)
  refl _ := ⟨id, le_rfl, fun _ => rfl⟩
  trans _ _ _ h h' := ⟨h'.1 ∘ h.1, h.2.1.trans h'.2.1, fun heq =>
    (h'.2.2 (le_antisymm (heq.le.trans h.2.1) h'.2.1)).trans (h.2.2 (le_antisymm (h'.2.1.trans heq.le) h.2.1))⟩

theorem keyed_set {s s' : InMemoryRuntimeStore} (hs : Keyed s)
    (h : s'.records = s.records.set record.envelope.memoryId record) : Keyed s' := by
  intro id found hget
  unfold InMemoryRuntimeStore.get at hget
  rw [h, OrderedMap.get?_set] at hget
  split_ifs at hget with hid
  · rw [← Option.some.inj hget, hid]
  · exact hs id found hget

theorem put_advances (record : RuntimeRecord) : (put record).Meets advances := by
  intro s
  by_cases hvalid : validateMemoryEnvelopeV2 record.envelope = []
  · rw [put_valid hvalid]
    exact ⟨fun hs => keyed_set hs rfl, Nat.le_succ _, fun h => absurd h (Nat.succ_ne_self _)⟩
  · obtain ⟨e, he⟩ := put_invalid (s := s) hvalid
    rw [he]
    exact advances.refl s

theorem appendEvent_records (event : V2Event) (s : InMemoryRuntimeStore) :
    (appendEvent event s).1.records = s.records ∧ (appendEvent event s).1.revision = s.revision := by
  by_cases haccepts : s.Accepts event
  · rcases (appendEvent_accepted haccepts).2 with ⟨-, h⟩ | ⟨-, h⟩ <;> rw [h] <;> exact ⟨rfl, rfl⟩
  · obtain ⟨e, he⟩ := appendEvent_refused haccepts
    rw [he]
    exact ⟨rfl, rfl⟩

theorem advances_of_same {s s' : InMemoryRuntimeStore} (h : s'.records = s.records ∧ s'.revision = s.revision) :
    advances.holds s s' := by
  refine ⟨fun hs id record hget => hs id record ?_, h.2.ge, fun _ => h.1⟩
  unfold InMemoryRuntimeStore.get at hget ⊢
  rwa [← h.1]

theorem appendEvent_advances (event : V2Event) : (appendEvent event).Meets advances :=
  fun s => advances_of_same (appendEvent_records event s)

theorem linked_congr {s s' : InMemoryRuntimeStore} (h : s'.records = s.records) {link : Link} {id key : String} :
    Linked o s' link id key ↔ Linked o s link id key := by
  unfold Linked InMemoryRuntimeStore.get
  rw [h]

theorem Indexed.congr (h : Indexed o w) (hrecords : w'.store.records = w.store.records)
    (hindexes : indexes w' = indexes w) : Indexed o w' := by
  intro link key id
  rw [index_congr hindexes, linked_congr hrecords]
  exact h link key id

theorem Sound.advance (h : Sound o w) (hstore : advances.holds w.store w'.store)
    (hindexes : indexes w' = indexes w) : Sound o w' := by
  obtain ⟨hkeyed, hle, hrecords⟩ := hstore
  have hrevision : w'.indexedStoreRevision = w.indexedStoreRevision := congrArg (fun p => p.2.2.1) hindexes
  refine ⟨hkeyed h.keyed, fun revision hr => ?_, fun hcurrent => ?_, (congrArg (fun p => p.2.2.2) hindexes).trans h.frontier⟩
  · rw [hrevision] at hr
    exact (h.revision revision hr).trans hle
  · rw [hrevision] at hcurrent
    have hsame := le_antisymm (h.revision _ hcurrent) hle
    exact (h.indexed (hcurrent.trans (congrArg some hsame))).congr (hrecords hsame) hindexes

theorem Sound.steady (h : Sound o w) (hsame : steadily.holds w w') : Sound o w' := by
  obtain ⟨hstore, hindexes⟩ := Prod.mk.inj hsame
  refine h.advance ?_ hindexes
  rw [hstore]
  exact advances.refl _

theorem Indexed.steady (h : Indexed o w) (hsame : steadily.holds w w') : Indexed o w' := by
  obtain ⟨hstore, hindexes⟩ := Prod.mk.inj hsame
  exact h.congr (congrArg InMemoryRuntimeStore.records hstore) hindexes

/-! ## Mutations -/

section Mutations

variable {event : V2Event} {old : Option RuntimeRecord}

def writes : Guarantee RuntimeState where
  holds w w' := advances.holds w.store w'.store ∧ indexes w' = indexes w
  refl w := ⟨advances.refl w.store, rfl⟩
  trans _ _ _ h h' := ⟨advances.trans _ _ _ h.1 h'.1, h'.2.trans h.2⟩

theorem persistRecordAndEvent_writes (record : RuntimeRecord) (event : V2Event) :
    (persistRecordAndEvent host o record event).Meets writes := by
  refine Meets.bind ((putAndAppend_meets put_advances appendEvent_advances record event).zoom fun _ _ h => ⟨h, rfl⟩)
    fun _ w => ?_
  unfold auditEvent
  split_ifs
  · exact ⟨advances.refl _, rfl⟩
  · exact writes.refl w

theorem mem_reindexed {link : Link} {key id : String} : id ∈ under (link.index (reindex o record old w).1) key ↔
    (id = record.envelope.memoryId ∧ record.envelope.tenantId = o.tenantId ∧ key ∈ link.keys record) ∨
      (∀ found ∈ old, ¬ (id = found.envelope.memoryId ∧ found.envelope.tenantId = o.tenantId ∧ key ∈ link.keys found)) ∧
        id ∈ under (link.index w) key := by
  cases old with
  | none =>
    have hindex : link.index (reindex o record none w).1 = link.index (indexed o record w) := by cases link <;> rfl
    simp [hindex, mem_indexed]
  | some old =>
    have hindex : link.index (reindex o record (some old) w).1 = link.index (indexed o record (deindexed o old w)) := by
      cases link <;> rfl
    simp [hindex, mem_indexed, mem_deindexed]

theorem reindex_revision : (reindex o record old w).1.indexedStoreRevision = some (reindex o record old w).1.store.revision := by
  cases old <;> rfl

theorem indexed_frontierEngine (record : RuntimeRecord) (w : RuntimeState) :
    (indexed o record w).frontierEngine = w.frontierEngine := by
  unfold indexed
  split_ifs <;> rfl

theorem reindex_frontierEngine (h : w.frontierEngine = none) : (reindex o record old w).1.frontierEngine = none := by
  cases old with
  | none =>
    show (indexed o record w).frontierEngine.map _ = none
    rw [indexed_frontierEngine, h]
    rfl
  | some old =>
    have hdeindexed : (deindexed o old w).frontierEngine = w.frontierEngine := by
      unfold deindexed
      split_ifs <;> rfl
    show (indexed o record (deindexed o old w)).frontierEngine.map _ = none
    rw [indexed_frontierEngine, hdeindexed, h]
    rfl

/-- The record has been written, and its links take the place of those of the record that was there. -/
theorem Sound.reindexed (hs : Sound o w) (hi : Indexed o w) (hw : Written w.store w₁.store record event)
    (hindexes : indexes w₁ = indexes w) :
    Sound o (reindex o record (w.store.get record.envelope.memoryId) w₁).1 := by
  have hstore : (reindex o record (w.store.get record.envelope.memoryId) w₁).1.store = w₁.store :=
    (Prod.mk.inj (reindex_quiet _ w₁)).1
  have hrecords := (congrArg InMemoryRuntimeStore.records hstore).trans hw.records
  refine ⟨keyed_set hs.keyed hrecords, fun revision hr => ?_, fun _ link key id => ?_, reindex_frontierEngine ?_⟩
  · rw [reindex_revision] at hr
    exact (Option.some.inj hr).ge
  · have hget : (reindex o record (w.store.get record.envelope.memoryId) w₁).1.store.get id
        = if id = record.envelope.memoryId then some record else w.store.get id := by
      rw [InMemoryRuntimeStore.get, hrecords, OrderedMap.get?_set]
      rfl
    rw [mem_reindexed, index_congr hindexes, hi link key id]
    unfold Linked
    rw [hget]
    by_cases hid : id = record.envelope.memoryId
    · subst hid
      rw [if_pos rfl]
      constructor
      · rintro (⟨-, hlinked⟩ | ⟨hnone, found, hfound, hlinked⟩)
        · exact ⟨record, rfl, hlinked⟩
        · exact absurd ⟨(hs.keyed _ found hfound).symm, hlinked⟩ (hnone found hfound)
      · rintro ⟨found, hfound, hlinked⟩
        rw [← Option.some.inj hfound] at hlinked
        exact .inl ⟨rfl, hlinked⟩
    · rw [if_neg hid, or_iff_right fun h => hid h.1]
      exact and_iff_right fun found hfound h => hid (h.1.trans (hs.keyed _ found hfound))
  · exact (congrArg (fun p => p.2.2.2) hindexes).trans hs.frontier

/-- What a mutation does that is called in step. -/
theorem perform_settles (eventId : Option String) (call : MutationCall) (hs : Sound o w) (hi : Indexed o w) :
    Sound o (call.perform host o eventId w).1 := by
  rcases perform_performs eventId call w.store w rfl with ⟨hsame, -⟩ | ⟨w₁, _, hsame, ⟨-, -, event, -, -, rfl⟩, hrun⟩
  · exact hs.steady hsame
  · have hs1 := hs.steady hsame
    rw [hrun, ← (Prod.mk.inj hsame).1]
    have hwrites := (persistRecordAndEvent_writes call.record event : (persistRecordAndEvent host o _ _).Meets writes) w₁
    rcases hpersisted : persistRecordAndEvent host o call.record event w₁ with ⟨w₂, e | u⟩ <;> rw [hpersisted] at hwrites
    · rw [bind_run_error hpersisted]
      exact hs1.advance hwrites.1 hwrites.2
    · rw [bind_run_ok hpersisted]
      exact hs1.reindexed (hi.steady hsame) (of_persistRecordAndEvent_ok hpersisted) hwrites.2

end Mutations

/-! ## Signals -/

section Signals

variable {payload : List (String × Json)} {sourceEvents : List V2Event} {id : String} {p : String → Prop}
  {s s' s'' : InMemoryRuntimeStore} {record' record'' : RuntimeRecord} {u : Unit}

theorem Staled.status (h : Staled record record') :
    record'.envelope.validity.status = .invalid ∨ record'.envelope.validity.status = .stale := by
  unfold Staled at h
  split_ifs at h with hdone
  · rwa [h]
  · obtain ⟨checkedAt, rfl⟩ := h
    exact .inr rfl

theorem Staled.trans (h : Staled record record') (h' : Staled record' record'') : Staled record record'' := by
  unfold Staled at h'
  rw [if_pos h.status] at h'
  rwa [h']

/-- The memory, the tenant and the links of the record stay. -/
theorem Staled.same (h : Staled record record') : record'.envelope.memoryId = record.envelope.memoryId ∧
    record'.envelope.tenantId = record.envelope.tenantId ∧ ∀ link : Link, link.keys record' = link.keys record := by
  unfold Staled at h
  split_ifs at h
  · rw [h]
    exact ⟨rfl, rfl, fun _ => rfl⟩
  · obtain ⟨checkedAt, rfl⟩ := h
    exact ⟨rfl, rfl, by rintro (_ | _) <;> rfl⟩

/-- The record under an id stays, or is one with `p` that becomes `STALE`. -/
def Marked (p : String → Prop) (s s' : InMemoryRuntimeStore) (id : String) : Prop :=
  s'.get id = s.get id ∨
    (p id ∧ ∃ record record', s.get id = some record ∧ s'.get id = some record' ∧ Staled record record')

theorem Marked.trans (h : Marked p s s' id) (h' : Marked p s' s'' id) : Marked p s s'' id := by
  rcases h with h | ⟨hp, record, record', hget, hget', hstaled⟩
  · unfold Marked
    rwa [← h]
  · rcases h' with h' | ⟨-, found, record'', hfound, hget'', hstaled'⟩
    · exact .inr ⟨hp, record, record', hget, h'.trans hget', hstaled⟩
    · obtain rfl := Option.some.inj (hget'.symm.trans hfound)
      exact .inr ⟨hp, record, record'', hget, hget'', hstaled.trans hstaled'⟩

theorem Marked.evolves (h : Marked p s s' id) (hget : s.get id = some record) :
    ∃ record', s'.get id = some record' ∧ (record' = record ∨ Staled record record') := by
  rcases h with h | ⟨-, found, record', hfound, hget', hstaled⟩
  · exact ⟨record, h.trans hget, .inl rfl⟩
  · obtain rfl := Option.some.inj (hget.symm.trans hfound)
    exact ⟨record', hget', .inr hstaled⟩

def marking (p : String → Prop) : Guarantee RuntimeState where
  holds w w' := indexes w' = indexes w ∧ advances.holds w.store w'.store ∧
    (Keyed w.store → ∀ id, Marked p w.store w'.store id)
  refl w := ⟨rfl, advances.refl w.store, fun _ _ => .inl rfl⟩
  trans _ _ _ h h' := ⟨h'.1.trans h.1, advances.trans _ _ _ h.2.1 h'.2.1, fun hkeyed id =>
    (h.2.2 hkeyed id).trans (h'.2.2 (h.2.1.1 hkeyed) id)⟩

theorem marking_of_same (hindexes : indexes w' = indexes w)
    (h : w'.store.records = w.store.records ∧ w'.store.revision = w.store.revision) : (marking p).holds w w' := by
  refine ⟨hindexes, advances_of_same h, fun _ id => .inl ?_⟩
  unfold InMemoryRuntimeStore.get
  rw [h.1]

theorem marking_of_steady (h : steadily.holds w w') : (marking p).holds w w' := by
  obtain ⟨hstore, hindexes⟩ := Prod.mk.inj h
  exact marking_of_same hindexes (by rw [hstore]; exact ⟨rfl, rfl⟩)

theorem auditEvent_marks (event : V2Event) : (auditEvent host o event).Meets (marking p) := by
  unfold auditEvent
  exact Meets.ite (fun _ => marking_of_steady rfl) (Meets.pure ())

theorem onStore_marks {c : StoreCommand Unit}
    (hc : ∀ s, (c s).1.records = s.records ∧ (c s).1.revision = s.revision) : (onStore c).Meets (marking p) :=
  fun w => marking_of_same rfl (hc w.store)

theorem emitSourceChanged_marks (change : RuntimeSourceChange) : (emitSourceChanged host o change).Meets (marking p) := by
  refine (Meets.read _).bind fun existing => ?_
  cases existing with
  | some existing => exact (Meets.rejectIf _ _).bind fun _ => Meets.pure _
  | none =>
    have hdrawn : (randomUUID host).Meets (marking p) := fun _ => marking_of_steady rfl
    have hread : (now host).Meets (marking p) := fun _ => marking_of_steady rfl
    refine hdrawn.bind fun _ => hread.bind fun _ => Meets.ite ?_ (Meets.pure _)
    exact (onStore_marks (appendEvent_records _)).bind fun _ => (auditEvent_marks _).bind fun _ => Meets.pure _

theorem persistRecordAndEvent_store (record : RuntimeRecord) (event : V2Event) (w : RuntimeState) :
    (persistRecordAndEvent host o record event w).1.store = (putAndAppend record event w.store).1 := by
  unfold persistRecordAndEvent
  rcases hrun : onStore (putAndAppend record event) w with ⟨w₁, e | u⟩
  · rw [bind_run_error hrun]
    rw [onStore_run] at hrun
    rw [← (Prod.mk.inj hrun).1]
  · rw [bind_run_ok hrun, auditEvent_store]
    rw [onStore_run] at hrun
    rw [← (Prod.mk.inj hrun).1]

theorem putAndAppend_records (record : RuntimeRecord) (event : V2Event) (s : InMemoryRuntimeStore) :
    (putAndAppend record event s).1.records = s.records ∨
      (putAndAppend record event s).1.records = s.records.set record.envelope.memoryId record := by
  by_cases hvalid : validateMemoryEnvelopeV2 record.envelope = []
  · refine .inr ?_
    unfold putAndAppend
    rw [bind_run_ok (put_valid hvalid)]
    exact (appendEvent_records event _).1
  · obtain ⟨e, he⟩ : ∃ e, putAndAppend record event s = (s, .error e) := putAndAppend_invalid hvalid
    rw [he]
    exact .inl rfl

theorem persistRecordAndEvent_marks {event : V2Event} (hp : p id) (hget : w.store.get id = some record)
    (hstaled : Staled record record') : (marking p).holds w (persistRecordAndEvent host o record' event w).1 := by
  have hwrites := (persistRecordAndEvent_writes record' event : (persistRecordAndEvent host o record' event).Meets writes) w
  refine ⟨hwrites.2, hwrites.1, fun hkeyed id' => ?_⟩
  have hid : record'.envelope.memoryId = id := hstaled.same.1.trans (hkeyed id record hget)
  unfold Marked InMemoryRuntimeStore.get
  rw [persistRecordAndEvent_store]
  rcases putAndAppend_records record' event w.store with h | h
  · rw [h]
    exact .inl rfl
  · rw [h, OrderedMap.get?_set, hid]
    split_ifs with heq
    · subst heq
      exact .inr ⟨hp, record, record', hget, rfl, hstaled⟩
    · exact .inl rfl

theorem of_withStatus_ok {envelope envelope' : MemoryEnvelopeV2} {status : V2MemoryStatus}
    (h : (withStatus host envelope status w).2 = .ok envelope') :
    ∃ checkedAt, envelope' = { envelope with validity := { envelope.validity with status, checkedAt } } := by
  obtain ⟨checkedAt, -, hparsed⟩ := of_bind_snd_ok h
  exact ⟨checkedAt, (of_parseMemoryEnvelopeV2_ok (of_lift_snd_ok hparsed)).1⟩

theorem withStatus_steady (envelope : MemoryEnvelopeV2) (status : V2MemoryStatus) :
    (withStatus host envelope status).Meets steadily :=
  (show (now host).Meets steadily from fun _ => rfl).bind fun _ => Meets.lift _

/-- A round leaves a record that is `STALE` or `INVALID`, and writes any other as `STALE`. -/
theorem staleRecord_ends (hget : s.get id = some record) :
    Ends s (record.envelope.tenantId = o.tenantId → Staled record record)
      (fun c => ∃ record' event, Staled record record' ∧ c = persistRecordAndEvent host o record' event)
      (staleRecord host o payload sourceEvents id) := by
  unfold staleRecord stored
  refine .read (fun s => s.get id) ?_
  rw [hget]
  refine .bind (invalidateRecordReceipts_steady record) fun _ _ _ _ => ?_
  split_ifs with hdone
  · exact .steady (Meets.pure _) fun htenant => (if_pos (hdone.resolve_left (not_not_intro htenant))).mpr rfl
  · rw [not_or] at hdone
    refine .bind (withStatus_steady _ _) fun _ envelope _ hmarked => .bind (emit_steady _ _ _ _ _) fun _ event _ _ =>
      .write ⟨_, event, ?_, rfl⟩
    obtain ⟨checkedAt, rfl⟩ := of_withStatus_ok hmarked
    exact (if_neg hdone.2).mpr ⟨checkedAt, rfl⟩

theorem staleRecord_marks (hp : p id) : (staleRecord host o payload sourceEvents id).Meets (marking p) := by
  intro w
  cases hget : w.store.get id with
  | none =>
    unfold staleRecord stored
    rw [read_bind, hget]
    exact (marking p).refl w
  | some record =>
    rcases @staleRecord_ends _ _ host o _ payload sourceEvents _ _ hget w rfl with
      ⟨hsame, -⟩ | ⟨w₁, _, hsame, ⟨record', event, hstaled, rfl⟩, hrun⟩
    · exact marking_of_steady hsame
    · rw [hrun]
      rw [← (Prod.mk.inj hsame).1] at hget
      exact (marking p).trans _ _ _ (marking_of_steady hsame) (persistRecordAndEvent_marks hp hget hstaled)

/-- A round that returns has made the record `STALE`. -/
theorem staled_of_staleRecord_ok (hkeyed : Keyed w.store) (hget : w.store.get id = some record)
    (htenant : record.envelope.tenantId = o.tenantId)
    (h : staleRecord host o payload sourceEvents id w = (w', .ok u)) :
    ∃ record', w'.store.get id = some record' ∧ Staled record record' := by
  rcases @staleRecord_ends _ _ host o _ payload sourceEvents _ _ hget w rfl with
    ⟨hsame, hok⟩ | ⟨w₁, _, -, ⟨record', event, hstaled, rfl⟩, hrun⟩
  · rw [h] at hsame hok
    exact ⟨record, by rwa [(Prod.mk.inj hsame).1], hok u rfl htenant⟩
  · rw [h] at hrun
    have hwritten := (of_persistRecordAndEvent_ok hrun.symm).get
    rw [hstaled.same.1, hkeyed id record hget] at hwritten
    exact ⟨record', hwritten, hstaled⟩

theorem staled_of_forEach_ok {l : List String} (hkeyed : Keyed w.store) (hmem : id ∈ l)
    (hget : w.store.get id = some record) (htenant : record.envelope.tenantId = o.tenantId)
    (h : Command.forEach (staleRecord host o payload sourceEvents) l w = (w', .ok u)) :
    ∃ record', w'.store.get id = some record' ∧ Staled record record' := by
  induction l generalizing w record with
  | nil => cases hmem
  | cons a l ih =>
    obtain ⟨w₁, u1, hfirst, hrest⟩ := Command.of_bind_ok h
    have hmarks : ∀ a, (staleRecord host o payload sourceEvents a).Meets (marking fun _ => True) :=
      fun a => staleRecord_marks trivial
    have hround := hmarks a w
    rw [hfirst] at hround
    have hkeyed1 := hround.2.1.1 hkeyed
    rcases List.mem_cons.mp hmem with rfl | hmem
    · obtain ⟨record1, hget1, hstaled⟩ := staled_of_staleRecord_ok hkeyed hget htenant hfirst
      have hothers := Meets.forEach (l := l) (fun a _ => hmarks a) w₁
      rw [hrest] at hothers
      obtain ⟨record', hget', rfl | hstaled'⟩ := (hothers.2.2 hkeyed1 id).evolves hget1
      · exact ⟨record', hget', hstaled⟩
      · exact ⟨record', hget', hstaled.trans hstaled'⟩
    · obtain ⟨record1, hget1, rfl | hstaled⟩ := (hround.2.2 hkeyed id).evolves hget
      · exact ih hkeyed1 hmem hget1 htenant hrest
      · obtain ⟨record', hget', hstaled'⟩ := ih hkeyed1 hmem hget1 (hstaled.same.2.1.trans htenant) hrest
        exact ⟨record', hget', hstaled.trans hstaled'⟩

/-! ## Which memories are affected -/

theorem mem_orderedIds {ids : List String} : id ∈ orderedIds w ids ↔ id ∈ ids := (List.perm_insertionSort _ _).mem_iff

theorem mem_dependents {dependency : String} (h : Indexed o w) :
    id ∈ dependents w dependency ↔ Linked o w.store .dependency id dependency :=
  mem_orderedIds.trans (h .dependency dependency id)

theorem mem_directIds {changes : List RuntimeSourceChange} (h : Indexed o w) :
    id ∈ directIds changes w ↔ ∃ change ∈ changes, Linked o w.store .source id change.sourceUri := by
  unfold directIds
  rw [mem_orderedIds, mem_unique, List.mem_flatMap]
  exact exists_congr fun change => and_congr_right fun _ => h .source change.sourceUri id

theorem mem_dependentClosure {seeds : List String} (h : Indexed o w) : id ∈ dependentClosure w seeds ↔ ∃ root ∈ seeds,
      Relation.ReflTransGen (fun dependency id => Linked o w.store .dependency id dependency) root id := by
  have hnext : ∀ a, ∀ b ∈ dependents w a, b ∈ allDependents w := by
    intro a b hb
    have hunder : b ∈ under w.dependentsByDependency a := mem_orderedIds.mp hb
    unfold under at hunder
    cases hget : w.dependentsByDependency.get? a with
    | none =>
      rw [hget] at hunder
      exact absurd hunder (OrderedSet.not_mem_empty b)
    | some ids =>
      rw [hget] at hunder
      exact List.mem_flatMap.mpr ⟨ids, (OrderedMap.mem_values _).mpr ⟨a, hget⟩, hunder⟩
  have hclosure := mem_closure hnext (Nat.lt_succ_self ((unique seeds).length + (allDependents w).length)) id
  have hstep : (fun a b => b ∈ dependents w a) = fun dependency id => Linked o w.store .dependency id dependency := by
    funext a b
    exact propext (mem_dependents h)
  unfold Leads at hclosure
  rw [hstep] at hclosure
  exact hclosure.trans (exists_congr fun root => and_congr_left fun _ => mem_unique)

/-! ## The whole signal -/

theorem refresh_sound (host : RuntimeHost) (hs : Sound o w) :
    ∃ w₁, refreshIndexesIfStoreChanged host o w = (w₁, .ok ()) ∧ w₁.store = w.store ∧ Sound o w₁ ∧ Indexed o w₁ := by
  refine ⟨_, rfl, ?_⟩
  dsimp only
  split_ifs with hcurrent
  · exact ⟨rfl, hs, hs.indexed hcurrent⟩
  · exact ⟨rebuildIndexes_store host o w, rebuildIndexes_sound hs.keyed hs.frontier⟩

theorem Marked.linked (h : Marked p s s' id) {link : Link} {key : String} :
    Linked o s' link id key ↔ Linked o s link id key := by
  unfold Linked
  rcases h with h | ⟨-, record, record', hget, hget', hstaled⟩
  · rw [h]
  · obtain ⟨-, htenant, hkeys⟩ := hstaled.same
    simp [hget, hget', htenant, hkeys]

theorem marking_sound (h : (marking p).holds w w') (hs : Sound o w) (hi : Indexed o w) : Sound o w' ∧ Indexed o w' := by
  refine ⟨hs.advance h.2.1 h.1, fun link key id => ?_⟩
  rw [index_congr h.1, (h.2.2 hs.keyed id).linked]
  exact hi link key id

theorem emits_mark (changes : List RuntimeSourceChange) :
    (Command.mapEach (emitSourceChanged host o) changes).Meets (marking p) := by
  induction changes with
  | nil => exact Meets.pure _
  | cons change changes ih =>
    exact (emitSourceChanged_marks change).bind fun _ => ih.bind fun _ => Meets.pure _

theorem affectedBySourceChange_run (direct : List String) (h : w.frontierEngine = none) :
    affectedBySourceChange direct w = (w, .ok (dependentClosure w direct)) := by
  unfold affectedBySourceChange
  rw [h]

theorem affected_congr {changes : List RuntimeSourceChange} (h : ∀ id, s'.get id = s.get id) :
    Affected o changes s' id ↔ Affected o changes s id := by
  unfold Affected Linked
  simp only [h]

theorem affected_stored {changes : List RuntimeSourceChange} (h : Affected o changes s id) :
    ∃ record, s.get id = some record ∧ record.envelope.tenantId = o.tenantId := by
  obtain ⟨root, ⟨change, -, record, hget, htenant, -⟩, hpath⟩ := h
  rcases Relation.ReflTransGen.cases_tail hpath with rfl | ⟨_, -, found, hfound, htenant', -⟩
  · exact ⟨record, hget, htenant⟩
  · exact ⟨found, hfound, htenant'⟩

/-- What a traversal does, whether it returns or throws. -/
theorem propagate_spec {changes : List RuntimeSourceChange} {r : Except RuntimeError (List String)} (hs : Sound o w)
    (h : propagate host o changes payload w = (w', r)) :
    Sound o w' ∧ (∀ id, Marked (Affected o changes w.store) w.store w'.store id) ∧
      ∀ affected, r = .ok affected → Propagates o changes w.store w'.store affected := by
  unfold propagate at h
  obtain ⟨w₁, hrefresh, hstore1, hs1, hi1⟩ := refresh_sound host hs
  rw [bind_run_ok hrefresh] at h
  have hmarks2 : (marking fun _ => False).holds w₁ (Command.mapEach (emitSourceChanged host o) changes w₁).1 :=
    emits_mark changes w₁
  rcases hemits : Command.mapEach (emitSourceChanged host o) changes w₁ with ⟨w₂, e | events⟩ <;>
    rw [hemits] at hmarks2 <;> obtain ⟨hs2, hi2⟩ := marking_sound hmarks2 hs1 hi1
  all_goals
    have hsame : ∀ id, w₂.store.get id = w.store.get id := by
      intro id
      rw [← hstore1]
      exact (hmarks2.2.2 hs1.keyed id).resolve_right fun hfalse => hfalse.1
  · rw [bind_run_error hemits] at h
    cases h
    exact ⟨hs2, fun id => .inl (hsame id), nofun⟩
  · rw [bind_run_ok hemits, read_bind, bind_run_ok (affectedBySourceChange_run _ hs2.frontier)] at h
    have hanswer : ∀ id, id ∈ dependentClosure w₂ (directIds changes w₂) ↔ Affected o changes w.store id := by
      intro id
      rw [← affected_congr hsame, mem_dependentClosure hi2]
      exact exists_congr fun root => and_congr_left fun _ => mem_directIds hi2
    generalize dependentClosure w₂ (directIds changes w₂) = affected at h hanswer
    have hmarks3 : (marking (Affected o changes w.store)).holds w₂
        (Command.forEach (staleRecord host o payload events) affected w₂).1 :=
      Meets.forEach (fun id hid => staleRecord_marks ((hanswer id).mp hid)) w₂
    rcases hrounds : Command.forEach (staleRecord host o payload events) affected w₂ with ⟨w3, e | u⟩ <;>
      rw [hrounds] at hmarks3 <;> obtain ⟨hs3, hi3⟩ := marking_sound hmarks3 hs2 hi2
    all_goals
      have hmarked : ∀ id, Marked (Affected o changes w.store) w.store w3.store id :=
        fun id => Marked.trans (.inl (hsame id)) (hmarks3.2.2 hs2.keyed id)
    · rw [bind_run_error hrounds] at h
      cases h
      exact ⟨hs3, hmarked, nofun⟩
    · rw [bind_run_ok hrounds] at h
      cases h
      have hi : Indexed o { w3 with indexedStoreRevision := some w3.store.revision } := by
        rintro (_ | _) key id
        · exact hi3 .source key id
        · exact hi3 .dependency key id
      refine ⟨⟨hs3.keyed, fun revision hr => (Option.some.inj hr).ge, fun _ => hi, hs3.frontier⟩, hmarked, ?_⟩
      intro answer hok
      cases hok
      refine ⟨hanswer, fun id hid => ?_, fun id hid => (hmarked id).resolve_right fun hin => hid ((hanswer id).mpr hin.1)⟩
      obtain ⟨record, hget, htenant⟩ := affected_stored ((hanswer id).mp hid)
      obtain ⟨record', hget', hstaled⟩ := staled_of_forEach_ok hs2.keyed hid ((hsame id).trans hget) htenant hrounds
      exact ⟨record, record', hget, hget', hstaled⟩

theorem sourceUri_of_same {change change' : RuntimeSourceChange} (h : change.document.sorted = change'.document.sorted) :
    change.sourceUri = change'.sourceUri := by
  have hfirst : ("sourceUri", Json.string change.sourceUri) ∈ change.payload ++ optionalText "eventId" change.eventId :=
    List.mem_cons_self
  obtain ⟨v, hv, hsame⟩ := Json.Same.mem (v := .string change.sourceUri) h hfirst
  have hvalue : v = .string change'.sourceUri := by
    unfold RuntimeSourceChange.payload optionalText at hv
    cases hobservation : change'.observation <;> cases hevent : change'.eventId <;>
      simpa [Json.optional, hobservation, hevent] using hv
  rw [hvalue] at hsame
  exact Json.string.inj hsame

theorem affected_uniqueChanges {changes : List RuntimeSourceChange} :
    Affected o (uniqueChanges changes) s id ↔ Affected o changes s id := by
  refine exists_congr fun root => and_congr_left fun _ => ⟨?_, ?_⟩
  · rintro ⟨change, hmem, hlinked⟩
    obtain ⟨k, hget⟩ := (OrderedMap.mem_values _).mp hmem
    obtain ⟨found, hfound, heq⟩ := List.mem_map.mp (OrderedMap.mem_of_mem_ofList ((OrderedMap.get?_eq_some_iff _).mp hget))
    obtain ⟨-, rfl⟩ := Prod.mk.inj heq
    exact ⟨found, hfound, hlinked⟩
  · rintro ⟨change, hmem, hlinked⟩
    obtain ⟨found, hfound⟩ := (OrderedMap.mem_keys _).mp (OrderedMap.mem_keys_ofList.mpr
      ⟨_, List.mem_map_of_mem (f := fun change => (change.document.sorted, change)) hmem, rfl⟩)
    have hsame := OrderedMap.mem_of_mem_ofList ((OrderedMap.get?_eq_some_iff _).mp hfound)
    obtain ⟨other, -, heq⟩ := List.mem_map.mp hsame
    obtain ⟨hdocument, rfl⟩ := Prod.mk.inj heq
    refine ⟨other, (OrderedMap.mem_values _).mpr ⟨_, hfound⟩, ?_⟩
    rwa [sourceUri_of_same hdocument]

/-- What a signal does, whether it returns or throws. -/
theorem signal_spec {changes : List RuntimeSourceChange} {r : Except RuntimeError (List String)} (hs : Sound o w)
    (h : signalSourcesChanged host o changes w = (w', r)) :
    Sound o w' ∧ (∀ id, Marked (Affected o changes w.store) w.store w'.store id) ∧
      ∀ affected, r = .ok affected → Propagates o changes w.store w'.store affected := by
  unfold signalSourcesChanged at h
  split_ifs at h with hnone
  · cases h
    refine ⟨hs, fun id => .inl rfl, fun affected hok => ?_⟩
    cases hok
    refine ⟨fun id => iff_of_false List.not_mem_nil ?_, fun id hid => absurd hid List.not_mem_nil, fun _ _ => rfl⟩
    rintro ⟨root, ⟨change, hmem, -⟩, -⟩
    rw [hnone] at hmem
    exact List.not_mem_nil hmem
  · by_cases hempty : ∃ change ∈ changes, change.sourceUri = ""
    · rw [rejectIf_pos hempty] at h
      cases h
      exact ⟨hs, fun id => .inl rfl, nofun⟩
    · rw [rejectIf_neg hempty, pure_bind_run] at h
      obtain ⟨payload, hrun⟩ : ∃ payload, propagate host o (uniqueChanges changes) payload w = (w', r) := by
        rcases hunique : uniqueChanges changes with _ | ⟨change, _ | ⟨other, rest⟩⟩ <;> rw [hunique] at h
        all_goals exact ⟨_, h⟩
      have haffected : Affected o (uniqueChanges changes) w.store = Affected o changes w.store := by
        funext id
        exact propext affected_uniqueChanges
      obtain ⟨hsound, hmarked, hok⟩ := propagate_spec hs hrun
      rw [haffected] at hmarked
      refine ⟨hsound, hmarked, fun affected hreturn => ?_⟩
      obtain ⟨hanswer, hstaled, hothers⟩ := hok affected hreturn
      exact ⟨fun id => (hanswer id).trans affected_uniqueChanges, hstaled, hothers⟩

/-! ## Runs -/

theorem opened_sound {store : InMemoryRuntimeStore} (hkeyed : Keyed store) (h : o.incrementalFrontier = false) :
    Sound o (opened host o store) := by
  unfold opened
  rw [h]
  exact (rebuildIndexes_sound hkeyed rfl).1

theorem sound_of_reachable (h : o.incrementalFrontier = false)
    (hreach : ((runtimeSystem host o).restrict InStep).Reachable w) : Sound o w := by
  refine hreach.invariant (Sound o) ?_ ?_
  · rintro _ ⟨calls, rfl⟩
    refine opened_sound ?_ h
    suffices hcalls : ∀ s : InMemoryRuntimeStore, Keyed s → Keyed (calls.foldl StoreCall.run s) from
      hcalls {} (fun _ _ hget => nomatch hget)
    induction calls with
    | nil => exact fun _ hs => hs
    | cons call calls ih =>
      exact fun s hs => ih _ ((StoreCall.holds put_advances appendEvent_advances call s).1 hs)
  · rintro w i _ hs ⟨rfl, hstep⟩
    cases i with
    | mutation eventId call => exact perform_settles eventId call hs (hs.indexed hstep)
    | signal changes => exact (signal_spec hs rfl).1
    | write call => exact hs.advance (StoreCall.holds put_advances appendEvent_advances call w.store) rfl

/-- While mutations are called in step, a signal that returns finds exactly what it affects. -/
theorem signalSourcesChanged_propagates (h : o.incrementalFrontier = false)
    (hreach : ((runtimeSystem host o).restrict InStep).Reachable w) {changes : List RuntimeSourceChange}
    {affected : List String} (hreturn : signalSourcesChanged host o changes w = (w', .ok affected)) :
    Propagates o changes w.store w'.store affected :=
  (signal_spec (sound_of_reachable h hreach) hreturn).2.2 affected rfl

/-- Whether a signal returns or throws, a record changes only when it is affected, and only to `STALE`. -/
theorem signalSourcesChanged_marks (h : o.incrementalFrontier = false)
    (hreach : ((runtimeSystem host o).restrict InStep).Reachable w) (changes : List RuntimeSourceChange) (id : String) :
    Marked (Affected o changes w.store) w.store (signalSourcesChanged host o changes w).1.store id :=
  (signal_spec (sound_of_reachable h hreach) rfl).2.1 id

def pageChange : RuntimeSourceChange where
  sourceUri := "file:page"
  version := { scheme := "etag", token := "2" }

def pageOptions : RuntimeOptions Unit Unit := {}

/-- A runtime in which the page has been registered. -/
def pageRegistered : RuntimeState :=
  ((registerPage pageRecord.content).perform tellingHost pageOptions (some "visit") (opened tellingHost pageOptions {})).1

theorem pageRegistered_reachable : ((runtimeSystem tellingHost pageOptions).restrict InStep).Reachable pageRegistered :=
  .step (i := .mutation (some "visit") (registerPage pageRecord.content)) (.init ⟨[], rfl⟩) ⟨rfl, rfl⟩

theorem signalSourcesChanged_propagates_page : ∃ w',
    signalSourcesChanged tellingHost pageOptions [pageChange] pageRegistered = (w', .ok ["page"]) ∧
      Propagates pageOptions [pageChange] pageRegistered.store w'.store ["page"] := by
  have hok : (signalSourcesChanged tellingHost pageOptions [pageChange] pageRegistered).2 = .ok ["page"] := by
    decide +kernel
  rcases hrun : signalSourcesChanged tellingHost pageOptions [pageChange] pageRegistered with ⟨w', r⟩
  rw [hrun] at hok
  obtain rfl : r = .ok ["page"] := hok
  exact ⟨w', rfl, signalSourcesChanged_propagates rfl pageRegistered_reachable hrun⟩

theorem signalSourcesChanged_marks_page : Marked (Affected pageOptions [pageChange] pageRegistered.store)
    pageRegistered.store (signalSourcesChanged tellingHost pageOptions [pageChange] pageRegistered).1.store "page" :=
  signalSourcesChanged_marks rfl pageRegistered_reachable [pageChange] "page"

end Signals

end Premise.RuntimeCore.PremiseRuntime
