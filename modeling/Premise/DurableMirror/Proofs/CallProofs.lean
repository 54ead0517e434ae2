import Premise.DurableMirror.Proofs.EnqueueProofs

/-!
# Proofs: the calls of the store keep it sound
-/

namespace Premise.DurableMirror

open Collections Control Js

variable {action : TaskAction}

namespace DurableMirrorStore

variable {s s' : DurableMirrorStore}

theorem adjustFreshness_eq (s : DurableMirrorStore) (record : MirrorRecord) (delta : Int) :
    ∃ freshness, s.adjustFreshness record delta = { s with freshness := freshness } := by
  unfold adjustFreshness
  cases record.freshnessState with
  | none => exact ⟨s.freshness, rfl⟩
  | some status => exact ⟨_, rfl⟩

theorem storeRecord_eq (s : DurableMirrorStore) (record : MirrorRecord) : ∃ freshness, s.storeRecord record = { s with
      records := s.records.set record.memoryId record
      freshness := freshness } := by
  unfold storeRecord
  cases s.records.get? record.memoryId with
  | none =>
    exact adjustFreshness_eq { s with records := s.records.set record.memoryId record } record 1
  | some previous =>
    dsimp only
    obtain ⟨freshness1, h1⟩ := adjustFreshness_eq s previous (-1)
    rw [h1]
    obtain ⟨freshness2, h2⟩ := adjustFreshness_eq { s with
      freshness := freshness1
      records := s.records.set record.memoryId record } record 1
    exact ⟨freshness2, h2⟩

theorem loadSnapshot_eq (s : DurableMirrorStore) (snapshot : MirrorSnapshot) :
    ∃ freshness, s.loadSnapshot snapshot = { s with
      records := snapshot.records.foldl
        (fun (m : OrderedMap String MirrorRecord) record => m.set record.memoryId record) ∅
      events := snapshot.events.foldl
        (fun (m : OrderedMap String MirrorEvent) event => m.set event.idempotencyKey event) ∅
      freshness := freshness } := by
  have hfold : ∀ (l : List MirrorRecord) (w : DurableMirrorStore), ∃ freshness,
      l.foldl (fun s record => s.adjustFreshness record 1) w = { w with freshness := freshness } := by
    intro l
    induction l with
    | nil => exact fun w => ⟨w.freshness, rfl⟩
    | cons record l ih =>
      intro w
      obtain ⟨freshness1, h1⟩ := adjustFreshness_eq w record 1
      obtain ⟨freshness2, h2⟩ := ih { w with freshness := freshness1 }
      exact ⟨freshness2, by rw [List.foldl_cons, h1, h2]⟩
  unfold loadSnapshot
  obtain ⟨freshness, h⟩ := hfold _ _
  exact ⟨freshness, h⟩

/-! ## After `enqueue` -/

theorem Enqueued.sound {s1 : DurableMirrorStore} (h : Enqueued action s s1) (h0 : s.Sound) (hfail : s.failure = none)
    (hready : s'.ready = s1.ready)
    (hconcurrency : s'.concurrency = s1.concurrency) (hmax : s'.maxPendingWrites = s1.maxPendingWrites)
    (htasks : s'.tasks = s1.tasks) (hactive : s'.activeWrites = s1.activeWrites)
    (hpending : s'.pendingWrites = s1.pendingWrites) (hfailure : s'.failure = s1.failure)
    (hcreated : s'.created = s1.created) (htask : s'.task = s1.task)
    (hbatch : ∀ t d, d ∈ (s'.batch t).dependencies ↔ d ∈ (s1.batch t).dependencies)
    (htails : ∀ id t, s'.recordTails.get? id = some t → s.recordTails.get? id = some t ∨ (t = s.created ∧ action.writesRecord = true))
    (hputs : ∀ t ∈ s'.pendingPuts, t ∈ s.pendingPuts ∨ (t = s.created ∧ action.writesRecord = true))
    (hlast : s'.lastEventTask = s.lastEventTask ∨ (s'.lastEventTask = some s.created ∧ action.ordersEvents = true))
    (hrestore : s'.restoreTask = s.restoreTask ∨ (s'.restoreTask = some s.created ∧ action.ordersEvents = true ∧ action ≠ .flushEventBatch))
    (hopened : s'.eventBatch = s.eventBatch ∨ (s'.eventBatch = some s.created ∧ action = .flushEventBatch))
    (hordered : action.ordersEvents = true → s'.lastEventTask = some s.created ∨ s'.restoreTask = some s.created) :
    s'.Sound := by
  obtain ⟨hg, hty, hlive0, -⟩ := h0
  obtain ⟨-, hcov, -⟩ := hlive0 hfail
  have hnew : s.created < s'.created := by
    rw [hcreated, h.created]
    omega
  have holdlt : ∀ t, t < s.created → t < s'.created := fun t ht => ht.trans hnew
  have haction : (s'.task s.created).action = action := by rw [htask, h.action_new]
  have holdaction : ∀ t, t < s.created → (s'.task t).action = (s.task t).action := by
    intro t ht
    rw [htask, h.action_old t ht]
  obtain ⟨hg1, hg2, hg3, hg4, hg5, hg6, hg7, hg8⟩ := h.graph
  obtain ⟨ht1, ht2, ht3, ht4, ht5, ht6, ht7, ht8, ht9⟩ := h.typed
  obtain ⟨hr1, hr2, hr3, hr4, hr5, hr6, hr7, hr8⟩ := h.running
  have hgraph : s'.TaskGraph := by
    refine ⟨?_, ?_, ?_, ?_, ?_, ?_, ?_, ?_⟩
    · rwa [htasks, hcreated, htask]
    · rwa [htasks, htask]
    · rwa [htasks, htask]
    · rwa [htasks, htask]
    · rwa [hready, htask]
    · rwa [hready, hcreated]
    · rwa [hready]
    · rwa [htasks, htask]
  have hlive : s'.failure = none := hfailure.trans (h.failure.trans hfail)
  refine ⟨hgraph, ⟨fun id t ht => ?_, fun t ht => ?_, fun t ht => ?_, fun t ht => ?_,
    fun t ht => ?_, ?_, fun t ht l hphase => ?_, fun t ht ha d hd => ?_, fun t ht d hd => ?_⟩,
    fun _ => ⟨⟨?_, ?_, ?_, ?_, ?_, fun b hb ha d hd => ?_, fun b hb t ht ha => ?_,
      fun hm b hb ha d hd => ?_⟩, fun t ht ha => ?_, ?_⟩, fun hf => absurd hlive hf⟩
  · rcases htails id t ht with ht | ⟨rfl, hw⟩
    · obtain ⟨hlt, hw⟩ := hty.tails id t ht
      rw [holdaction t hlt]
      exact ⟨holdlt t hlt, hw⟩
    · rw [haction]
      exact ⟨hnew, hw⟩
  · rcases hputs t ht with ht | ⟨rfl, hw⟩
    · obtain ⟨hlt, hw⟩ := hty.puts t ht
      rw [holdaction t hlt]
      exact ⟨holdlt t hlt, hw⟩
    · rw [haction]
      exact ⟨hnew, hw⟩
  · rcases hlast with hl | ⟨hl, ha⟩
    · obtain ⟨hlt, ha⟩ := hty.lastEvent t (hl ▸ ht)
      rw [holdaction t hlt]
      exact ⟨holdlt t hlt, ha⟩
    · rw [hl] at ht
      cases ht
      rw [haction]
      exact ⟨hnew, ha⟩
  · rcases hrestore with hr | ⟨hr, ha⟩
    · obtain ⟨hlt, ha⟩ := hty.restored t (hr ▸ ht)
      rw [holdaction t hlt]
      exact ⟨holdlt t hlt, ha⟩
    · rw [hr] at ht
      cases ht
      rw [haction]
      exact ⟨hnew, ha⟩
  · rcases hopened with ho | ⟨ho, ha⟩
    · obtain ⟨hlt, ha⟩ := hty.opened t (ho ▸ ht)
      rw [holdaction t hlt]
      exact ⟨holdlt t hlt, ha⟩
    · rw [ho] at ht
      cases ht
      rw [haction]
      exact ⟨hnew, ha⟩
  · rwa [htasks, htask]
  · rw [htasks] at ht
    rw [htask] at hphase ⊢
    exact ⟨(ht7 t ht l hphase).1, fun d hd => (hbatch t d).mpr ((ht7 t ht l hphase).2 d hd)⟩
  · rw [hcreated] at ht ⊢
    rw [htask] at ha ⊢
    exact ht8 t ht ha d ((hbatch t d).mp hd)
  · rw [hcreated] at ht
    exact ht9 t ht d ((hbatch t d).mp hd)
  · rwa [hready, htasks, htask]
  · rwa [hactive, htasks, htask]
  · rwa [hpending, htasks]
  · rwa [htasks, htask]
  · rwa [htasks, htask]
  · rw [hcreated] at hb ⊢
    rw [htask] at ha ⊢
    exact hr6 b hb ha d ((hbatch b d).mp hd)
  · -- the open batch is the last of the ordered tasks
    rcases hopened with ho | ⟨ho, -⟩
    · rw [ho, ← h.eventBatch] at hb
      rw [hcreated] at ht
      rw [htask] at ha
      exact hr7 b hb t ht ha
    · rw [ho] at hb
      cases hb
      rw [hcreated, h.created] at ht
      omega
  · rw [hmax] at hm
    rw [hcreated] at hb
    rw [htask] at ha ⊢
    rw [htasks]
    exact hr8 hm b hb ha d ((hbatch b d).mp hd)
  · rw [htasks] at ht
    rcases (h.tasks t).mp ht with rfl | hold
    · rw [haction] at ha
      exact ⟨s.created, htasks ▸ ht, hordered ha, le_rfl⟩
    · have hlt : t < s.created := ((hg.live t).mp hold).1
      cases hnewordered : action.ordersEvents with
      | true =>
        exact ⟨s.created, htasks ▸ (h.tasks _).mpr (Or.inl rfl), hordered hnewordered, Nat.le_of_lt hlt⟩
      | false =>
        rw [holdaction t hlt] at ha
        obtain ⟨l, hl, hcover, hle⟩ := hcov t hold ha
        have hlast' := hlast.resolve_right (fun h' => by simp [hnewordered] at h')
        have hrestore' := hrestore.resolve_right (fun h' => by simp [hnewordered] at h')
        rw [hlast', hrestore']
        exact ⟨l, htasks ▸ (h.tasks l).mpr (Or.inr hl), hcover, hle⟩
  · unfold Quiet
    rw [hready, hconcurrency, hactive]
    exact h.quiet

/-! ## The calls -/

theorem ensureWritable_ok (h : s.ensureWritable = .ok ()) : s.failure = none := by
  unfold ensureWritable at h
  cases hf : s.failure with
  | none => rfl
  | some failure =>
    rw [hf] at h
    cases h

theorem ensureCapacity_ok (h : s.ensureCapacity = .ok ()) : s.pendingWrites < s.maxPendingWrites.value := by
  unfold ensureCapacity at h
  split_ifs at h with hfull
  omega

theorem tail_mem {l : Option Nat} {d : Nat} (h : d ∈ l.toList) : l = some d := by
  cases l with
  | none => exact absurd h List.not_mem_nil
  | some a => rw [List.mem_singleton.mp h]

theorem Typed.tail_known (h : s.Typed) {id : String} {d : Nat}
    (hd : d ∈ (s.recordTails.get? id).toList) :
    d < s.created ∧ (s.task d).action.writesRecord = true :=
  h.tails id d (tail_mem hd)

theorem writesRecord_ne (h : action.writesRecord = true) : action ≠ .flushEventBatch := by
  rintro rfl
  cases h

theorem Sound.last_ordered (h : s.Sound) (hcov : s.Covered) (t : Nat) (ht : t ∈ s.tasks)
    (ha : (s.task t).action.ordersEvents = true) :
    ∃ l ∈ s.tasks, (s.task l).action.ordersEvents = true ∧
      (s.lastEventTask = some l ∨ s.restoreTask = some l) ∧ t ≤ l := by
  obtain ⟨l, hl, hcover, hle⟩ := hcov t ht ha
  refine ⟨l, hl, ?_, hcover, hle⟩
  rcases hcover with hcover | hcover
  · exact (h.typed.lastEvent l hcover).2
  · exact (h.typed.restored l hcover).2.1

theorem Sound.waits_known (h : s.Sound) {memoryId : String} {d : Nat}
    (hd : d ∈ s.restoreTask.toList ++ (s.recordTails.get? memoryId).toList) :
    d < s.created ∧ (s.task d).action ≠ .flushEventBatch := by
  rcases List.mem_append.mp hd with hd | hd
  · obtain ⟨hlt, -, hne⟩ := h.typed.restored d (tail_mem hd)
    exact ⟨hlt, hne⟩
  · obtain ⟨hlt, hw⟩ := h.typed.tail_known hd
    exact ⟨hlt, writesRecord_ne hw⟩

theorem Sound.waits_last (h : s.Sound) (hcov : s.Covered) {dependencies : List Nat}
    (hlast : ∀ l, s.lastEventTask = some l ∨ s.restoreTask = some l → l ∈ dependencies) (t : Nat)
    (ht : t ∈ s.tasks) (ha : (s.task t).action.ordersEvents = true) :
    ∃ d ∈ dependencies, d ∈ s.tasks ∧ (s.task d).action.ordersEvents = true ∧ t ≤ d := by
  obtain ⟨l, hl, hla, hcover, hle⟩ := h.last_ordered hcov t ht ha
  exact ⟨l, hlast l hcover, hl, hla, hle⟩

theorem Enqueued.trackWrite_tails (h : Enqueued action s s') (id : String) (hw : action.writesRecord = true)
    (key : String) (x : Nat) (hx : (s'.trackWrite id s.created).recordTails.get? key = some x) :
    s.recordTails.get? key = some x ∨ (x = s.created ∧ action.writesRecord = true) := by
  have htails : (s'.trackWrite id s.created).recordTails = s.recordTails.set id s.created := by
    rw [← h.recordTails]
    rfl
  rw [htails, OrderedMap.get?_set] at hx
  split_ifs at hx
  · exact .inr ⟨(Option.some.inj hx).symm, hw⟩
  · exact .inl hx

theorem Enqueued.trackWrite_puts (h : Enqueued action s s') (id : String) (hw : action.writesRecord = true)
    (x : Nat) (hx : x ∈ (s'.trackWrite id s.created).pendingPuts) :
    x ∈ s.pendingPuts ∨ (x = s.created ∧ action.writesRecord = true) := by
  have hputs : (s'.trackWrite id s.created).pendingPuts = s.pendingPuts.add s.created := by
    rw [← h.pendingPuts]
    rfl
  rw [hputs, OrderedSet.mem_add] at hx
  exact hx.symm.imp_right fun hx => ⟨hx, hw⟩

/-- The mirrored maps have changed, in a call that is accepted. -/
structure Stores (s s0 : DurableMirrorStore) : Prop where
  live : s.failure = none
  agrees : Agrees s s0
  recordTails : s0.recordTails = s.recordTails
  pendingPuts : s0.pendingPuts = s.pendingPuts
  settledPuts : s0.settledPuts = s.settledPuts

/-- The task of an accepted call can be enqueued. -/
structure Admits (action : TaskAction) (dependencies : List Nat) (s s0 : DurableMirrorStore) : Prop extends
    Stores s s0 where
  opened : action.ordersEvents = true → s0.eventBatch = none
  known : ∀ d ∈ dependencies, d < s0.created
  put : action.ordersEvents = false → ∀ d ∈ dependencies, (s0.task d).action ≠ .flushEventBatch
  chain : action.ordersEvents = true → ∀ t ∈ s0.tasks, (s0.task t).action.ordersEvents = true →
    ∃ d ∈ dependencies, d ∈ s0.tasks ∧ (s0.task d).action.ordersEvents = true ∧ t ≤ d

/-- The last tasks that a task has to wait for are among its dependencies. -/
structure Names (action : TaskAction) (dependencies : List Nat) (s : DurableMirrorStore) : Prop where
  last : action.ordersEvents = true → ∀ l, s.lastEventTask = some l ∨ s.restoreTask = some l → l ∈ dependencies
  restored : ∀ r, s.restoreTask = some r → r ∈ dependencies
  tails : ∀ memoryId, action.writes memoryId → ∀ l, s.recordTails.get? memoryId = some l → l ∈ dependencies

section Calls

variable {s0 s1 : DurableMirrorStore} {dependencies : List Nat}

theorem Stores.failure (h : Stores s s0) : s0.failure = none := h.agrees.failure.trans h.live

theorem Admits.enqueued (h : Admits action dependencies s s0) (hs : s.Sound) :
    Enqueued action s0 (s0.enqueue action dependencies).1 := by
  have h0 := h.agrees.sound hs
  exact enqueue_spec h0.graph h0.typed (h0.running h.failure).1 h.failure action dependencies h.known h.put h.chain h.opened

theorem Names.chain (h : Names action dependencies s) (hs : s.Sound) (hfail : s.failure = none)
    (ha : action.ordersEvents = true) (t : Nat) (ht : t ∈ s.tasks) (hat : (s.task t).action.ordersEvents = true) :
    ∃ d ∈ dependencies, d ∈ s.tasks ∧ (s.task d).action.ordersEvents = true ∧ t ≤ d :=
  hs.waits_last (hs.running hfail).2.1 (h.last ha) t ht hat

theorem put_cases (hs : s.Sound) (record : MirrorRecord) : (∃ err, s.put record = (s, .error err)) ∨
    ∃ s0 dependencies, Admits (.put record) dependencies s s0 ∧ Names (.put record) dependencies s0 ∧
      s0.records = s.records.set record.memoryId record ∧ s0.events = s.events ∧ s0.eventBatch = s.eventBatch ∧
      s.put record =
        ((s0.enqueue (.put record) dependencies).1.trackWrite record.memoryId s0.created, .ok ()) := by
  unfold DurableMirrorStore.put
  cases hwritable : s.ensureWritable with
  | error err => exact .inl ⟨err, rfl⟩
  | ok u =>
    cases s.ensureCapacity with
    | error err => exact .inl ⟨err, rfl⟩
    | ok u =>
      obtain ⟨freshness, hstore⟩ := storeRecord_eq s record
      rw [hstore]
      dsimp only
      generalize hs0 : ({ s with
        records := s.records.set record.memoryId record
        freshness := freshness
        revision := s.revision + 1 } : DurableMirrorStore) = s0
      have hstores : Stores s s0 := by
        rw [← hs0]
        exact ⟨ensureWritable_ok hwritable, ⟨rfl, rfl, rfl, rfl, rfl, rfl, rfl, rfl, rfl, rfl, rfl, rfl,
          fun _ _ h => h, fun _ h => h, fun _ h => h⟩, rfl, rfl, rfl⟩
      have hwaits : s.restoreTask.toList ++ (s.recordTails.get? record.memoryId).toList
          = s0.restoreTask.toList ++ (s0.recordTails.get? record.memoryId).toList := by rw [← hs0]
      have h0 := hstores.agrees.sound hs
      rw [hwaits]
      exact .inr ⟨s0, _, ⟨hstores, nofun, fun d hd => (h0.waits_known hd).1, fun _ d hd => (h0.waits_known hd).2, nofun⟩,
        ⟨nofun, fun r hr => by simp [hr], by rintro _ rfl l hl; simp [hl]⟩, by rw [← hs0], by rw [← hs0], by rw [← hs0],
        rfl⟩

theorem putAndAppend_cases (hs : s.Sound) (record : MirrorRecord) (event : MirrorEvent) :
    (∃ err, s.putAndAppend record event = (s, .error err)) ∨
    ∃ s0 dependencies, Admits (.putAndAppend record event) dependencies s s0 ∧
      Names (.putAndAppend record event) dependencies s0 ∧
      (∀ existing, s.events.get? event.idempotencyKey = some existing → conflicts existing event = false) ∧
      s0.records = s.records.set record.memoryId record ∧ s0.events = s.events.set event.idempotencyKey event ∧
      s0.eventBatch = none ∧ s.putAndAppend record event =
        ({ (s0.enqueue (.putAndAppend record event) dependencies).1.trackWrite record.memoryId s0.created with
          lastEventTask := some s0.created }, .ok ()) := by
  unfold DurableMirrorStore.putAndAppend
  cases hwritable : s.ensureWritable with
  | error err => exact .inl ⟨err, rfl⟩
  | ok u =>
    cases s.ensureCapacity with
    | error err => exact .inl ⟨err, rfl⟩
    | ok u =>
      split_ifs with hconflict
      · exact .inl ⟨_, rfl⟩
      obtain ⟨freshness, hstore⟩ := storeRecord_eq s record
      rw [hstore]
      dsimp only
      generalize hs0 : ({ s with
        records := s.records.set record.memoryId record
        freshness := freshness
        events := s.events.set event.idempotencyKey event
        revision := s.revision + 1
        eventBatch := none } : DurableMirrorStore) = s0
      have hstores : Stores s s0 := by
        rw [← hs0]
        exact ⟨ensureWritable_ok hwritable, ⟨rfl, rfl, rfl, rfl, rfl, rfl, rfl, rfl, rfl, rfl, rfl, rfl,
          fun _ _ h => h, fun _ h => h, by simp⟩, rfl, rfl, rfl⟩
      have hwaits : s.restoreTask.toList ++ s.lastEventTask.toList ++ (s.recordTails.get? record.memoryId).toList
          = s0.restoreTask.toList ++ s0.lastEventTask.toList ++ (s0.recordTails.get? record.memoryId).toList := by
        rw [← hs0]
      have hopen : s0.eventBatch = none := by rw [← hs0]
      have h0 := hstores.agrees.sound hs
      rw [hwaits]
      have hlast : ∀ l, s0.lastEventTask = some l ∨ s0.restoreTask = some l → l ∈ s0.restoreTask.toList
          ++ s0.lastEventTask.toList ++ (s0.recordTails.get? record.memoryId).toList := by
        rintro l (hl | hl)
        · simp [hl]
        · simp [hl]
      refine .inr ⟨s0, _, ⟨hstores, fun _ => hopen, fun d hd => ?_, (fun h => by cases h),
        fun _ => h0.waits_last (h0.running hstores.failure).2.1 hlast⟩, ⟨fun _ => hlast, fun r hr => hlast r (.inr hr),
        by rintro _ rfl l hl; simp [hl]⟩, fun existing hexisting => ?_, by rw [← hs0], by rw [← hs0], hopen, rfl⟩
      · rcases List.mem_append.mp hd with hd | hd
        · rcases List.mem_append.mp hd with hd | hd
          · exact (h0.typed.restored d (tail_mem hd)).1
          · exact (h0.typed.lastEvent d (tail_mem hd)).1
        · exact (h0.typed.tail_known hd).1
      · rw [hexisting] at hconflict
        simpa using hconflict

theorem restore_cases (hs : s.Sound) (snapshot : MirrorSnapshot) : (∃ err, s.restore snapshot = (s, .error err)) ∨
    ∃ s0, Admits (.restore snapshot) s0.tasks.elems s s0 ∧ s0.records = snapshot.records.foldl
        (fun (m : OrderedMap String MirrorRecord) record => m.set record.memoryId record) ∅ ∧
      s0.events = snapshot.events.foldl
        (fun (m : OrderedMap String MirrorEvent) event => m.set event.idempotencyKey event) ∅ ∧
      s0.eventBatch = none ∧ s.restore snapshot =
        ({ (s0.enqueue (.restore snapshot) s0.tasks.elems).1 with restoreTask := some s0.created }, .ok ()) := by
  unfold DurableMirrorStore.restore
  cases hwritable : s.ensureWritable with
  | error err => exact .inl ⟨err, rfl⟩
  | ok u =>
    cases s.ensureCapacity with
    | error err => exact .inl ⟨err, rfl⟩
    | ok u =>
      obtain ⟨freshness, hload⟩ := loadSnapshot_eq s snapshot
      rw [hload]
      dsimp only
      generalize hs0 : ({ s with
        records := snapshot.records.foldl
          (fun (m : OrderedMap String MirrorRecord) record => m.set record.memoryId record) ∅
        events := snapshot.events.foldl
          (fun (m : OrderedMap String MirrorEvent) event => m.set event.idempotencyKey event) ∅
        freshness := freshness
        revision := s.revision + 1
        eventBatch := none } : DurableMirrorStore) = s0
      have hstores : Stores s s0 := by
        rw [← hs0]
        exact ⟨ensureWritable_ok hwritable, ⟨rfl, rfl, rfl, rfl, rfl, rfl, rfl, rfl, rfl, rfl, rfl, rfl,
          fun _ _ h => h, fun _ h => h, nofun⟩, rfl, rfl, rfl⟩
      have hopen : s0.eventBatch = none := by rw [← hs0]
      have htasks : s.tasks.elems = s0.tasks.elems := by rw [← hs0]
      have h0 := hstores.agrees.sound hs
      rw [htasks]
      exact .inr ⟨s0, ⟨hstores, fun _ => hopen, fun d hd => ((h0.graph.live d).mp hd).1, nofun,
        fun _ t ht ha => ⟨t, ht, ht, ha, le_rfl⟩⟩, by rw [← hs0], by rw [← hs0], hopen, rfl⟩

theorem Sound.put (h : s.Sound) (record : MirrorRecord) : (s.put record).1.Sound := by
  rcases put_cases h record with ⟨err, hrun⟩ | ⟨s0, dependencies, hadmits, -, -, -, -, hrun⟩
  · rwa [hrun]
  · rw [hrun]
    have henqueued := hadmits.enqueued h
    exact henqueued.sound (hadmits.agrees.sound h) hadmits.failure rfl rfl rfl rfl rfl rfl rfl rfl rfl
      (fun _ _ => Iff.rfl) (henqueued.trackWrite_tails record.memoryId rfl)
      (henqueued.trackWrite_puts record.memoryId rfl) (Or.inl henqueued.lastEventTask)
      (Or.inl henqueued.restoreTask) (Or.inl henqueued.eventBatch) nofun

theorem Sound.putAndAppend (h : s.Sound) (record : MirrorRecord) (event : MirrorEvent) :
    (s.putAndAppend record event).1.Sound := by
  rcases putAndAppend_cases h record event with ⟨err, hrun⟩ | ⟨s0, dependencies, hadmits, -, -, -, -, -, hrun⟩
  · rwa [hrun]
  · rw [hrun]
    have henqueued := hadmits.enqueued h
    exact henqueued.sound (hadmits.agrees.sound h) hadmits.failure rfl rfl rfl rfl rfl rfl rfl rfl rfl
      (fun _ _ => Iff.rfl) (henqueued.trackWrite_tails record.memoryId rfl)
      (henqueued.trackWrite_puts record.memoryId rfl) (Or.inr ⟨rfl, rfl⟩) (Or.inl henqueued.restoreTask)
      (Or.inl henqueued.eventBatch) (fun _ => Or.inl rfl)

theorem Sound.restore (h : s.Sound) (snapshot : MirrorSnapshot) : (s.restore snapshot).1.Sound := by
  rcases restore_cases h snapshot with ⟨err, hrun⟩ | ⟨s0, hadmits, -, -, -, hrun⟩
  · rwa [hrun]
  · rw [hrun]
    have henqueued := hadmits.enqueued h
    exact henqueued.sound (hadmits.agrees.sound h) hadmits.failure rfl rfl rfl rfl rfl rfl rfl rfl rfl
      (fun _ _ => Iff.rfl) (fun id t ht => Or.inl (henqueued.recordTails ▸ ht))
      (fun t ht => Or.inl (henqueued.pendingPuts ▸ ht)) (Or.inl henqueued.lastEventTask)
      (Or.inr ⟨rfl, rfl, nofun⟩) (Or.inl henqueued.eventBatch) (fun _ => Or.inr rfl)

end Calls

/-! ## `appendEvent` -/

theorem Sound.started_of_few (h : s.Sound) (hfail : s.failure = none) (hsize : s.tasks.size ≤ 1)
    {d : Nat} (hd : d ∈ s.tasks) : (s.task d).started = true := by
  obtain ⟨hrun, -, hquiet⟩ := h.running hfail
  have hall : ∀ x ∈ s.tasks, x = d := by
    intro x hx
    have hx' : x ∈ s.tasks.elems := hx
    have hd' : d ∈ s.tasks.elems := hd
    obtain ⟨a, ha⟩ := List.length_eq_one_iff.mp (le_antisymm hsize (List.length_pos_of_mem hd'))
    rw [ha, List.mem_singleton] at hx' hd'
    rw [hx', hd']
  by_contra hwait
  have hwait' : (s.task d).started = false := by simpa using hwait
  have hready : d ∈ s.ready := by
    refine (hrun.ready_iff d).mpr ⟨hd, hwait', fun x hx => ?_⟩
    obtain ⟨hlive, hlt⟩ := h.graph.depends d hd x hx
    rw [hall x hlive] at hlt
    exact Nat.lt_irrefl d hlt
  have hnone : s.activeWrites = 0 := by
    rw [hrun.active, List.countP_eq_zero]
    intro x hx
    rw [hall x hx, hwait']
    exact Bool.false_ne_true
  rcases hquiet with hq | hq
  · rw [hq] at hready
    cases hready
  · have hpos := s.concurrency.pos
    omega

theorem Sound.joinBatch {b : Nat} (h : s.Sound) (hopen : s.eventBatch = some b)
    (hfew : s.failure = none → s.maxPendingWrites.value ≤ 2 → ∀ d ∈ s.tasks,
      (s.task d).action ≠ .flushEventBatch → (s.task d).started = true) (event : MirrorEvent) :
    (s.joinBatch b event).Sound := by
  obtain ⟨hblt, hbaction⟩ := h.typed.opened b hopen
  have hnamed : ∀ d, d ∈ s.pendingPuts ∨ d ∈ s.restoreTask.toList →
      d < s.created ∧ (s.task d).action ≠ .flushEventBatch := by
    rintro d (hd | hd)
    · obtain ⟨hlt, hw⟩ := h.typed.puts d hd
      exact ⟨hlt, writesRecord_ne hw⟩
    · obtain ⟨hlt, -, hne⟩ := h.typed.restored d (tail_mem hd)
      exact ⟨hlt, hne⟩
  have hbatch : ∀ x d, d ∈ ((s.joinBatch b event).batch x).dependencies ↔ d ∈ (s.batch x).dependencies ∨
        (x = b ∧ (d ∈ s.pendingPuts ∨ d ∈ s.restoreTask.toList)) := by
    intro x d
    have hupdate : (s.joinBatch b event).batch = Function.update s.batch b ⟨(s.batch b).events ++ [event],
          (((s.batch b).dependencies.addAll s.pendingPuts.elems).addAll s.restoreTask.toList)⟩ := rfl
    rw [hupdate]
    by_cases hx : x = b
    · rw [hx, Function.update_self, OrderedSet.mem_addAll, OrderedSet.mem_addAll, ← OrderedSet.mem_def]
      tauto
    · rw [Function.update_of_ne hx]
      tauto
  have hopened : ∀ x, (s.joinBatch b event).eventBatch = some x → s.eventBatch = some x := by
    intro x hx
    unfold DurableMirrorStore.joinBatch at hx
    dsimp only at hx
    split_ifs at hx
    exact hx
  obtain ⟨ht1, ht2, ht3, ht4, ht5, ht6, ht7, ht8, ht9⟩ := h.typed
  obtain ⟨hg1, hg2, hg3, hg4, hg5, hg6, hg7, hg8⟩ := h.graph
  refine ⟨⟨hg1, hg2, hg3, hg4, hg5, hg6, hg7, hg8⟩, ⟨ht1, ht2, ht3, ht4,
    fun x hx => ht5 x (hopened x hx), ht6, fun x hx l hphase => ?_, fun x hx ha d hd => ?_,
    fun x hx d hd => ?_⟩, fun hfail => ?_, h.failed⟩
  · obtain ⟨ha, hl⟩ := ht7 x hx l hphase
    exact ⟨ha, fun d hd => (hbatch x d).mpr (Or.inl (hl d hd))⟩
  · rcases (hbatch x d).mp hd with hd | ⟨-, hd⟩
    · exact ht8 x hx ha d hd
    · exact hnamed d hd
  · rcases (hbatch x d).mp hd with hd | ⟨rfl, -⟩
    · exact ht9 x hx d hd
    · exact absurd hblt (Nat.not_lt.mpr hx)
  · obtain ⟨hrun, hcov, hquiet⟩ := h.running hfail
    refine ⟨⟨hrun.ready_iff, hrun.active, hrun.pending, hrun.put_waits, hrun.chained,
      fun x hx ha d hd t ht hat hlt => ?_, fun x hx => hrun.open_last x (hopened x hx),
      fun hm x hx ha d hd hdlive => ?_⟩, hcov, hquiet⟩
    · rcases (hbatch x d).mp hd with hd | ⟨rfl, -⟩
      · exact hrun.closed_before x hx ha d hd t ht hat hlt
      · exact absurd (hrun.open_last x hopen t ht hat) (Nat.not_le.mpr hlt)
    · rcases (hbatch x d).mp hd with hd | ⟨-, hd⟩
      · exact hrun.few hm x hx ha d hd hdlive
      · exact hfew hfail hm d hdlive (hnamed d hd).2

theorem Sound.batch_known (h : s.Sound) {d : Nat}
    (hd : d ∈ s.lastEventTask.toList ++ s.restoreTask.toList) : d < s.created := by
  rcases List.mem_append.mp hd with hd | hd
  · exact (h.typed.lastEvent d (tail_mem hd)).1
  · exact (h.typed.restored d (tail_mem hd)).1

theorem mem_batch_waits {l : Nat} (h : s.lastEventTask = some l ∨ s.restoreTask = some l) :
    l ∈ s.lastEventTask.toList ++ s.restoreTask.toList := by
  rcases h with h | h
  · simp [h]
  · simp [h]

/-- The store that has opened a batch for the new task of `s₁`. -/
def withBatch (s₁ : DurableMirrorStore) (t : Nat) : DurableMirrorStore :=
  { s₁ with
    batch := Function.update s₁.batch t ⟨[], ∅⟩
    eventBatch := some t
    lastEventTask := some t }

theorem openBatch_none (hopen : s.eventBatch = none) : s.openBatch = (withBatch (s.enqueue .flushEventBatch
      (s.lastEventTask.toList ++ s.restoreTask.toList)).1 s.created, s.created) := by
  unfold openBatch
  rw [hopen]
  rfl

theorem openBatch_some {b : Nat} (hopen : s.eventBatch = some b) : s.openBatch = (s, b) := by
  unfold openBatch
  rw [hopen]

theorem Sound.withBatch {s1 : DurableMirrorStore} (h : s.Sound) (hfail : s.failure = none)
    (henqueued : Enqueued .flushEventBatch s s1) :
    (DurableMirrorStore.withBatch s1 s.created).Sound := by
  -- the batch of the new task is empty, as it was
  have hbatch : ∀ x d, d ∈ ((DurableMirrorStore.withBatch s1 s.created).batch x).dependencies ↔
      d ∈ (s1.batch x).dependencies := by
    intro x d
    show d ∈ ((Function.update s1.batch s.created ⟨[], ∅⟩) x).dependencies ↔ _
    by_cases hx : x = s.created
    · rw [hx, Function.update_self, henqueued.batch]
      exact ⟨fun hd => absurd hd (OrderedSet.not_mem_empty d), fun hd => absurd hd (h.typed.unused _ le_rfl d)⟩
    · rw [Function.update_of_ne hx]
  exact henqueued.sound h hfail rfl rfl rfl rfl rfl rfl
    rfl rfl rfl hbatch (fun id t ht => Or.inl (henqueued.recordTails ▸ ht))
    (fun t ht => Or.inl (henqueued.pendingPuts ▸ ht)) (Or.inr ⟨rfl, rfl⟩)
    (Or.inl henqueued.restoreTask) (Or.inr ⟨rfl, rfl⟩) (fun _ => Or.inl rfl)

/-- A new event joins the open batch, or one that is opened for it. -/
theorem appendEvent_cases (hs : s.Sound) (event : MirrorEvent) : (∃ err, s.appendEvent event = (s, .error err)) ∨
    (s.events.has event.idempotencyKey = true ∧ s.appendEvent event = (s, .ok ())) ∨
    (s.events.has event.idempotencyKey = false ∧ s.pendingWrites < s.maxPendingWrites.value ∧
      ∃ s0, s0 = { s with events := s.events.set event.idempotencyKey event } ∧ Stores s s0 ∧
        ((∃ b, s0.eventBatch = some b ∧ s.appendEvent event = (s0.joinBatch b event, .ok ())) ∨
          s0.eventBatch = none ∧ ∃ dependencies, Admits .flushEventBatch dependencies s s0 ∧
            Names .flushEventBatch dependencies s0 ∧ s.appendEvent event =
              ((withBatch (s0.enqueue .flushEventBatch dependencies).1 s0.created).joinBatch s0.created event, .ok ()))) := by
  unfold DurableMirrorStore.appendEvent
  cases hwritable : s.ensureWritable with
  | error err => exact .inl ⟨err, rfl⟩
  | ok u =>
    unfold OrderedMap.has
    cases hexisting : s.events.get? event.idempotencyKey with
    | some existing =>
      dsimp only
      split_ifs
      · exact .inl ⟨_, rfl⟩
      · exact .inr (.inl ⟨rfl, rfl⟩)
    | none =>
      cases hcapacity : s.ensureCapacity with
      | error err => exact .inl ⟨err, rfl⟩
      | ok u =>
        dsimp only
        have hstores : Stores s { s with events := s.events.set event.idempotencyKey event } :=
          ⟨ensureWritable_ok hwritable, ⟨rfl, rfl, rfl, rfl, rfl, rfl, rfl, rfl, rfl, rfl, rfl, rfl, fun _ _ h => h,
            fun _ h => h, fun _ h => h⟩, rfl, rfl, rfl⟩
        generalize ({ s with events := s.events.set event.idempotencyKey event } : DurableMirrorStore) = s0 at hstores ⊢
        have h0 := hstores.agrees.sound hs
        refine .inr (.inr ⟨rfl, ensureCapacity_ok hcapacity, s0, rfl, hstores, ?_⟩)
        cases hopen : s0.eventBatch with
        | some b =>
          rw [openBatch_some hopen]
          exact .inl ⟨b, rfl, rfl⟩
        | none =>
          rw [openBatch_none hopen]
          have hlast : ∀ l, s0.lastEventTask = some l ∨ s0.restoreTask = some l →
              l ∈ s0.lastEventTask.toList ++ s0.restoreTask.toList := fun l hl => mem_batch_waits hl
          exact .inr ⟨rfl, _, ⟨hstores, fun _ => hopen, fun d hd => h0.batch_known hd, nofun,
            fun _ => h0.waits_last (h0.running hstores.failure).2.1 hlast⟩,
            ⟨fun _ => hlast, fun r hr => hlast r (.inr hr), fun _ hw => absurd hw id⟩, rfl⟩

theorem Sound.appendEvent (h : s.Sound) (event : MirrorEvent) : (s.appendEvent event).1.Sound := by
  rcases appendEvent_cases h event with ⟨err, hrun⟩ | ⟨-, hrun⟩ | ⟨-, hroom, s0, -, hstores, hcase⟩
  · rwa [hrun]
  · rwa [hrun]
  · have h0 := hstores.agrees.sound h
    have hfew : s0.maxPendingWrites.value ≤ 2 → ∀ d ∈ s0.tasks, (s0.task d).started = true := by
      intro hm d hd
      rw [← hstores.agrees.pendingWrites, ← hstores.agrees.maxPendingWrites,
        (h0.running hstores.failure).1.pending] at hroom
      exact h0.started_of_few hstores.failure (by omega) hd
    rcases hcase with ⟨b, hopen, hrun⟩ | ⟨-, dependencies, hadmits, -, hrun⟩
    · rw [hrun]
      exact h0.joinBatch hopen (fun _ hm d hd _ => hfew hm d hd) event
    · rw [hrun]
      have henqueued := hadmits.enqueued h
      refine (h0.withBatch hstores.failure henqueued).joinBatch rfl (fun _ hm d hd hne => ?_) event
      rcases (henqueued.tasks d).mp hd with rfl | hd
      · exact absurd henqueued.action_new hne
      · refine henqueued.started d ((h0.graph.live d).mp hd).1 (hfew ?_ d hd)
        rw [← henqueued.maxPendingWrites]
        exact hm

theorem Sound.close (h : s.Sound) : s.close.Sound := by
  suffices hagrees : Agrees s s.close from hagrees.sound h
  exact ⟨rfl, rfl, rfl, rfl, rfl, rfl, rfl, rfl, rfl, rfl, rfl, rfl, fun _ _ h => h, fun _ h => h, fun _ h => h⟩

theorem CallStep.sound {call : MirrorStep} (h : s.Sound) (hstep : CallStep s call s') : s'.Sound := by
  cases hstep with
  | put record => exact h.put record
  | putAndAppend record event => exact h.putAndAppend record event
  | appendEvent event => exact h.appendEvent event
  | restore snapshot => exact h.restore snapshot
  | flush => exact h
  | close => exact h.close

theorem create_sound (persistent : PersistentMethods) (concurrency : WriteConcurrency)
    (maxPendingWrites : PendingLimit) (snapshot : MirrorSnapshot) :
    (create persistent concurrency maxPendingWrites snapshot).Sound := by
  unfold create
  generalize hs0 : ({
      persistent := persistent
      concurrency := concurrency
      maxPendingWrites := maxPendingWrites
      records := ∅
      events := ∅
      freshness := ∅
      ready := []
      tasks := ∅
      recordTails := ∅
      pendingPuts := ∅
      lastEventTask := none
      eventBatch := none
      restoreTask := none
      activeWrites := 0
      pendingWrites := 0
      failure := none
      closed := false
      revision := 0
      created := 0
      task := fun _ => ⟨.flushEventBatch, ∅, ∅, false, true, none, .finished⟩
      batch := fun _ => ⟨[], ∅⟩
      settledPuts := [] } : DurableMirrorStore) = s0
  obtain ⟨freshness, hload⟩ := loadSnapshot_eq s0 snapshot
  rw [hload, ← hs0]
  refine ⟨⟨?_, nofun, ?_, nofun, nofun, nofun, List.nodup_nil, nofun⟩,
    ⟨nofun, nofun, nofun, nofun, nofun, nofun, nofun, nofun, nofun⟩,
    fun _ => ⟨⟨?_, rfl, rfl, nofun, nofun, nofun, nofun, nofun⟩, nofun, Or.inl rfl⟩,
    fun h => absurd rfl h⟩
  · intro t
    simp
  · intro d t
    simp
  · intro t
    simp

theorem mirror_sound {concurrency : WriteConcurrency} {maxPendingWrites : PendingLimit}
    (h : (mirror concurrency maxPendingWrites).Reachable s) : s.Sound := by
  refine h.invariant Sound (fun s hs => ?_) (fun s step s' hs hstep => ?_)
  · obtain ⟨persistent, snapshot, rfl⟩ := hs
    exact create_sound persistent concurrency maxPendingWrites snapshot
  · rcases hstep with hstep | hstep
    · exact CallStep.sound hs hstep
    · exact JobStep.sound hs hstep

end DurableMirrorStore

/-!
# Proofs: no step changes the configuration, and no job the mirrored maps
-/

namespace DurableMirrorStore

variable {s s' : DurableMirrorStore} {t : Nat}

def config (s : DurableMirrorStore) : WriteConcurrency × PendingLimit :=
  (s.concurrency, s.maxPendingWrites)

def fixed (s : DurableMirrorStore) :
    (WriteConcurrency × PendingLimit) × OrderedMap String MirrorRecord ×
      OrderedMap String MirrorEvent :=
  (s.config, s.records, s.events)

theorem fixed_foldl {α : Type} {f : DurableMirrorStore → α → DurableMirrorStore}
    (hf : ∀ s a, (f s a).fixed = s.fixed) (l : List α) (s : DurableMirrorStore) :
    (l.foldl f s).fixed = s.fixed := by
  induction l generalizing s with
  | nil => rfl
  | cons a l ih => rw [List.foldl_cons, ih, hf]

theorem fixed_releaseDependent (t : Nat) (s : DurableMirrorStore) (dependent : Nat) :
    (releaseDependent t s dependent).fixed = s.fixed := by
  unfold releaseDependent
  dsimp only
  split_ifs
  · rfl
  · rfl

theorem fixed_release (s : DurableMirrorStore) (t : Nat) (error : Option JsError) :
    (s.release t error).fixed = s.fixed := by
  unfold release
  dsimp only
  generalize hs1 : List.foldl (releaseDependent t) _ _ = s1
  obtain ⟨task', heq, -⟩ := forgetDependent_spec t (s1.task t).dependencies.elems s1
  have hfixed : s1.fixed = s.fixed := by
    rw [← hs1]
    exact fixed_foldl (fixed_releaseDependent t) _ _
  rw [heq]
  split_ifs
  · exact hfixed
  · exact hfixed

theorem fixed_pump (s : DurableMirrorStore) : s.pump.fixed = s.fixed := by
  unfold pump
  cases hrun : run pumpBody (s.ready.length + s.tasks.size + 1) s with
  | none => rfl
  | some s' =>
    refine run_some_spec pumpBody (fun w => w.fixed = s.fixed) (fun w => w.fixed = s.fixed)
      (fun w w' hw hb => ?_) (fun w w' hw hb => ?_) _ s rfl hrun
    · obtain ⟨t, ready, -, -, hcase⟩ := pumpBody_again hb
      rcases hcase with ⟨-, rfl⟩ | ⟨-, failure, -, rfl⟩ | ⟨-, -, rfl⟩
      · exact hw
      · rw [fixed_release]
        exact hw
      · exact hw
    · rw [(pumpBody_done hb).1]
      exact hw

theorem fixed_settle (s : DurableMirrorStore) (t : Nat) (error : Option JsError) : (s.settle t error).fixed = s.fixed := by
  unfold settle
  split_ifs
  · rfl
  · rw [fixed_pump, fixed_release]

theorem fixed_cancelQueued (s : DurableMirrorStore) (error : Option JsError) : (s.cancelQueued error).fixed = s.fixed := by
  refine fixed_foldl (fun w a => ?_) _ s
  split_ifs
  · exact fixed_settle w a error
  · rfl

theorem fixed_enqueue (s : DurableMirrorStore) (action : TaskAction) (dependencies : List Nat) :
    (s.enqueue action dependencies).1.fixed = s.fixed := by
  unfold enqueue
  rw [fixed_pump]
  generalize OrderedSet.ofList (dependencies.filter (fun d => !(s.task d).settled)) = unsettled
  obtain ⟨task', heq, -⟩ := addDependent_spec s.created unsettled.elems { s with
    created := s.created + 1
    task := Function.update s.task s.created
      ⟨action, unsettled, ∅, false, false, none, .queued⟩
    pendingWrites := s.pendingWrites + 1
    tasks := s.tasks.add s.created }
  rw [heq]
  split_ifs
  · rfl
  · rfl

theorem config_enqueue (s : DurableMirrorStore) (action : TaskAction) (dependencies : List Nat) :
    (s.enqueue action dependencies).1.config = s.config :=
  congrArg Prod.fst (fixed_enqueue s action dependencies)

theorem config_loadSnapshot (s : DurableMirrorStore) (snapshot : MirrorSnapshot) :
    (s.loadSnapshot snapshot).config = s.config := by
  obtain ⟨freshness, h⟩ := loadSnapshot_eq s snapshot
  rw [h]
  rfl

theorem Stores.config (h : Stores s s') : s'.config = s.config :=
  Prod.ext h.agrees.concurrency h.agrees.maxPendingWrites

theorem CallStep.config_eq {call : MirrorStep} (hs : s.Sound) (hstep : CallStep s call s') : s'.config = s.config := by
  cases hstep with
  | put record =>
    rcases put_cases hs record with ⟨err, hrun⟩ | ⟨s0, dependencies, hadmits, -, -, -, -, hrun⟩
    · rw [hrun]
    · rw [hrun]
      exact (config_enqueue s0 _ dependencies).trans hadmits.config
  | putAndAppend record event =>
    rcases putAndAppend_cases hs record event with ⟨err, hrun⟩ | ⟨s0, dependencies, hadmits, -, -, -, -, -, hrun⟩
    · rw [hrun]
    · rw [hrun]
      exact (config_enqueue s0 _ dependencies).trans hadmits.config
  | appendEvent event =>
    rcases appendEvent_cases hs event with ⟨err, hrun⟩ | ⟨-, hrun⟩ | ⟨-, -, s0, -, hstores, hcase⟩
    · rw [hrun]
    · rw [hrun]
    · rcases hcase with ⟨b, -, hrun⟩ | ⟨-, dependencies, -, -, hrun⟩
      · rw [hrun]
        exact hstores.config
      · rw [hrun]
        have hconfig := (config_enqueue s0 .flushEventBatch dependencies).trans hstores.config
        generalize (s0.enqueue .flushEventBatch dependencies).1 = s1 at hconfig ⊢
        exact hconfig
  | restore snapshot =>
    rcases restore_cases hs snapshot with ⟨err, hrun⟩ | ⟨s0, hadmits, -, -, -, hrun⟩
    · rw [hrun]
    · rw [hrun]
      exact (config_enqueue s0 _ _).trans hadmits.config
  | flush | close => rfl

theorem fixed_issue (s : DurableMirrorStore) (t : Nat) (calls : List PersistentCall) :
    (s.issue t calls).fixed = s.fixed := by
  cases calls with
  | nil | cons => rfl

theorem JobStep.fixed_eq {job : MirrorStep} (hstep : JobStep s job s') : s'.fixed = s.fixed := by
  cases hstep with
  | @runAction t ht hphase =>
    unfold DurableMirrorStore.runAction
    split
    · exact fixed_issue s t _
    · split_ifs
      · exact fixed_issue s t _
      · exact fixed_issue s t _
    · rfl
    · exact fixed_issue s t _
  | fireImmediate ht hphase => rfl
  | @dependenciesSettled t l ht hphase _ =>
    unfold DurableMirrorStore.dependenciesSettled
    split
    · rfl
    · exact fixed_issue s t _
  | @callSettles t call rest outcome ht hphase =>
    cases outcome with
    | ok u => exact fixed_issue s t rest
    | error err => rfl
  | @actionReturned t error ht hphase =>
    cases error with
    | none => exact fixed_settle s t none
    | some failure => exact (fixed_cancelQueued _ _).trans (fixed_settle _ t _)
  | writeDone ht => rfl

theorem JobStep.config_eq {job : MirrorStep} (hstep : JobStep s job s') : s'.config = s.config :=
  congrArg Prod.fst (JobStep.fixed_eq hstep)

theorem mirror_config {concurrency : WriteConcurrency} {maxPendingWrites : PendingLimit}
    (h : (mirror concurrency maxPendingWrites).Reachable s) :
    s.config = (concurrency, maxPendingWrites) := by
  induction h with
  | init h =>
    obtain ⟨persistent, snapshot, rfl⟩ := h
    exact config_loadSnapshot _ snapshot
  | step h hstep ih =>
    rcases hstep with hstep | hstep
    · exact (CallStep.config_eq (mirror_sound h) hstep).trans ih
    · exact (JobStep.config_eq hstep).trans ih

end DurableMirrorStore

end Premise.DurableMirror
