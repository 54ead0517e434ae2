import Premise.DurableMirror.Proofs.RunningProofs

/-!
# Proofs: the jobs of the event loop keep the store sound
-/

namespace Premise.DurableMirror

open Collections Control Js

namespace DurableMirrorStore

variable {s s' : DurableMirrorStore} {t : Nat}

/-- `s'` has the tasks of `s`, and names no others. -/
structure Agrees (s s' : DurableMirrorStore) : Prop where
  concurrency : s'.concurrency = s.concurrency
  maxPendingWrites : s'.maxPendingWrites = s.maxPendingWrites
  ready : s'.ready = s.ready
  tasks : s'.tasks = s.tasks
  lastEventTask : s'.lastEventTask = s.lastEventTask
  restoreTask : s'.restoreTask = s.restoreTask
  activeWrites : s'.activeWrites = s.activeWrites
  pendingWrites : s'.pendingWrites = s.pendingWrites
  failure : s'.failure = s.failure
  created : s'.created = s.created
  task : s'.task = s.task
  batch : s'.batch = s.batch
  tails : ∀ id t, s'.recordTails.get? id = some t → s.recordTails.get? id = some t
  puts : ∀ t, t ∈ s'.pendingPuts → t ∈ s.pendingPuts
  opened : ∀ b, s'.eventBatch = some b → s.eventBatch = some b

theorem Agrees.quiet (ha : Agrees s s') (h : s.Quiet) : s'.Quiet := by
  unfold Quiet
  rw [ha.ready, ha.concurrency, ha.activeWrites]
  exact h

theorem Agrees.covered (ha : Agrees s s') (h : s.Covered) : s'.Covered := by
  unfold Covered
  rw [ha.tasks, ha.task, ha.lastEventTask, ha.restoreTask]
  exact h

theorem Agrees.graph (ha : Agrees s s') (h : s.TaskGraph) : s'.TaskGraph := by
  obtain ⟨h1, h2, h3, h4, h5, h6, h7, h8⟩ := h
  refine ⟨?_, ?_, ?_, ?_, ?_, ?_, ?_, ?_⟩
  · rwa [ha.tasks, ha.created, ha.task]
  · rwa [ha.tasks, ha.task]
  · rwa [ha.tasks, ha.task]
  · rwa [ha.tasks, ha.task]
  · rwa [ha.ready, ha.task]
  · rwa [ha.ready, ha.created]
  · rwa [ha.ready]
  · rwa [ha.tasks, ha.task]

theorem Agrees.typed (ha : Agrees s s') (h : s.Typed) : s'.Typed := by
  obtain ⟨h1, h2, h3, h4, h5, h6, h7, h8, h9⟩ := h
  refine ⟨?_, ?_, ?_, ?_, ?_, ?_, ?_, ?_, ?_⟩
  · rw [ha.created, ha.task]
    exact fun id t ht => h1 id t (ha.tails id t ht)
  · rw [ha.created, ha.task]
    exact fun t ht => h2 t (ha.puts t ht)
  · rwa [ha.lastEventTask, ha.created, ha.task]
  · rwa [ha.restoreTask, ha.created, ha.task]
  · rw [ha.created, ha.task]
    exact fun t ht => h5 t (ha.opened t ht)
  · rwa [ha.tasks, ha.task]
  · rwa [ha.tasks, ha.task, ha.batch]
  · rwa [ha.created, ha.task, ha.batch]
  · rwa [ha.created, ha.batch]

theorem Agrees.running (ha : Agrees s s') (h : s.Running) : s'.Running := by
  obtain ⟨h1, h2, h3, h4, h5, h6, h7, h8⟩ := h
  refine ⟨?_, ?_, ?_, ?_, ?_, ?_, ?_, ?_⟩
  · rwa [ha.ready, ha.tasks, ha.task]
  · rwa [ha.activeWrites, ha.tasks, ha.task]
  · rwa [ha.pendingWrites, ha.tasks]
  · rwa [ha.tasks, ha.task]
  · rwa [ha.tasks, ha.task]
  · rwa [ha.created, ha.task, ha.batch]
  · rw [ha.created, ha.task]
    exact fun b hb => h7 b (ha.opened b hb)
  · rwa [ha.maxPendingWrites, ha.created, ha.task, ha.batch, ha.tasks]

theorem Agrees.sound (ha : Agrees s s') (h : s.Sound) : s'.Sound where
  graph := ha.graph h.graph
  typed := ha.typed h.typed
  running := by
    rw [ha.failure]
    intro hfail
    obtain ⟨hrun, hcov, hquiet⟩ := h.running hfail
    exact ⟨ha.running hrun, ha.covered hcov, ha.quiet hquiet⟩
  failed := by
    rw [ha.failure, ha.tasks, ha.task]
    exact h.failed

/-! ## Phases -/

theorem setPhase_task (s : DurableMirrorStore) (t : Nat) (phase : TaskPhase) (x : Nat) :
    (s.setPhase t phase).task x = { s.task x with
      phase := if x = t then phase else (s.task x).phase } := by
  have hupdate : (s.setPhase t phase).task = Function.update s.task t { s.task t with
      phase := phase } := rfl
  rw [hupdate, Function.update_apply]
  split_ifs with hx
  · rw [hx]
  · rfl

section

variable (h : s.Sound)
include h

theorem Sound.setPhase {phase : TaskPhase} (hstarted : (s.task t).started = true)
    (hfinished : phase ≠ .finished) (hqueued : phase ≠ .queued)
    (himmediate : phase = .immediate → (s.task t).action = .flushEventBatch)
    (hawaiting : ∀ l, phase = .awaiting l → (s.task t).action = .flushEventBatch ∧ ∀ d ∈ l, d ∈ (s.batch t).dependencies) :
    (s.setPhase t phase).Sound := by
  have htask := setPhase_task s t phase
  generalize hs1 : s.setPhase t phase = s1 at htask
  have hsame : s1 = { s with task := s1.task } := by rw [← hs1]; rfl
  have hready : s1.ready = s.ready := by rw [hsame]
  have htasks : s1.tasks = s.tasks := by rw [hsame]
  have hcreated : s1.created = s.created := by rw [hsame]
  have hbatch : s1.batch = s.batch := by rw [hsame]
  have haction : ∀ x, (s1.task x).action = (s.task x).action := fun x => by rw [htask]
  have hst : ∀ x, (s1.task x).started = (s.task x).started := fun x => by rw [htask]
  have hdeps : ∀ x, (s1.task x).dependencies = (s.task x).dependencies := fun x => by rw [htask]
  have hset : ∀ x, (s1.task x).settled = (s.task x).settled := fun x => by rw [htask]
  have hdents : ∀ x, (s1.task x).dependents = (s.task x).dependents := fun x => by rw [htask]
  have hphase : ∀ x, (s1.task x).phase = if x = t then phase else (s.task x).phase :=
    fun x => by rw [htask]
  obtain ⟨hg, hty, hrun, hfailed⟩ := h
  refine ⟨⟨?_, ?_, ?_, ?_, ?_, ?_, ?_, ?_⟩, ⟨?_, ?_, ?_, ?_, ?_, ?_, ?_, ?_, ?_⟩, ?_, ?_⟩
  · simpa only [htasks, hcreated, hset] using hg.live
  · simpa only [htasks, hdeps] using hg.depends
  · simpa only [htasks, hdeps, hdents] using hg.mirror
  · simpa only [htasks, hdeps, hst] using hg.started_free
  · simpa only [hready, hdeps, hst] using hg.ready_waiting
  · simpa only [hready, hcreated] using hg.ready_created
  · simpa only [hready] using hg.ready_nodup
  · intro x hx
    rw [hphase, hst]
    split_ifs with hxt
    · rw [hxt]
      exact ⟨hfinished, fun _ => hqueued, fun _ => hstarted⟩
    · exact hg.phase x (htasks ▸ hx)
  · rw [hsame]
    simpa only [haction] using hty.tails
  · rw [hsame]
    simpa only [haction] using hty.puts
  · rw [hsame]
    simpa only [haction] using hty.lastEvent
  · rw [hsame]
    simpa only [haction] using hty.restored
  · rw [hsame]
    simpa only [haction] using hty.opened
  · intro x hx hxphase
    rw [hphase] at hxphase
    rw [haction]
    split_ifs at hxphase with hxt
    · rw [hxt]
      exact himmediate hxphase
    · exact hty.immediate x (htasks ▸ hx) hxphase
  · intro x hx l hxphase
    rw [hphase] at hxphase
    rw [haction, hbatch]
    split_ifs at hxphase with hxt
    · rw [hxt]
      exact hawaiting l hxphase
    · exact hty.awaiting x (htasks ▸ hx) l hxphase
  · simpa only [hcreated, hbatch, haction] using hty.batches
  · simpa only [hcreated, hbatch] using hty.unused
  · intro hfail
    have hfail' : s.failure = none := by
      rw [hsame] at hfail
      exact hfail
    obtain ⟨hr, hcov, hquiet⟩ := hrun hfail'
    refine ⟨⟨?_, ?_, ?_, ?_, ?_, ?_, ?_, ?_⟩, ?_, ?_⟩
    · simpa only [hready, htasks, hst, hdeps] using hr.ready_iff
    · have : s1.activeWrites = s.activeWrites := by rw [hsame]
      rw [this, htasks, hr.active]
      exact List.countP_congr fun x _ => by rw [hst]
    · have : s1.pendingWrites = s.pendingWrites := by rw [hsame]
      rw [this, htasks, hr.pending]
    · simpa only [htasks, haction, hdeps] using hr.put_waits
    · simpa only [htasks, haction, hdeps] using hr.chained
    · simpa only [hcreated, haction, hbatch] using hr.closed_before
    · have : s1.eventBatch = s.eventBatch := by rw [hsame]
      simpa only [hcreated, haction, this] using hr.open_last
    · have : s1.maxPendingWrites = s.maxPendingWrites := by rw [hsame]
      simpa only [this, hcreated, haction, hbatch, htasks, hst] using hr.few
    · have hl : s1.lastEventTask = s.lastEventTask := by rw [hsame]
      have hr : s1.restoreTask = s.restoreTask := by rw [hsame]
      unfold Covered at hcov ⊢
      simpa only [htasks, haction, hl, hr] using hcov
    · rw [hsame]
      exact hquiet
  · intro hfail x hx
    rw [hst]
    refine hfailed ?_ x (htasks ▸ hx)
    rw [hsame] at hfail
    exact hfail

theorem Sound.started_of_phase (ht : t ∈ s.tasks) (hphase : (s.task t).phase ≠ .queued) :
    (s.task t).started = true := (h.graph.phase t ht).2.mpr hphase

theorem Sound.issue (hstarted : (s.task t).started = true) (calls : List PersistentCall) : (s.issue t calls).Sound := by
  cases calls with
  | nil | cons => exact h.setPhase hstarted nofun nofun nofun nofun

theorem Sound.runAction (hstarted : (s.task t).started = true) : (s.runAction t).Sound := by
  unfold DurableMirrorStore.runAction
  cases haction : (s.task t).action with
  | put record => exact h.issue hstarted _
  | putAndAppend record event =>
    split_ifs
    · exact h.issue hstarted _
    · exact h.issue hstarted _
  | flushEventBatch =>
    exact h.setPhase hstarted nofun nofun (fun _ => haction) nofun
  | restore snapshot => exact h.issue hstarted _

theorem Sound.fireImmediate (ht : t ∈ s.tasks) (hphase : (s.task t).phase = .immediate) : (s.fireImmediate t).Sound := by
  have hclosed : Agrees s { s with
      eventBatch := if s.eventBatch = some t then none else s.eventBatch } := by
    refine ⟨rfl, rfl, rfl, rfl, rfl, rfl, rfl, rfl, rfl, rfl, rfl, rfl, fun _ _ h => h, fun _ h => h, fun b hb => ?_⟩
    split_ifs at hb
    exact hb
  have haction := h.typed.immediate t ht hphase
  refine (hclosed.sound h).setPhase (h.started_of_phase ht (by rw [hphase]; nofun)) nofun nofun
    nofun (fun l hl => ⟨haction, fun d hd => ?_⟩)
  obtain rfl := TaskPhase.awaiting.inj hl
  exact (List.mem_filter.mp hd).1

theorem Sound.dependenciesSettled (hstarted : (s.task t).started = true) : (s.dependenciesSettled t).Sound := by
  unfold DurableMirrorStore.dependenciesSettled
  cases s.failure with
  | none => exact h.issue hstarted _
  | some failure => exact h.setPhase hstarted nofun nofun nofun nofun

theorem Sound.callSettles (hstarted : (s.task t).started = true)
    (rest : List PersistentCall) (outcome : Except (Option JsError) Unit) :
    (s.callSettles t rest outcome).Sound := by
  cases outcome with
  | ok u => exact h.issue hstarted rest
  | error err => exact h.setPhase hstarted nofun nofun nofun nofun

theorem Sound.actionReturned (ht : t ∈ s.tasks) (hstarted : (s.task t).started = true)
    (error : Option JsError) : (s.actionReturned t error).Sound := by
  cases error with
  | none =>
    obtain ⟨hgraph, hkept, -⟩ := settle_kept (t := t) h.graph none
    refine ⟨hgraph, h.typed.kept hkept, fun hfail => ?_, fun hfail x hx => ?_⟩
    · have hfail' : s.failure = none := hkept.failure.symm.trans hfail
      obtain ⟨hrun, hcov, -⟩ := h.running hfail'
      exact settle_running h.graph h.typed hrun hcov hfail' ht hstarted
    · have hfail' : s.failure ≠ none := fun hn => hfail (hkept.failure.trans hn)
      exact hkept.started x (h.failed hfail' x (hkept.tasks_sub x hx))
  | some failure =>
    have hfailing : ({ s with
        failure := s.failure.or (some failure) } : DurableMirrorStore).TaskGraph := by
      obtain ⟨h1, h2, h3, h4, h5, h6, h7, h8⟩ := h.graph
      exact ⟨h1, h2, h3, h4, h5, h6, h7, h8⟩
    have htyped : ({ s with
        failure := s.failure.or (some failure) } : DurableMirrorStore).Typed := by
      obtain ⟨h1, h2, h3, h4, h5, h6, h7, h8, h9⟩ := h.typed
      exact ⟨h1, h2, h3, h4, h5, h6, h7, h8, h9⟩
    obtain ⟨hgraph1, hkept1, -⟩ := settle_kept (t := t) hfailing (some failure)
    obtain ⟨hgraph2, hkept2, hdone⟩ := cancelQueued_spec hgraph1 (s.failure.or (some failure))
    have heq : s.actionReturned t (some failure) = (({ s with
        failure := s.failure.or (some failure) } : DurableMirrorStore).settle t
          (some failure)).cancelQueued (s.failure.or (some failure)) := by
      have hf := hkept1.failure
      rw [DurableMirrorStore.actionReturned, hf]
    rw [heq]
    refine ⟨hgraph2, htyped.kept (hkept1.trans hkept2), fun hfail => ?_, fun _ x hx => hdone x hx⟩
    rw [hkept2.failure, hkept1.failure] at hfail
    cases hf : s.failure with
    | none | some => simp [hf] at hfail

theorem Sound.writeDone (t : Nat) : (s.writeDone t).Sound := by
  suffices hagrees : Agrees s (s.writeDone t) from hagrees.sound h
  refine ⟨rfl, rfl, rfl, rfl, rfl, rfl, rfl, rfl, rfl, rfl, rfl, rfl, ?_,
    fun x hx => (OrderedSet.mem_erase.mp hx).2, fun b hb => hb⟩
  have herase : ∀ key id x, (s.recordTails.erase key).get? id = some x → s.recordTails.get? id = some x := by
    intro key id x hx
    rw [OrderedMap.get?_erase] at hx
    split_ifs at hx
    exact hx
  intro id x hx
  unfold DurableMirrorStore.writeDone at hx
  cases haction : (s.task t).action with
  | put record =>
    rw [haction] at hx
    dsimp only at hx
    split_ifs at hx
    · exact herase _ id x hx
    · exact hx
  | putAndAppend record event =>
    rw [haction] at hx
    dsimp only at hx
    split_ifs at hx
    · exact herase _ id x hx
    · exact hx
  | flushEventBatch =>
    rw [haction] at hx
    exact hx
  | restore snapshot =>
    rw [haction] at hx
    exact hx

theorem JobStep.sound {job : MirrorStep} (hstep : JobStep s job s') : s'.Sound := by
  cases hstep with
  | runAction ht hphase => exact h.runAction (h.started_of_phase ht (by rw [hphase]; nofun))
  | fireImmediate ht hphase => exact h.fireImmediate ht hphase
  | dependenciesSettled ht hphase _ =>
    exact h.dependenciesSettled (h.started_of_phase ht (by rw [hphase]; nofun))
  | callSettles ht hphase =>
    exact h.callSettles (h.started_of_phase ht (by rw [hphase]; nofun)) _ _
  | actionReturned ht hphase =>
    exact h.actionReturned ht (h.started_of_phase ht (by rw [hphase]; nofun)) _
  | writeDone _ => exact h.writeDone _

end

end DurableMirrorStore

/-!
# Proofs: `enqueue`
-/

namespace DurableMirrorStore

variable {s s' : DurableMirrorStore}

theorem addDependent_spec (t : Nat) (l : List Nat) (s : DurableMirrorStore) :
    ∃ task', l.foldl (fun s d =>
        s.modify d (fun task => { task with dependents := task.dependents.add t })) s
        = { s with task := task' } ∧
      ∀ x, ∃ dependents, task' x = { s.task x with dependents := dependents } ∧
        ∀ y, y ∈ dependents ↔ y ∈ (s.task x).dependents ∨ (y = t ∧ x ∈ l) := by
  induction l generalizing s with
  | nil => exact ⟨s.task, rfl, fun x => ⟨(s.task x).dependents, rfl, fun y => by simp⟩⟩
  | cons a l ih =>
    generalize hs1 : s.modify a (fun task => { task with dependents := task.dependents.add t }) = s1
    obtain ⟨task', heq, htask⟩ := ih s1
    refine ⟨task', ?_, fun x => ?_⟩
    · rw [List.foldl_cons, hs1, heq, ← hs1]
      rfl
    · obtain ⟨dependents, hx, hmem⟩ := htask x
      have hx1 : s1.task x = { s.task x with
          dependents := if x = a then (s.task x).dependents.add t
            else (s.task x).dependents } := by
        rw [← hs1]
        by_cases hxa : x = a
        · rw [if_pos hxa, hxa, modify_self]
        · rw [if_neg hxa, modify_ne _ _ hxa]
      refine ⟨dependents, by rw [hx, hx1], fun y => ?_⟩
      rw [hmem, hx1, List.mem_cons]
      split_ifs with hxa
      · rw [OrderedSet.mem_add]
        tauto
      · tauto

/-- The store in which `enqueue` calls `pump`: the new task stands beside the old ones. -/
structure Added (action : TaskAction) (dependencies : List Nat) (s s' : DurableMirrorStore) :
    Prop where
  frame : s' = { s with
    created := s.created + 1
    task := s'.task
    pendingWrites := s.pendingWrites + 1
    tasks := s.tasks.add s.created
    ready := s'.ready }
  old : ∀ x, x ≠ s.created → (s'.task x).action = (s.task x).action ∧
    (s'.task x).started = (s.task x).started ∧ (s'.task x).settled = (s.task x).settled ∧
    (s'.task x).phase = (s.task x).phase ∧ (s'.task x).dependencies = (s.task x).dependencies
  fresh : (s'.task s.created).action = action ∧ (s'.task s.created).started = false ∧
    (s'.task s.created).settled = false ∧ (s'.task s.created).phase = .queued
  waits : ∀ d, d ∈ (s'.task s.created).dependencies ↔ d ∈ dependencies ∧ d ∈ s.tasks

/-- What `enqueue` leaves: the new task `t` beside the old ones. -/
structure Enqueued (action : TaskAction) (s s' : DurableMirrorStore) : Prop where
  graph : s'.TaskGraph
  typed : s'.Typed
  running : s'.Running
  quiet : s'.Quiet
  concurrency : s'.concurrency = s.concurrency
  maxPendingWrites : s'.maxPendingWrites = s.maxPendingWrites
  recordTails : s'.recordTails = s.recordTails
  pendingPuts : s'.pendingPuts = s.pendingPuts
  lastEventTask : s'.lastEventTask = s.lastEventTask
  eventBatch : s'.eventBatch = s.eventBatch
  restoreTask : s'.restoreTask = s.restoreTask
  failure : s'.failure = s.failure
  created : s'.created = s.created + 1
  batch : s'.batch = s.batch
  action_new : (s'.task s.created).action = action
  action_old : ∀ x, x < s.created → (s'.task x).action = (s.task x).action
  started : ∀ x, x < s.created → (s.task x).started = true → (s'.task x).started = true
  tasks : ∀ x, x ∈ s'.tasks ↔ x = s.created ∨ x ∈ s.tasks

theorem enqueue_added (hg : s.TaskGraph) (hty : s.Typed) (hrun : s.Running)
    (action : TaskAction) (dependencies : List Nat)
    (hknown : ∀ d ∈ dependencies, d < s.created)
    (hput : action.ordersEvents = false → ∀ d ∈ dependencies, (s.task d).action ≠ .flushEventBatch)
    (hchain : action.ordersEvents = true → ∀ t ∈ s.tasks, (s.task t).action.ordersEvents = true →
      ∃ d ∈ dependencies, d ∈ s.tasks ∧ (s.task d).action.ordersEvents = true ∧ t ≤ d)
    (hopen : action.ordersEvents = true → s.eventBatch = none) :
    ∃ s', (s.enqueue action dependencies).1 = s'.pump ∧ Added action dependencies s s' ∧
      s'.TaskGraph ∧ s'.Typed ∧ s'.Running := by
  generalize hunsettled : OrderedSet.ofList (dependencies.filter (fun d => !(s.task d).settled)) = unsettled
  have hmem : ∀ d, d ∈ unsettled ↔ d ∈ dependencies ∧ d ∈ s.tasks := by
    intro d
    rw [← hunsettled, OrderedSet.mem_ofList, List.mem_filter, hg.live]
    constructor
    · rintro ⟨hd, hset⟩
      exact ⟨hd, hknown d hd, by simpa using hset⟩
    · rintro ⟨hd, -, hset⟩
      exact ⟨hd, by simpa using hset⟩
  generalize hs1 : ({ s with
    created := s.created + 1
    task := Function.update s.task s.created
      ⟨action, unsettled, ∅, false, false, none, .queued⟩
    pendingWrites := s.pendingWrites + 1
    tasks := s.tasks.add s.created } : DurableMirrorStore) = s1
  obtain ⟨task', hs2, htask'⟩ := addDependent_spec s.created unsettled.elems s1
  generalize hs3 : (if unsettled.size = 0 then
      { s1 with
        task := task'
        ready := s1.ready ++ [s.created] }
      else { s1 with task := task' } : DurableMirrorStore) = s3
  have henqueue : (s.enqueue action dependencies).1 = s3.pump := by
    rw [enqueue, hunsettled]
    rw [hs1, hs2, ← hs3]
  have hnot : s.created ∉ s.tasks := fun h => Nat.lt_irrefl _ ((hg.live _).mp h).1
  have hlt : ∀ x ∈ s.tasks, x < s.created := fun x hx => ((hg.live x).mp hx).1
  have hfields : s3 = { s with
      created := s.created + 1
      task := task'
      pendingWrites := s.pendingWrites + 1
      tasks := s.tasks.add s.created
      ready := s3.ready } := by
    rw [← hs3, ← hs1]
    split_ifs
    · rfl
    · rfl
  have htasks : ∀ x, x ∈ s3.tasks ↔ x = s.created ∨ x ∈ s.tasks := by
    intro x
    rw [hfields]
    exact OrderedSet.mem_add
  have htask : s3.task = task' := by rw [hfields]
  have hold : ∀ x, x ≠ s.created → s1.task x = s.task x := by
    intro x hx
    rw [← hs1]
    exact Function.update_of_ne hx _ s.task
  have hnew : s1.task s.created = ⟨action, unsettled, ∅, false, false, none, .queued⟩ := by
    rw [← hs1]
    exact Function.update_self s.created _ s.task
  have hsame : ∀ x, x ≠ s.created → (s3.task x).action = (s.task x).action ∧
      (s3.task x).started = (s.task x).started ∧ (s3.task x).settled = (s.task x).settled ∧
      (s3.task x).phase = (s.task x).phase ∧
      (s3.task x).dependencies = (s.task x).dependencies := by
    intro x hx
    obtain ⟨dependents, htx, -⟩ := htask' x
    rw [htask, htx, hold x hx]
    exact ⟨rfl, rfl, rfl, rfl, rfl⟩
  have hfresh : (s3.task s.created).action = action ∧ (s3.task s.created).started = false ∧
      (s3.task s.created).settled = false ∧ (s3.task s.created).phase = .queued ∧
      (s3.task s.created).dependencies = unsettled := by
    obtain ⟨dependents, htx, -⟩ := htask' s.created
    rw [htask, htx, hnew]
    exact ⟨rfl, rfl, rfl, rfl, rfl⟩
  have hdependents : ∀ d y, y ∈ (s3.task d).dependents ↔
      (d ≠ s.created ∧ y ∈ (s.task d).dependents) ∨ (y = s.created ∧ d ∈ unsettled) := by
    intro d y
    obtain ⟨dependents, htd, hmemd⟩ := htask' d
    rw [htask, htd]
    show y ∈ dependents ↔ _
    rw [hmemd]
    refine or_congr ?_ Iff.rfl
    by_cases hd : d = s.created
    · rw [hd, hnew]
      simp
    · rw [hold d hd]
      simp [hd]
  have hwaits : ∀ x ∈ s.tasks, ∀ d ∈ (s.task x).dependencies, d ≠ s.created :=
    fun x hx d hd hdt => hnot (hdt ▸ (hg.depends x hx d hd).1)
  have hreadyfree : s.created ∉ s.ready := fun h => hnot ((hrun.ready_iff _).mp h).1
  have hready : ∀ x, x ∈ s3.ready ↔ x ∈ s.ready ∨ (x = s.created ∧ ∀ d, d ∉ unsettled) := by
    intro x
    rw [← hs3]
    have hready1 : s1.ready = s.ready := by rw [← hs1]
    by_cases hzero : unsettled.size = 0
    · rw [if_pos hzero]
      have hnone := unsettled.size_eq_zero.mp hzero
      simp [hready1, hnone]
    · rw [if_neg hzero]
      have hsome : ¬ ∀ d, d ∉ unsettled := fun h => hzero (unsettled.size_eq_zero.mpr h)
      simp [hready1, hsome]
  have hnodup : s3.ready.Nodup := by
    rw [← hs3]
    have hready1 : s1.ready = s.ready := by rw [← hs1]
    split_ifs
    · dsimp only
      rw [hready1, List.nodup_append]
      refine ⟨hg.ready_nodup, by simp, fun x hx y hy hxy => ?_⟩
      rw [List.mem_singleton] at hy
      exact hreadyfree (hy ▸ hxy ▸ hx)
    · exact hready1 ▸ hg.ready_nodup
  have hcreated : s3.created = s.created + 1 := by rw [hfields]
  have hgraph : s3.TaskGraph := by
    refine ⟨fun x => ?_, fun x hx d hd => ?_, fun d x => ?_, fun x hx hst d hd => ?_,
      fun x hx => ?_, fun x hx => ?_, hnodup, fun x hx => ?_⟩
    · rw [htasks, hcreated]
      by_cases hx : x = s.created
      · rw [hx]
        simp [hfresh.2.2.1]
      · rw [(hsame x hx).2.2.1, hg.live]
        constructor
        · rintro (h | ⟨h1, h2⟩)
          · exact absurd h hx
          · exact ⟨by omega, h2⟩
        · rintro ⟨h1, h2⟩
          exact .inr ⟨by omega, h2⟩
    · rw [htasks]
      rcases (htasks x).mp hx with rfl | hx
      · rw [hfresh.2.2.2.2, hmem] at hd
        exact ⟨Or.inr hd.2, hlt d hd.2⟩
      · have hne : x ≠ s.created := fun h => hnot (h ▸ hx)
        rw [(hsame x hne).2.2.2.2] at hd
        exact ⟨Or.inr (hg.depends x hx d hd).1, (hg.depends x hx d hd).2⟩
    · rw [hdependents, htasks, hg.mirror]
      by_cases hx : x = s.created
      · rw [hx, hfresh.2.2.2.2]
        simp [hnot]
      · rw [(hsame x hx).2.2.2.2]
        constructor
        · rintro (⟨-, hx', hd⟩ | ⟨h, -⟩)
          · exact ⟨Or.inr hx', hd⟩
          · exact absurd h hx
        · rintro ⟨h | hx', hd⟩
          · exact absurd h hx
          · exact .inl ⟨hwaits x hx' d hd, hx', hd⟩
    · by_cases hxt : x = s.created
      · rw [hxt, hfresh.2.1] at hst
        cases hst
      · rw [(hsame x hxt).2.1] at hst
        rw [(hsame x hxt).2.2.2.2] at hd
        exact hg.started_free x (((htasks x).mp hx).resolve_left hxt) hst d hd
    · rcases (hready x).mp hx with hx | ⟨rfl, hnone⟩
      · have hne : x ≠ s.created := fun h => hreadyfree (h ▸ hx)
        rw [(hsame x hne).2.1, (hsame x hne).2.2.2.2]
        exact hg.ready_waiting x hx
      · rw [hfresh.2.1, hfresh.2.2.2.2]
        exact ⟨rfl, hnone⟩
    · rw [hcreated]
      rcases (hready x).mp hx with hx | ⟨rfl, -⟩
      · exact Nat.lt_succ_of_lt (hg.ready_created x hx)
      · exact Nat.lt_succ_self _
    · by_cases hxt : x = s.created
      · rw [hxt, hfresh.2.2.2.1, hfresh.2.1]
        simp
      · rw [(hsame x hxt).2.2.2.1, (hsame x hxt).2.1]
        exact hg.phase x (((htasks x).mp hx).resolve_left hxt)
  have haction : ∀ x, x < s.created → (s3.task x).action = (s.task x).action :=
    fun x hx => (hsame x (Nat.ne_of_lt hx)).1
  have hbatch : s3.batch = s.batch := by rw [hfields]
  have htyped : s3.Typed := by
    have htails : s3.recordTails = s.recordTails := by rw [hfields]
    have hputs : s3.pendingPuts = s.pendingPuts := by rw [hfields]
    have hlast : s3.lastEventTask = s.lastEventTask := by rw [hfields]
    have hrestore : s3.restoreTask = s.restoreTask := by rw [hfields]
    have hopened : s3.eventBatch = s.eventBatch := by rw [hfields]
    refine ⟨fun id x hx => ?_, fun x hx => ?_, fun x hx => ?_, fun x hx => ?_, fun x hx => ?_,
      fun x hx hphase => ?_, fun x hx l hphase => ?_, fun x hx ha d hd => ?_, fun x hx d => ?_⟩
    · obtain ⟨h1, h2⟩ := hty.tails id x (htails ▸ hx)
      rw [hcreated, haction x h1]
      exact ⟨by omega, h2⟩
    · obtain ⟨h1, h2⟩ := hty.puts x (hputs ▸ hx)
      rw [hcreated, haction x h1]
      exact ⟨by omega, h2⟩
    · obtain ⟨h1, h2⟩ := hty.lastEvent x (hlast ▸ hx)
      rw [hcreated, haction x h1]
      exact ⟨by omega, h2⟩
    · obtain ⟨h1, h2⟩ := hty.restored x (hrestore ▸ hx)
      rw [hcreated, haction x h1]
      exact ⟨by omega, h2⟩
    · obtain ⟨h1, h2⟩ := hty.opened x (hopened ▸ hx)
      rw [hcreated, haction x h1]
      exact ⟨by omega, h2⟩
    · rcases (htasks x).mp hx with rfl | hx
      · rw [hfresh.2.2.2.1] at hphase
        cases hphase
      · have hne : x ≠ s.created := fun h => hnot (h ▸ hx)
        rw [(hsame x hne).2.2.2.1] at hphase
        rw [(hsame x hne).1]
        exact hty.immediate x hx hphase
    · rcases (htasks x).mp hx with rfl | hx
      · rw [hfresh.2.2.2.1] at hphase
        cases hphase
      · have hne : x ≠ s.created := fun h => hnot (h ▸ hx)
        rw [(hsame x hne).2.2.2.1] at hphase
        rw [(hsame x hne).1, hbatch]
        exact hty.awaiting x hx l hphase
    · rw [hbatch] at hd
      by_cases hxt : x = s.created
      · exact absurd hd (hty.unused x (by omega) d)
      · have hxlt : x < s.created := by omega
        rw [haction x hxlt] at ha
        obtain ⟨h1, h2⟩ := hty.batches x hxlt ha d hd
        rw [hcreated, haction d h1]
        exact ⟨by omega, h2⟩
    · rw [hbatch]
      exact hty.unused x (by omega) d
  have hrunning : s3.Running := by
    refine ⟨fun x => ?_, ?_, ?_, fun x hx ha d hd => ?_, fun x hx x' hx' ha ha' hlt' => ?_,
      fun b hb ha d hd x hx hax hbx => ?_, fun b hb x hx ha => ?_,
      fun hm b hb ha d hd hdlive => ?_⟩
    · rw [hready, htasks, hrun.ready_iff]
      by_cases hx : x = s.created
      · rw [hx, hfresh.2.1, hfresh.2.2.2.2]
        simp [hnot]
      · rw [(hsame x hx).2.1, (hsame x hx).2.2.2.2]
        simp [hx]
    · have hactive : s3.activeWrites = s.activeWrites := by rw [hfields]
      have helems : s3.tasks.elems = s.tasks.elems ++ [s.created] := by
        rw [hfields]
        exact OrderedSet.elems_add_of_not_mem hnot
      rw [hactive, helems, List.countP_append, hrun.active]
      have hcount : s.tasks.elems.countP (fun x => (s3.task x).started)
          = s.tasks.elems.countP (fun x => (s.task x).started) :=
        List.countP_congr fun x hx => by
          rw [(hsame x (fun h => hnot (show s.created ∈ s.tasks from h ▸ hx))).2.1]
      rw [hcount]
      simp [hfresh.2.1]
    · have hpending : s3.pendingWrites = s.pendingWrites + 1 := by rw [hfields]
      have helems : s3.tasks.elems = s.tasks.elems ++ [s.created] := by
        rw [hfields]
        exact OrderedSet.elems_add_of_not_mem hnot
      rw [hpending, OrderedSet.size, helems, hrun.pending, OrderedSet.size]
      simp
    · rcases (htasks x).mp hx with rfl | hx
      · rw [hfresh.1] at ha
        rw [hfresh.2.2.2.2, hmem] at hd
        rw [haction d (hknown d hd.1)]
        exact hput ha d hd.1
      · have hne : x ≠ s.created := fun h => hnot (h ▸ hx)
        rw [(hsame x hne).1] at ha
        rw [(hsame x hne).2.2.2.2] at hd
        rw [haction d (hlt d (hg.depends x hx d hd).1)]
        exact hrun.put_waits x hx ha d hd
    · rcases (htasks x').mp hx' with rfl | hx'
      · have hx0 := ((htasks x).mp hx).resolve_left (Nat.ne_of_lt hlt')
        rw [hfresh.1] at ha'
        rw [haction x hlt'] at ha
        obtain ⟨d, hd, hdlive, hda, hle⟩ := hchain ha' x hx0 ha
        refine ⟨d, by rw [hfresh.2.2.2.2, hmem]; exact ⟨hd, hdlive⟩, ?_, hle⟩
        rw [haction d (hknown d hd)]
        exact hda
      · have hx'lt := hlt x' hx'
        have hx0 := ((htasks x).mp hx).resolve_left (Nat.ne_of_lt (hlt'.trans hx'lt))
        rw [haction x (hlt'.trans hx'lt)] at ha
        rw [haction x' hx'lt] at ha'
        obtain ⟨d, hd, hda, hle⟩ := hrun.chained x hx0 x' hx' ha ha' hlt'
        refine ⟨d, by rw [(hsame x' (Nat.ne_of_lt hx'lt)).2.2.2.2]; exact hd, ?_, hle⟩
        rw [haction d (hlt d (hg.depends x' hx' d hd).1)]
        exact hda
    · rw [hbatch] at hd
      by_cases hbt : b = s.created
      · exact absurd hd (hty.unused b (by omega) d)
      · have hblt : b < s.created := by omega
        rw [haction b hblt] at ha
        obtain ⟨hdlt, -⟩ := hty.batches b hblt ha d hd
        by_cases hxt : x = s.created
        · omega
        · have hxlt : x < s.created := by omega
          rw [haction x hxlt] at hax
          exact hrun.closed_before b hblt ha d hd x hxlt hax hbx
    · have hopened : s3.eventBatch = s.eventBatch := by rw [hfields]
      rw [hopened] at hb
      by_cases hxt : x = s.created
      · rw [hxt, hfresh.1] at ha
        rw [hopen ha] at hb
        cases hb
      · have hxlt : x < s.created := by omega
        rw [haction x hxlt] at ha
        exact hrun.open_last b hb x hxlt ha
    · have hmax : s3.maxPendingWrites = s.maxPendingWrites := by rw [hfields]
      rw [hmax] at hm
      rw [hbatch] at hd
      by_cases hbt : b = s.created
      · exact absurd hd (hty.unused b (by omega) d)
      · have hblt : b < s.created := by omega
        rw [haction b hblt] at ha
        obtain ⟨hdlt, -⟩ := hty.batches b hblt ha d hd
        rw [(hsame d (Nat.ne_of_lt hdlt)).2.1]
        exact hrun.few hm b hblt ha d hd (((htasks d).mp hdlive).resolve_left (Nat.ne_of_lt hdlt))
  exact ⟨s3, henqueue, ⟨htask ▸ hfields, hsame, ⟨hfresh.1, hfresh.2.1, hfresh.2.2.1, hfresh.2.2.2.1⟩,
    fun d => by rw [hfresh.2.2.2.2, hmem]⟩, hgraph, htyped, hrunning⟩

theorem enqueue_spec (hg : s.TaskGraph) (hty : s.Typed) (hrun : s.Running) (hfail : s.failure = none)
    (action : TaskAction) (dependencies : List Nat)
    (hknown : ∀ d ∈ dependencies, d < s.created)
    (hput : action.ordersEvents = false → ∀ d ∈ dependencies, (s.task d).action ≠ .flushEventBatch)
    (hchain : action.ordersEvents = true → ∀ t ∈ s.tasks, (s.task t).action.ordersEvents = true →
      ∃ d ∈ dependencies, d ∈ s.tasks ∧ (s.task d).action.ordersEvents = true ∧ t ≤ d)
    (hopen : action.ordersEvents = true → s.eventBatch = none) :
    Enqueued action s (s.enqueue action dependencies).1 := by
  obtain ⟨s3, henqueue, hadded, hgraph, htyped, hrunning⟩ :=
    enqueue_added hg hty hrun action dependencies hknown hput hchain hopen
  have hfields := hadded.frame
  have hcreated : s3.created = s.created + 1 := by rw [hfields]
  have hbatch : s3.batch = s.batch := by rw [hfields]
  have hfail3 : s3.failure = none := by
    rw [hfields]
    exact hfail
  have htasks : ∀ x, x ∈ s3.tasks ↔ x = s.created ∨ x ∈ s.tasks := by
    intro x
    rw [hfields]
    exact OrderedSet.mem_add
  obtain ⟨hgraph', hkept, hrun', htasks', hquiet⟩ := pump_running hgraph hrunning hfail3
  rw [henqueue]
  refine ⟨hgraph', htyped.kept hkept, hrun', hquiet, ?_, ?_, ?_, ?_, ?_, ?_, ?_, ?_, ?_, ?_, ?_, ?_, ?_, ?_⟩
  · rw [hkept.concurrency, hfields]
  · rw [hkept.maxPendingWrites, hfields]
  · rw [hkept.recordTails, hfields]
  · rw [hkept.pendingPuts, hfields]
  · rw [hkept.lastEventTask, hfields]
  · rw [hkept.eventBatch, hfields]
  · rw [hkept.restoreTask, hfields]
  · rw [hkept.failure, hfields]
  · rw [hkept.created, hcreated]
  · rw [hkept.batch, hbatch]
  · rw [hkept.action, hadded.fresh.1]
  · intro x hx
    rw [hkept.action, (hadded.old x (Nat.ne_of_lt hx)).1]
  · intro x hx hst
    refine hkept.started x ?_
    rw [(hadded.old x (Nat.ne_of_lt hx)).2.1]
    exact hst
  · intro x
    rw [htasks', htasks]

end DurableMirrorStore

end Premise.DurableMirror
