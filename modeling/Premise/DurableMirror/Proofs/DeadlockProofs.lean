import Premise.DurableMirror.Proofs.CallProofs

/-!
# Proofs: the jobs of the event loop come to an end
-/

namespace Premise.DurableMirror

open Collections Control Js

namespace DurableMirrorStore

variable {s s' : DurableMirrorStore} {t : Nat}

/-! ## The work that is left -/

/-- More persistent calls than the action of `t` makes. -/
def callBound (s : DurableMirrorStore) (t : Nat) : Nat :=
  match (s.task t).action with
  | .put _ => 1
  | .putAndAppend _ _ => 2
  | .flushEventBatch => (s.batch t).events.length + 1
  | .restore _ => 1

/-- A bound on the jobs that `t` still needs. -/
def workLeft (s : DurableMirrorStore) (t : Nat) : Nat :=
  match (s.task t).phase with
  | .queued => s.callBound t + 6
  | .scheduled => s.callBound t + 5
  | .immediate => s.callBound t + 4
  | .awaiting _ => s.callBound t + 3
  | .calling _ rest => rest.length + 3
  | .returned _ => 2
  | .finished => 0

def jobsLeft (s : DurableMirrorStore) : Nat :=
  (s.tasks.elems.map s.workLeft).sum + s.settledPuts.length

theorem workLeft_congr {x : Nat} (hphase : (s'.task x).phase = (s.task x).phase)
    (haction : (s'.task x).action = (s.task x).action) (hbatch : s'.batch = s.batch) :
    s'.workLeft x = s.workLeft x := by
  unfold workLeft callBound
  rw [hphase, haction, hbatch]

theorem workLeft_pos (hg : s.TaskGraph) (ht : t ∈ s.tasks) : 2 ≤ s.workLeft t := by
  have hphase := (hg.phase t ht).1
  unfold workLeft
  cases hp : (s.task t).phase with
  | finished => exact absurd hp hphase
  | queued | scheduled | immediate | awaiting | calling => dsimp only; omega
  | returned error => exact le_rfl

theorem sum_erase (l : OrderedSet Nat) (f : Nat → Nat) (ht : t ∈ l) :
    f t + ((l.erase t).elems.map f).sum = (l.elems.map f).sum := by
  rw [OrderedSet.elems_erase]
  exact List.sum_map_erase f ht

theorem jobsLeft_released (ht : t ∈ s.tasks) (hrel : Released t s s') : s'.jobsLeft + s.workLeft t ≤ s.jobsLeft + 1 := by
  have htasks : s'.tasks = s.tasks.erase t := by rw [hrel.frame]
  have hbatch : s'.batch = s.batch := by rw [hrel.frame]
  have hmap : (s.tasks.erase t).elems.map s'.workLeft = (s.tasks.erase t).elems.map s.workLeft := by
    refine List.map_congr_left fun x hx => ?_
    exact workLeft_congr (hrel.phase x (OrderedSet.mem_erase.mp hx).1) (hrel.action x) hbatch
  have hsum := sum_erase s.tasks s.workLeft ht
  have hputs := hrel.settledPuts
  unfold jobsLeft
  rw [htasks, hmap]
  omega

theorem jobsLeft_start (hg : s.TaskGraph) (hwait : (s.task t).started = false) : (s.start t).jobsLeft ≤ s.jobsLeft := by
  have hle : ∀ x ∈ s.tasks.elems, (s.start t).workLeft x ≤ s.workLeft x := by
    intro x hx
    by_cases hxt : x = t
    · subst hxt
      have hqueued : (s.task x).phase = .queued := by
        by_contra hne
        have := (hg.phase x hx).2.mpr hne
        rw [hwait] at this
        cases this
      have hphase : ((s.start x).task x).phase = .scheduled := by rw [start_task, if_pos rfl]
      have haction : ((s.start x).task x).action = (s.task x).action := by
        rw [start_task, if_pos rfl]
      have hbound : (s.start x).callBound x = s.callBound x := by
        unfold callBound
        rw [haction]
        rfl
      unfold workLeft
      rw [hphase, hqueued]
      dsimp only
      omega
    · refine le_of_eq (workLeft_congr ?_ ?_ rfl)
      · rw [start_task, if_neg hxt]
      · rw [start_task, if_neg hxt]
  have hsum : ((s.start t).tasks.elems.map (s.start t).workLeft).sum
      ≤ (s.tasks.elems.map s.workLeft).sum := List.sum_le_sum hle
  have hputs : (s.start t).settledPuts = s.settledPuts := rfl
  unfold jobsLeft
  rw [hputs]
  omega

theorem jobsLeft_pump (hg : s.TaskGraph) : s.pump.jobsLeft ≤ s.jobsLeft := by
  refine (pump_spec hg (fun s' => s'.jobsLeft ≤ s.jobsLeft) le_rfl (fun s1 s2 hg1 hle hb => ?_)).2.1
  obtain ⟨t, ready, hready, -, hcase⟩ := pumpBody_again hb
  have hmem : t ∈ s1.ready := hready ▸ List.mem_cons_self
  have hshift := hg1.shift hready
  have hsame : ({ s1 with ready := ready } : DurableMirrorStore).jobsLeft = s1.jobsLeft := rfl
  rcases hcase with ⟨-, rfl⟩ | ⟨hunsettled, failure, -, rfl⟩ | ⟨-, -, rfl⟩
  · exact hle
  · have hlive : t ∈ s1.tasks := (hg1.live t).mpr ⟨hg1.ready_created t hmem, hunsettled⟩
    have hlive' : t ∈ ({ s1 with ready := ready } : DurableMirrorStore).tasks := hlive
    have hrel := jobsLeft_released hlive' (release_spec hshift (some failure))
    have hpos := workLeft_pos hshift hlive'
    omega
  · have := jobsLeft_start hshift (t := t) (hg1.ready_waiting t hmem).1
    omega

theorem jobsLeft_settle (hg : s.TaskGraph) (ht : t ∈ s.tasks) (error : Option JsError) :
    (s.settle t error).jobsLeft < s.jobsLeft := by
  have hunsettled := ((hg.live t).mp ht).2
  unfold settle
  rw [if_neg (by simp [hunsettled])]
  have hrel := release_spec (t := t) hg error
  have hpump := jobsLeft_pump (hg.released hrel)
  have hle := jobsLeft_released ht hrel
  have hpos := workLeft_pos hg ht
  omega

theorem jobsLeft_cancelQueued (hg : s.TaskGraph) (error : Option JsError) :
    (s.cancelQueued error).jobsLeft ≤ s.jobsLeft := by
  have hfold : ∀ (l : List Nat) (w : DurableMirrorStore), w.TaskGraph → (∀ x ∈ l, x < w.created) →
      (l.foldl (fun s t => if !(s.task t).started && !(s.task t).settled then s.settle t error
        else s) w).jobsLeft ≤ w.jobsLeft := by
    intro l
    induction l with
    | nil => exact fun w _ _ => le_rfl
    | cons a l ih =>
      intro w hw hcreated
      rw [List.foldl_cons]
      split_ifs with hqueued
      · obtain ⟨hgraph, hkept, -⟩ := settle_kept (t := a) hw error
        have hlive : a ∈ w.tasks := by
          refine (hw.live a).mpr ⟨hcreated a List.mem_cons_self, ?_⟩
          have hboth := (Bool.and_eq_true _ _).mp hqueued
          simpa using hboth.2
        have hrest := ih _ hgraph (fun x hx => hkept.created ▸ hcreated x (List.mem_cons_of_mem a hx))
        have hsettle := jobsLeft_settle hw hlive error
        omega
      · exact ih w hw fun x hx => hcreated x (List.mem_cons_of_mem a hx)
  exact hfold s.tasks.elems s hg fun x hx => ((hg.live x).mp hx).1

/-! ## Every job leaves less to do -/

theorem jobsLeft_setPhase {phase : TaskPhase} (ht : t ∈ s.tasks)
    (hlt : (s.setPhase t phase).workLeft t < s.workLeft t) :
    (s.setPhase t phase).jobsLeft < s.jobsLeft := by
  have hother : ∀ x ∈ (s.tasks.erase t).elems, (s.setPhase t phase).workLeft x = s.workLeft x := by
    intro x hx
    have hne := (OrderedSet.mem_erase.mp hx).1
    refine workLeft_congr ?_ ?_ rfl
    · rw [setPhase_task, if_neg hne]
    · rw [setPhase_task]
  have hsum := sum_erase s.tasks s.workLeft ht
  have hsum' := sum_erase s.tasks (s.setPhase t phase).workLeft ht
  rw [List.map_congr_left hother] at hsum'
  have htasks : (s.setPhase t phase).tasks = s.tasks := rfl
  have hputs : (s.setPhase t phase).settledPuts = s.settledPuts := rfl
  unfold jobsLeft
  rw [htasks, hputs]
  omega

theorem setPhase_callBound (s : DurableMirrorStore) (t : Nat) (phase : TaskPhase) :
    (s.setPhase t phase).callBound t = s.callBound t := by
  unfold callBound
  rw [setPhase_task]
  rfl

theorem setPhase_phase (s : DurableMirrorStore) (t : Nat) (phase : TaskPhase) :
    ((s.setPhase t phase).task t).phase = phase := by
  rw [setPhase_task]
  exact if_pos rfl

theorem jobsLeft_issue (ht : t ∈ s.tasks) {calls : List PersistentCall}
    (hlt : calls.length + 2 < s.workLeft t) : (s.issue t calls).jobsLeft < s.jobsLeft := by
  cases calls with
  | nil =>
    refine jobsLeft_setPhase ht ?_
    rw [workLeft, setPhase_phase]
    exact hlt
  | cons call rest =>
    refine jobsLeft_setPhase ht ?_
    rw [workLeft, setPhase_phase]
    rw [List.length_cons] at hlt
    omega

theorem JobStep.jobsLeft_lt {job : MirrorStep} (h : s.Sound) (hstep : JobStep s job s') : s'.jobsLeft < s.jobsLeft := by
  cases hstep with
  | @runAction t ht hphase =>
    have hwork : s.workLeft t = s.callBound t + 5 := by rw [workLeft, hphase]
    unfold DurableMirrorStore.runAction
    cases haction : (s.task t).action with
    | put record => exact jobsLeft_issue ht (by rw [hwork]; simp)
    | putAndAppend record event =>
      split_ifs
      · exact jobsLeft_issue ht (by rw [hwork]; simp)
      · exact jobsLeft_issue ht (by rw [hwork]; simp)
    | flushEventBatch =>
      refine jobsLeft_setPhase ht ?_
      rw [hwork, workLeft, setPhase_phase]
      dsimp only
      rw [setPhase_callBound]
      omega
    | restore snapshot => exact jobsLeft_issue ht (by rw [hwork]; simp)
  | @fireImmediate t ht hphase =>
    have hwork : s.workLeft t = s.callBound t + 4 := by rw [workLeft, hphase]
    unfold DurableMirrorStore.fireImmediate
    generalize hs1 : ({ s with
      eventBatch := if s.eventBatch = some t then none else s.eventBatch } :
        DurableMirrorStore) = s1
    have hjobs : s.jobsLeft = s1.jobsLeft := by rw [← hs1]; rfl
    have hwork1 : s1.workLeft t = s1.callBound t + 4 := by rw [← hs1]; exact hwork
    have ht1 : t ∈ s1.tasks := by rw [← hs1]; exact ht
    rw [hjobs]
    refine jobsLeft_setPhase ht1 ?_
    rw [hwork1, workLeft, setPhase_phase]
    dsimp only
    rw [setPhase_callBound]
    omega
  | @dependenciesSettled t l ht hphase _ =>
    have hwork : s.workLeft t = s.callBound t + 3 := by rw [workLeft, hphase]
    have haction := (h.typed.awaiting t ht l hphase).1
    have hbound : s.callBound t = (s.batch t).events.length + 1 := by rw [callBound, haction]
    unfold DurableMirrorStore.dependenciesSettled
    cases s.failure with
    | some failure =>
      refine jobsLeft_setPhase ht ?_
      rw [hwork, workLeft, setPhase_phase]
      dsimp only
      omega
    | none =>
      refine jobsLeft_issue ht ?_
      unfold batchCalls
      split_ifs
      · rw [List.length_singleton]
        omega
      · rw [List.length_map]
        omega
  | @callSettles t call rest outcome ht hphase =>
    have hwork : s.workLeft t = rest.length + 3 := by rw [workLeft, hphase]
    cases outcome with
    | ok u => exact jobsLeft_issue ht (by omega)
    | error err =>
      refine jobsLeft_setPhase ht ?_
      rw [hwork, workLeft, setPhase_phase]
      dsimp only
      omega
  | @actionReturned t error ht hphase =>
    cases error with
    | none => exact jobsLeft_settle h.graph ht none
    | some failure =>
      unfold DurableMirrorStore.actionReturned
      dsimp only
      generalize hs1 : ({ s with
        failure := s.failure.or (some failure) } : DurableMirrorStore) = s1
      have hgraph : s1.TaskGraph := by
        obtain ⟨h1, h2, h3, h4, h5, h6, h7, h8⟩ := h.graph
        rw [← hs1]
        exact ⟨h1, h2, h3, h4, h5, h6, h7, h8⟩
      have hjobs : s.jobsLeft = s1.jobsLeft := by rw [← hs1]; rfl
      have ht1 : t ∈ s1.tasks := by rw [← hs1]; exact ht
      have hsettle := jobsLeft_settle hgraph ht1 (some failure)
      have hcancel := jobsLeft_cancelQueued (settle_kept (t := t) hgraph (some failure)).1
        (s1.settle t (some failure)).failure
      omega
  | @writeDone t ht =>
    have hlen : (s.settledPuts.erase t).length + 1 = s.settledPuts.length := by
      rw [List.length_erase_of_mem ht]
      have := List.length_pos_of_mem ht
      omega
    have htasks : (s.writeDone t).tasks.elems.map (s.writeDone t).workLeft = s.tasks.elems.map s.workLeft := rfl
    have hputs : (s.writeDone t).settledPuts = s.settledPuts.erase t := rfl
    unfold jobsLeft
    rw [htasks, hputs]
    omega

end DurableMirrorStore

/-!
# Proofs: when the durable mirror cannot deadlock
-/

namespace DurableMirrorStore

variable {s s' : DurableMirrorStore} {t : Nat}

def Idle (s : DurableMirrorStore) : Prop := ∀ job s', ¬ JobStep s job s'

theorem Deadlocked.idle (h : Deadlocked s) : s.Idle := by
  intro job s' hstep
  cases hstep with
  | runAction ht hphase => exact h.noAction _ ht hphase
  | fireImmediate ht hphase => exact h.noImmediate _ ht hphase
  | dependenciesSettled ht hphase hsettled =>
    obtain ⟨d, hd, hunsettled⟩ := h.noSettled _ ht _ hphase
    rw [hsettled d hd] at hunsettled
    cases hunsettled
  | callSettles ht hphase => exact h.noCall _ ht _ _ hphase
  | actionReturned ht hphase => exact h.noReturn _ ht _ hphase
  | writeDone ht =>
    rw [h.noReaction] at ht
    cases ht

theorem Idle.started_waits (hidle : s.Idle) (h : s.Sound) (ht : t ∈ s.tasks)
    (hstarted : (s.task t).started = true) :
    (s.task t).action = .flushEventBatch ∧ ∃ d ∈ (s.batch t).dependencies, d ∈ s.tasks ∧
      (s.task d).action ≠ .flushEventBatch := by
  obtain ⟨hfinished, hqueued⟩ := h.graph.phase t ht
  cases hphase : (s.task t).phase with
  | queued => exact absurd hphase (hqueued.mp hstarted)
  | scheduled => exact absurd (.runAction ht hphase) (hidle _ _)
  | immediate => exact absurd (.fireImmediate ht hphase) (hidle _ _)
  | calling call rest =>
    exact absurd (JobStep.callSettles ht hphase : JobStep s (.callSettles t (.ok ())) _) (hidle _ _)
  | returned error => exact absurd (.actionReturned ht hphase) (hidle _ _)
  | finished => exact absurd hphase hfinished
  | awaiting l =>
    obtain ⟨haction, hl⟩ := h.typed.awaiting t ht l hphase
    have hpending : ∃ d ∈ l, (s.task d).settled = false := by
      by_contra hnone
      push Not at hnone
      refine hidle _ _ (.dependenciesSettled ht hphase (fun d hd => ?_))
      simpa using hnone d hd
    obtain ⟨d, hd, hunsettled⟩ := hpending
    obtain ⟨hcreated, hne⟩ := h.typed.batches t ((h.graph.live t).mp ht).1 haction d (hl d hd)
    exact ⟨haction, d, hl d hd, (h.graph.live d).mpr ⟨hcreated, hunsettled⟩, hne⟩

theorem Idle.write_waits (hidle : s.Idle) (h : s.Sound) (ht : t ∈ s.tasks)
    (haction : (s.task t).action ≠ .flushEventBatch) : (s.task t).started = false := by
  cases hst : (s.task t).started with
  | false => rfl
  | true => exact absurd (hidle.started_waits h ht hst).1 haction

theorem Sound.exists_started (h : s.Sound) (ht : t ∈ s.tasks) : ∃ x ∈ s.tasks, (s.task x).started = true := by
  by_contra hnone
  push Not at hnone
  have hwait : ∀ x ∈ s.tasks, (s.task x).started = false := fun x hx => by simpa using hnone x hx
  by_cases hfail : s.failure = none
  · obtain ⟨hrun, -, hquiet⟩ := h.running hfail
    have hzero : s.activeWrites = 0 := by
      rw [hrun.active, List.countP_eq_zero]
      intro x hx
      rw [hwait x hx]
      exact Bool.false_ne_true
    have hempty : s.ready = [] := by
      rcases hquiet with hq | hq
      · exact hq
      · have := s.concurrency.pos
        omega
    -- the oldest unsettled task would be ready
    have hall : ∀ n, ∀ x ≤ n, x ∉ s.tasks := by
      intro n
      induction n with
      | zero =>
        intro x hx hlive
        have hready := (hrun.ready_iff x).mpr ⟨hlive, hwait x hlive, fun d hd => by
          have := (h.graph.depends x hlive d hd).2
          omega⟩
        rw [hempty] at hready
        cases hready
      | succ n ih =>
        intro x hx hlive
        have hready := (hrun.ready_iff x).mpr ⟨hlive, hwait x hlive, fun d hd => by
          obtain ⟨hdlive, hlt⟩ := h.graph.depends x hlive d hd
          exact ih d (by omega) hdlive⟩
        rw [hempty] at hready
        cases hready
    exact hall t t le_rfl ht
  · exact hnone t ht (h.failed hfail t ht)

theorem Idle.no_waiting_batch (hidle : s.Idle) (h : s.Sound) (hrun : s.Running)
    (hready : s.ready = []) {b : Nat} (hb : b ∈ s.tasks) (hstarted : (s.task b).started = true)
    (haction : (s.task b).action = .flushEventBatch) (x : Nat) (hx : x ∈ s.tasks)
    (hwrite : (s.task x).action ≠ .flushEventBatch)
    (hbefore : ∀ z, z < s.created → (s.task z).action.ordersEvents = true → b < z → x < z) :
    False := by
  have hordered : (s.task b).action.ordersEvents = true := by rw [haction]; rfl
  induction x using Nat.strong_induction_on with
  | _ x ih =>
    have hwait := hidle.write_waits h hx hwrite
    have hdep : ∃ d, d ∈ (s.task x).dependencies := by
      by_contra hnone
      push Not at hnone
      have := (hrun.ready_iff x).mpr ⟨hx, hwait, hnone⟩
      rw [hready] at this
      exact absurd this List.not_mem_nil
    obtain ⟨d, hd⟩ := hdep
    obtain ⟨hdlive, hlt⟩ := h.graph.depends x hx d hd
    cases hxo : (s.task x).action.ordersEvents with
    | true =>
      have hxcreated := ((h.graph.live x).mp hx).1
      have hle : ¬ b < x := fun hbx => Nat.lt_irrefl x (hbefore x hxcreated hxo hbx)
      have hne : x ≠ b := fun hxb => hwrite (hxb ▸ haction)
      obtain ⟨d', hd', -⟩ := hrun.chained x hx b hb hxo hordered (by omega)
      exact h.graph.started_free b hb hstarted d' hd'
    | false =>
      exact ih d hlt hdlive (hrun.put_waits x hx hxo d hd) (fun z hz hzo hbz => hlt.trans (hbefore z hz hzo hbz))

theorem Idle.no_tasks (hidle : s.Idle) (h : s.Sound)
    (hslot : SlotLeft s.concurrency s.maxPendingWrites) (t : Nat) : t ∉ s.tasks := by
  intro ht
  obtain ⟨b, hb, hstarted⟩ := h.exists_started ht
  obtain ⟨haction, d, hd, hdlive, hwrite⟩ := hidle.started_waits h hb hstarted
  have hbcreated := ((h.graph.live b).mp hb).1
  have hwait := hidle.write_waits h hdlive hwrite
  by_cases hfail : s.failure = none
  · obtain ⟨hrun, -, hquiet⟩ := h.running hfail
    rcases hslot with hslot | hfew
    · -- `b` holds the only slot that is taken
      have honly : ∀ x ∈ s.tasks, (s.task x).started = true → x = b := by
        intro x hx hxst
        obtain ⟨hxaction, -⟩ := hidle.started_waits h hx hxst
        have hxo : (s.task x).action.ordersEvents = true := by rw [hxaction]; rfl
        have hbo : (s.task b).action.ordersEvents = true := by rw [haction]; rfl
        rcases Nat.lt_trichotomy x b with hlt | heq | hlt
        · obtain ⟨y, hy, -⟩ := hrun.chained x hx b hb hxo hbo hlt
          exact absurd hy (h.graph.started_free b hb hstarted y)
        · exact heq
        · obtain ⟨y, hy, -⟩ := hrun.chained b hb x hx hbo hxo hlt
          exact absurd hy (h.graph.started_free x hx hxst y)
      have hactive : s.activeWrites ≤ 1 := by
        rw [hrun.active, List.countP_eq_length_filter]
        have hsub : (s.tasks.elems.filter (fun x => (s.task x).started)).Subperm [b] := by
          refine (s.tasks.nodup.filter _).subperm fun x hx => ?_
          obtain ⟨hx, hxst⟩ := List.mem_filter.mp hx
          exact List.mem_singleton.mpr (honly x hx hxst)
        exact hsub.length_le
      have hempty : s.ready = [] := hquiet.resolve_right (by omega)
      exact hidle.no_waiting_batch h hrun hempty hb hstarted haction d hdlive hwrite
        (fun z hz hzo hbz => hrun.closed_before b hbcreated haction d hd z hz hzo hbz)
    · have := hrun.few hfew b hbcreated haction d hd hdlive
      rw [hwait] at this
      cases this
  · have := h.failed hfail d hdlive
    rw [hwait] at this
    cases this

theorem Sound.drains (h : s.Sound) (hslot : SlotLeft s.concurrency s.maxPendingWrites) : Drains s := by
  generalize hn : s.jobsLeft = n
  induction n using Nat.strong_induction_on generalizing s with
  | _ n ih =>
    by_cases hidle : s.Idle
    · exact Drains.settled (hidle.no_tasks h hslot)
    · refine Drains.step ?_ fun job s' hstep => ?_
      · unfold Idle at hidle
        push Not at hidle
        exact hidle
      · have hlt := JobStep.jobsLeft_lt h hstep
        have hconfig := JobStep.config_eq hstep
        unfold config at hconfig
        obtain ⟨hconcurrency, hmax⟩ := Prod.mk.inj hconfig
        exact ih _ (hn ▸ hlt) (JobStep.sound h hstep) (by rw [hconcurrency, hmax]; exact hslot) rfl

/-! ## The deadlock of a single slot -/

theorem put_ok (hw : s.ensureWritable = .ok ()) (hc : s.ensureCapacity = .ok ())
    (record : MirrorRecord) : (s.put record).1 =
      let s' := s.storeRecord record
      let s' := { s' with revision := s'.revision + 1 }
      (s'.enqueue (.put record) (s'.restoreTask.toList ++ (s'.recordTails.get? record.memoryId).toList)).1.trackWrite
        record.memoryId s'.created := by
  unfold put
  rw [hw, hc]
  rfl

theorem appendEvent_ok (hw : s.ensureWritable = .ok ()) (hc : s.ensureCapacity = .ok ())
    (event : MirrorEvent) (hnew : s.events.get? event.idempotencyKey = none) :
    (s.appendEvent event).1 =
      let s' := { s with events := s.events.set event.idempotencyKey event }
      s'.openBatch.1.joinBatch s'.openBatch.2 event := by
  unfold appendEvent
  rw [hw, hc]
  rw [hnew]

def blockedRecord : MirrorRecord := ⟨"memory", none, "memory"⟩

def blockedEvent : MirrorEvent := ⟨"key", "event", none, "event"⟩

theorem blocked_reachable (c : WriteConcurrency) (m : PendingLimit) (hc : c.value = 1)
    (hm : 3 ≤ m.value) : ∃ s, (mirror c m).Reachable s ∧ Deadlocked s := by
  obtain ⟨value, hpos, hmax⟩ := c
  obtain rfl : value = 1 := hc
  have hroom : ∀ s : DurableMirrorStore, s.maxPendingWrites = m → s.pendingWrites < 3 → s.ensureCapacity = .ok () := by
    intro s hs hp
    unfold ensureCapacity
    rw [hs]
    exact if_neg (by omega)
  have h0 : (mirror ⟨1, hpos, hmax⟩ m).Reachable (create ⟨true, true⟩ ⟨1, hpos, hmax⟩ m ⟨[], []⟩) := .init ⟨_, _, rfl⟩
  have hcall : ∀ {s s' call}, (mirror ⟨1, hpos, hmax⟩ m).Reachable s → CallStep s call s' →
      (mirror ⟨1, hpos, hmax⟩ m).Reachable s' := fun h hstep => h.step (Or.inl hstep)
  have hjob : ∀ {s s' job}, (mirror ⟨1, hpos, hmax⟩ m).Reachable s → JobStep s job s' →
      (mirror ⟨1, hpos, hmax⟩ m).Reachable s' := fun h hstep => h.step (Or.inr hstep)
  generalize mirror ⟨1, hpos, hmax⟩ m = M at h0 hcall hjob ⊢
  have h1 := hcall h0 (CallStep.put blockedRecord)
  rw [put_ok (by cbv) (hroom _ (by cbv) (by cbv))] at h1
  -- the state is evaluated after every step: the next ones read it several times
  cbv at h1
  have h2 := hcall h1 (CallStep.put blockedRecord)
  rw [put_ok (by cbv) (hroom _ (by cbv) (by cbv))] at h2
  cbv at h2
  have h3 := hcall h2 (CallStep.appendEvent blockedEvent)
  rw [appendEvent_ok (by cbv) (hroom _ (by cbv) (by cbv)) blockedEvent (by cbv)] at h3
  cbv at h3
  have hmem : ∀ t : Nat, t < 3 → t ∈ [0, 1, 2] := by decide
  have h4 := hjob h3 (JobStep.runAction (hmem 0 (by decide)) rfl)
  cbv at h4
  have h5 := hjob h4 (JobStep.callSettles (hmem 0 (by decide)) rfl : JobStep _ (.callSettles 0 (.ok ())) _)
  cbv at h5
  have h6 := hjob h5 (JobStep.actionReturned (hmem 0 (by decide)) rfl)
  cbv at h6
  have h7 := hjob h6 (JobStep.writeDone (List.mem_singleton.mpr rfl))
  cbv at h7
  have h8 := hjob h7 (JobStep.runAction (t := 2) (show 2 ∈ [1, 2] by decide) rfl)
  cbv at h8
  have h9 := hjob h8 (JobStep.fireImmediate (show 2 ∈ [1, 2] by decide) rfl)
  cbv at h9
  generalize hs : DurableMirrorStore.mk .. = s at h9
  have htasks : ∀ t, t ∈ s.tasks → t = 1 ∨ t = 2 := by
    rw [← hs]
    exact fun t ht => by simpa using (show t ∈ [1, 2] from ht)
  have hphase1 : (s.task 1).phase = .queued := by rw [← hs]; rfl
  have hphase2 : (s.task 2).phase = .awaiting [1] := by rw [← hs]; rfl
  have hphase : ∀ t ∈ s.tasks, ∀ phase, (s.task t).phase = phase → phase = .queued ∨ phase = .awaiting [1] := by
    rintro t ht phase rfl
    rcases htasks t ht with rfl | rfl
    · exact .inl hphase1
    · exact .inr hphase2
  refine ⟨s, h9, ⟨1, by rw [← hs]; exact List.mem_cons_self⟩, ?_, ?_, ?_, ?_, ?_, by rw [← hs], Or.inr (by rw [← hs])⟩
  · intro t ht call rest h
    simpa using hphase t ht _ h
  · intro t ht h
    simpa using hphase t ht _ h
  · intro t ht h
    simpa using hphase t ht _ h
  · intro t ht error h
    simpa using hphase t ht _ h
  · intro t ht dependencies h
    obtain rfl : dependencies = [1] := by simpa using hphase t ht _ h
    exact ⟨1, List.mem_singleton.mpr rfl, by rw [← hs]; rfl⟩

/-- No run deadlocks, and every run drains, exactly where a batch leaves a slot. -/
theorem deadlock_free_iff (concurrency : WriteConcurrency) (maxPendingWrites : PendingLimit) :
    (∀ s, (mirror concurrency maxPendingWrites).Reachable s → ¬ Deadlocked s ∧ Drains s) ↔
      SlotLeft concurrency maxPendingWrites := by
  constructor
  · intro h
    by_contra hslot
    unfold SlotLeft at hslot
    have hpos := concurrency.pos
    obtain ⟨s, hs, hdead⟩ := blocked_reachable concurrency maxPendingWrites (by omega) (by omega)
    exact (h s hs).1 hdead
  · intro hslot s hs
    have hsound := mirror_sound hs
    have hconfig := mirror_config hs
    unfold config at hconfig
    obtain ⟨hconcurrency, hmax⟩ := Prod.mk.inj hconfig
    rw [← hconcurrency, ← hmax] at hslot
    refine ⟨fun hdead => ?_, hsound.drains hslot⟩
    obtain ⟨t, ht⟩ := hdead.unsettled
    exact (Deadlocked.idle hdead).no_tasks hsound hslot t ht

/-- With a single slot, two writes of a record and an event can block each other. -/
theorem deadlock_single_slot :
    ∃ s, (mirror ⟨1, by decide, by decide⟩ ⟨10000, by decide, by decide⟩).Reachable s ∧
      Deadlocked s :=
  blocked_reachable _ _ rfl (by decide)

end DurableMirrorStore

end Premise.DurableMirror
