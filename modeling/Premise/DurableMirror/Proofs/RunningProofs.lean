import Premise.DurableMirror.Proofs.ReleaseProofs

/-!
# Proofs: `pump`
-/

namespace Premise.DurableMirror

open Collections Control Js

namespace DurableMirrorStore

variable {s s' : DurableMirrorStore} {t : Nat}

theorem TaskGraph.released (h : s.TaskGraph) (hrel : Released t s s') : s'.TaskGraph := by
  have hcreated : s'.created = s.created := by rw [hrel.frame]
  have htasks : ∀ x, x ∈ s'.tasks ↔ x ≠ t ∧ x ∈ s.tasks := by
    intro x
    rw [hrel.frame]
    exact OrderedSet.mem_erase
  obtain ⟨new, hnew, hnodup, hmem⟩ := hrel.ready
  refine ⟨fun x => ?_, ?_, fun d x => ?_, ?_, ?_, ?_, ?_, ?_⟩
  · rw [htasks, hcreated, hrel.settled, h.live]
    split_ifs with hx
    · simp [hx]
    · simp [hx]
  · intro x hx d hd
    obtain ⟨-, hlive⟩ := (htasks x).mp hx
    obtain ⟨hd, hne⟩ := (hrel.dependencies x d).mp hd
    obtain ⟨hdlive, hlt⟩ := h.depends x hlive d hd
    exact ⟨(htasks d).mpr ⟨fun hdt => hne ⟨hdt, hlive⟩, hdlive⟩, hlt⟩
  · rw [hrel.dependents, h.mirror, htasks, hrel.dependencies]
    tauto
  · intro x hx hstarted d hd
    rw [hrel.started] at hstarted
    exact h.started_free x ((htasks x).mp hx).2 hstarted d ((hrel.dependencies x d).mp hd).1
  · intro x hx
    rw [hrel.started]
    rw [hnew, List.mem_append] at hx
    rcases hx with hx | hx
    · obtain ⟨hwait, hfree⟩ := h.ready_waiting x hx
      exact ⟨hwait, fun d hd => hfree d ((hrel.dependencies x d).mp hd).1⟩
    · obtain ⟨hlive, hxt, hall⟩ := (hmem x).mp hx
      refine ⟨?_, fun d hd => ?_⟩
      · cases hst : (s.task x).started with
        | false => rfl
        | true => exact absurd hxt (h.started_free x hlive hst t)
      · obtain ⟨hd, hne⟩ := (hrel.dependencies x d).mp hd
        exact hne ⟨hall d hd, hlive⟩
  · intro x hx
    rw [hcreated]
    rw [hnew, List.mem_append] at hx
    rcases hx with hx | hx
    · exact h.ready_created x hx
    · exact ((h.live x).mp ((hmem x).mp hx).1).1
  · rw [hnew, List.nodup_append]
    refine ⟨h.ready_nodup, hnodup, fun x hx y hy hxy => ?_⟩
    exact (h.ready_waiting x hx).2 t (hxy ▸ ((hmem y).mp hy).2.1)
  · intro x hx
    obtain ⟨hne, hlive⟩ := (htasks x).mp hx
    rw [hrel.phase x hne, hrel.started]
    exact h.phase x hlive

theorem start_task (s : DurableMirrorStore) (t x : Nat) : (s.start t).task x =
    if x = t then { s.task t with
      started := true
      phase := .scheduled }
    else s.task x := by
  have hupdate : (s.start t).task = Function.update s.task t { s.task t with
      started := true
      phase := .scheduled } := rfl
  rw [hupdate, Function.update_apply]

theorem start_dependencies (s : DurableMirrorStore) (t x : Nat) :
    ((s.start t).task x).dependencies = (s.task x).dependencies := by
  rw [start_task]
  split_ifs with hx
  · rw [hx]
  · rfl

theorem TaskGraph.start (h : s.TaskGraph) (hfree : ∀ d, d ∉ (s.task t).dependencies)
    (hready : t ∉ s.ready) : (s.start t).TaskGraph := by
  have htasks : (s.start t).tasks = s.tasks := rfl
  refine ⟨fun x => ?_, fun x hx d => ?_, fun d x => ?_, fun x hx hst d => ?_, fun x hx => ?_,
    h.ready_created, h.ready_nodup, fun x hx => ?_⟩
  · rw [htasks, h.live, start_task]
    split_ifs with hx
    · rw [hx]
      exact Iff.rfl
    · exact Iff.rfl
  · rw [start_dependencies]
    exact h.depends x hx d
  · rw [start_dependencies, htasks, ← h.mirror, start_task]
    split_ifs with hd
    · rw [hd]
    · rfl
  · rw [start_dependencies]
    rw [start_task] at hst
    split_ifs at hst with hxt
    · rw [hxt]
      exact hfree d
    · exact h.started_free x hx hst d
  · rw [start_dependencies, start_task]
    have hne : x ≠ t := fun hxt => hready (hxt ▸ hx)
    rw [if_neg hne]
    exact h.ready_waiting x hx
  · rw [start_task]
    split_ifs with hxt
    · simp
    · exact h.phase x hx

theorem TaskGraph.shift {ready : List Nat} (h : s.TaskGraph) (hready : s.ready = t :: ready) :
    ({ s with ready := ready } : DurableMirrorStore).TaskGraph := by
  have hnodup := h.ready_nodup
  rw [hready] at hnodup
  exact ⟨h.live, h.depends, h.mirror, h.started_free, fun x hx => h.ready_waiting x (hready ▸ List.mem_cons_of_mem t hx),
    fun x hx => h.ready_created x (hready ▸ List.mem_cons_of_mem t hx),
    (List.nodup_cons.mp hnodup).2, h.phase⟩

/-! ## The loop -/

theorem pumpBody_again (h : pumpBody s = .again s') :
    ∃ t ready, s.ready = t :: ready ∧ s.activeWrites < s.concurrency.value ∧
      (((s.task t).settled = true ∧ s' = { s with ready := ready }) ∨
        ((s.task t).settled = false ∧ ∃ failure, s.failure = some failure ∧
          s' = ({ s with ready := ready } : DurableMirrorStore).release t (some failure)) ∨
        ((s.task t).settled = false ∧ s.failure = none ∧
          s' = ({ s with ready := ready } : DurableMirrorStore).start t)) := by
  unfold pumpBody at h
  split_ifs at h with hroom
  cases hready : s.ready with
  | nil =>
    rw [hready] at h
    cases h
  | cons t ready =>
    rw [hready] at h
    dsimp only at h
    refine ⟨t, ready, rfl, hroom, ?_⟩
    split_ifs at h with hsettled
    · exact .inl ⟨hsettled, (Step.again.inj h).symm⟩
    · have hunsettled : (s.task t).settled = false := by simpa using hsettled
      cases hfail : s.failure with
      | none =>
        rw [hfail] at h
        exact .inr (Or.inr ⟨hunsettled, rfl, (Step.again.inj h).symm⟩)
      | some failure =>
        rw [hfail] at h
        exact .inr (Or.inl ⟨hunsettled, failure, rfl, (Step.again.inj h).symm⟩)

theorem pumpBody_done (h : pumpBody s = .done s') : s' = s ∧ s.Quiet := by
  unfold pumpBody at h
  split_ifs at h with hroom
  · cases hready : s.ready with
    | nil =>
      rw [hready] at h
      exact ⟨(Step.done.inj h).symm, Or.inl hready⟩
    | cons t ready =>
      rw [hready] at h
      dsimp only at h
      split_ifs at h
      cases hfail : s.failure with
      | none =>
        rw [hfail] at h
        cases h
      | some failure =>
        rw [hfail] at h
        cases h
  · exact ⟨(Step.done.inj h).symm, Or.inr (by omega)⟩

theorem pumpBody_graph (hg : s.TaskGraph) (h : pumpBody s = .again s') : s'.TaskGraph := by
  obtain ⟨t, ready, hready, -, hcase⟩ := pumpBody_again h
  have hshift := hg.shift hready
  have hnodup := hg.ready_nodup
  rw [hready] at hnodup
  rcases hcase with ⟨-, rfl⟩ | ⟨-, failure, -, rfl⟩ | ⟨-, -, rfl⟩
  · exact hshift
  · exact hshift.released (release_spec hshift _)
  · exact hshift.start (hg.ready_waiting t (hready ▸ List.mem_cons_self)).2 (List.nodup_cons.mp hnodup).1

def blocked (s : DurableMirrorStore) : Nat :=
  s.tasks.elems.countP (fun t => decide ((s.task t).dependencies.size ≠ 0))

theorem blocked_released (hrel : Released t s s') : s'.ready.length + s'.blocked ≤ s.ready.length + s.blocked := by
  obtain ⟨new, hnew, hnodup, hmem⟩ := hrel.ready
  have htasks : s'.tasks = s.tasks.erase t := by rw [hrel.frame]
  have hblocked : ∀ (w : DurableMirrorStore) x, decide ((w.task x).dependencies.size ≠ 0) = true ↔
      ∃ d, d ∈ (w.task x).dependencies := by
    intro w x
    rw [decide_eq_true_iff, ne_eq, OrderedSet.size_eq_zero]
    push Not
    exact Iff.rfl
  -- the newly ready tasks and those that stay blocked were blocked before
  have hle : (s'.tasks.elems.filter (fun x => decide ((s'.task x).dependencies.size ≠ 0))
      ++ new).length ≤ (s.tasks.elems.filter
        (fun x => decide ((s.task x).dependencies.size ≠ 0))).length := by
    refine (List.Nodup.subperm ?_ ?_).length_le
    · rw [List.nodup_append]
      refine ⟨s'.tasks.nodup.filter _, hnodup, ?_⟩
      rintro x hx y hy rfl
      obtain ⟨hlive, hxt, hall⟩ := (hmem x).mp hy
      obtain ⟨d, hd⟩ := (hblocked s' x).mp (List.mem_filter.mp hx).2
      obtain ⟨hd, hne⟩ := (hrel.dependencies x d).mp hd
      exact hne ⟨hall d hd, hlive⟩
    · intro x hx
      rw [List.mem_filter]
      rcases List.mem_append.mp hx with hx | hx
      · obtain ⟨hx', hd⟩ := List.mem_filter.mp hx
        obtain ⟨d, hd⟩ := (hblocked s' x).mp hd
        rw [htasks] at hx'
        exact ⟨(OrderedSet.mem_erase.mp hx').2, (hblocked s x).mpr ⟨d, ((hrel.dependencies x d).mp hd).1⟩⟩
      · obtain ⟨hlive, hxt, -⟩ := (hmem x).mp hx
        exact ⟨hlive, (hblocked s x).mpr ⟨t, hxt⟩⟩
  rw [List.length_append] at hle
  rw [hnew, List.length_append, blocked, blocked, List.countP_eq_length_filter, List.countP_eq_length_filter]
  omega

theorem pumpBody_measure (hg : s.TaskGraph) (h : pumpBody s = .again s') :
    s'.ready.length + s'.blocked < s.ready.length + s.blocked := by
  obtain ⟨t, ready, hready, -, hcase⟩ := pumpBody_again h
  have hlength : s.ready.length = ready.length + 1 := by rw [hready]; rfl
  rcases hcase with ⟨-, rfl⟩ | ⟨-, failure, -, rfl⟩ | ⟨-, -, rfl⟩
  · have : ({ s with ready := ready } : DurableMirrorStore).blocked = s.blocked := rfl
    dsimp only
    omega
  · have hshift := hg.shift hready
    have hle := blocked_released (release_spec (t := t) hshift (some failure))
    have : ({ s with ready := ready } : DurableMirrorStore).blocked = s.blocked := rfl
    dsimp only at hle
    omega
  · have : (({ s with ready := ready } : DurableMirrorStore).start t).blocked = s.blocked := by
      unfold blocked
      refine List.countP_congr fun x _ => ?_
      rw [start_dependencies]
    have : (({ s with ready := ready } : DurableMirrorStore).start t).ready.length = ready.length := rfl
    omega

theorem pump_spec (hg : s.TaskGraph) (P : DurableMirrorStore → Prop) (hs : P s)
    (hround : ∀ s s', s.TaskGraph → P s → pumpBody s = .again s' → P s') :
    s.pump.TaskGraph ∧ P s.pump ∧ s.pump.Quiet := by
  obtain ⟨s', hrun, hpost⟩ := run_spec pumpBody (fun s => s.ready.length + s.blocked)
    (fun s => s.TaskGraph ∧ P s) (fun s => s.TaskGraph ∧ P s ∧ s.Quiet)
    (fun s s' hs hb => ⟨⟨pumpBody_graph hs.1 hb, hround s s' hs.1 hs.2 hb⟩, pumpBody_measure hs.1 hb⟩)
    (fun s s' hs hb => by
      obtain ⟨rfl, hquiet⟩ := pumpBody_done hb
      exact ⟨hs.1, hs.2, hquiet⟩)
    (s.ready.length + s.tasks.size + 1) s ⟨hg, hs⟩ (by
      have : s.blocked ≤ s.tasks.size := List.countP_le_length
      omega)
  rw [pump, hrun]
  exact hpost

end DurableMirrorStore

/-!
# Proofs: what settling and starting tasks keeps
-/

theorem countP_erase_set {α : Type} [DecidableEq α] (l : OrderedSet α) (p : α → Bool) {a : α}
    (ha : a ∈ l) : (l.erase a).elems.countP p = l.elems.countP p - (if p a then 1 else 0) := by
  have hmem : a ∈ l.elems := ha
  rw [OrderedSet.elems_erase, List.countP_erase]
  simp [hmem]

theorem countP_flip {α : Type} [DecidableEq α] (l : List α) (p q : α → Bool) {a : α} (hl : l.Nodup)
    (ha : a ∈ l) (hp : p a = false) (hq : q a = true) (hne : ∀ x, x ≠ a → q x = p x) :
    l.countP q = l.countP p + 1 := by
  induction l with
  | nil => exact absurd ha List.not_mem_nil
  | cons x l ih =>
    rw [List.nodup_cons] at hl
    rw [List.countP_cons, List.countP_cons]
    by_cases hx : x = a
    · subst hx
      have hrest : l.countP q = l.countP p :=
        List.countP_congr fun y hy => by rw [hne y (fun hya => hl.1 (hya ▸ hy))]
      simp [hrest, hp, hq]
    · have hmem := (List.mem_cons.mp ha).resolve_left (fun h => hx h.symm)
      rw [ih hl.2 hmem, hne x hx]
      omega

namespace DurableMirrorStore

variable {s s' s'' : DurableMirrorStore} {t : Nat}

/-! ## What no settling or starting changes -/

/-- From `s` to `s'` tasks were only started and settled. -/
structure Kept (s s' : DurableMirrorStore) : Prop where
  concurrency : s'.concurrency = s.concurrency
  maxPendingWrites : s'.maxPendingWrites = s.maxPendingWrites
  recordTails : s'.recordTails = s.recordTails
  pendingPuts : s'.pendingPuts = s.pendingPuts
  lastEventTask : s'.lastEventTask = s.lastEventTask
  eventBatch : s'.eventBatch = s.eventBatch
  restoreTask : s'.restoreTask = s.restoreTask
  failure : s'.failure = s.failure
  created : s'.created = s.created
  batch : s'.batch = s.batch
  action : ∀ x, (s'.task x).action = (s.task x).action
  started : ∀ x, (s.task x).started = true → (s'.task x).started = true
  tasks_sub : ∀ x, x ∈ s'.tasks → x ∈ s.tasks
  phase : ∀ x ∈ s'.tasks, (s'.task x).phase = (s.task x).phase ∨ (s'.task x).phase = .scheduled

theorem Kept.refl (s : DurableMirrorStore) : Kept s s :=
  ⟨rfl, rfl, rfl, rfl, rfl, rfl, rfl, rfl, rfl, rfl, fun _ => rfl, fun _ h => h, fun _ h => h, fun _ _ => Or.inl rfl⟩

theorem Kept.trans (h : Kept s s') (h' : Kept s' s'') : Kept s s'' where
  concurrency := h'.concurrency.trans h.concurrency
  maxPendingWrites := h'.maxPendingWrites.trans h.maxPendingWrites
  recordTails := h'.recordTails.trans h.recordTails
  pendingPuts := h'.pendingPuts.trans h.pendingPuts
  lastEventTask := h'.lastEventTask.trans h.lastEventTask
  eventBatch := h'.eventBatch.trans h.eventBatch
  restoreTask := h'.restoreTask.trans h.restoreTask
  failure := h'.failure.trans h.failure
  created := h'.created.trans h.created
  batch := h'.batch.trans h.batch
  action := fun x => (h'.action x).trans (h.action x)
  started := fun x hx => h'.started x (h.started x hx)
  tasks_sub := fun x hx => h.tasks_sub x (h'.tasks_sub x hx)
  phase := by
    intro x hx
    rcases h'.phase x hx with heq | heq
    · rw [heq]
      exact h.phase x (h'.tasks_sub x hx)
    · exact .inr heq

theorem Released.kept (h : Released t s s') : Kept s s' := by
  have htasks : ∀ x, x ∈ s'.tasks ↔ x ≠ t ∧ x ∈ s.tasks := by
    intro x
    rw [h.frame]
    exact OrderedSet.mem_erase
  refine ⟨?_, ?_, ?_, ?_, ?_, ?_, ?_, ?_, ?_, ?_, h.action, fun x hx => (h.started x).trans hx,
    fun x hx => ((htasks x).mp hx).2, fun x hx => Or.inl (h.phase x ((htasks x).mp hx).1)⟩
  all_goals rw [h.frame]

theorem kept_shift (s : DurableMirrorStore) (ready : List Nat) : Kept s { s with ready := ready } :=
  ⟨rfl, rfl, rfl, rfl, rfl, rfl, rfl, rfl, rfl, rfl, fun _ => rfl, fun _ h => h, fun _ h => h, fun _ _ => Or.inl rfl⟩

theorem kept_start (s : DurableMirrorStore) (t : Nat) : Kept s (s.start t) := by
  refine ⟨rfl, rfl, rfl, rfl, rfl, rfl, rfl, rfl, rfl, rfl, fun x => ?_, fun x hx => ?_, fun x hx => hx, fun x _ => ?_⟩
  · rw [start_task]
    split_ifs with h
    · rw [h]
    · rfl
  · rw [start_task]
    split_ifs
    · rfl
    · exact hx
  · rw [start_task]
    split_ifs
    · exact .inr rfl
    · exact .inl rfl

theorem pumpBody_kept (hg : s.TaskGraph) (h : pumpBody s = .again s') : Kept s s' := by
  obtain ⟨t, ready, hready, -, hcase⟩ := pumpBody_again h
  rcases hcase with ⟨-, rfl⟩ | ⟨-, failure, -, rfl⟩ | ⟨-, -, rfl⟩
  · exact kept_shift s ready
  · exact (kept_shift s ready).trans (release_spec (hg.shift hready) _).kept
  · exact (kept_shift s ready).trans (kept_start _ t)

theorem pump_kept (hg : s.TaskGraph) : s.pump.TaskGraph ∧ Kept s s.pump := by
  obtain ⟨hgraph, hkept, -⟩ := pump_spec hg (fun s' => Kept s s') (Kept.refl s)
    (fun _ _ hg' hk hb => hk.trans (pumpBody_kept hg' hb))
  exact ⟨hgraph, hkept⟩

theorem Typed.kept (h : s.Typed) (hk : Kept s s') : s'.Typed where
  tails := by
    rw [hk.recordTails, hk.created]
    intro id t ht
    rw [hk.action]
    exact h.tails id t ht
  puts := by
    rw [hk.pendingPuts, hk.created]
    intro t ht
    rw [hk.action]
    exact h.puts t ht
  lastEvent := by
    rw [hk.lastEventTask, hk.created]
    intro t ht
    rw [hk.action]
    exact h.lastEvent t ht
  restored := by
    rw [hk.restoreTask, hk.created]
    intro t ht
    rw [hk.action]
    exact h.restored t ht
  opened := by
    rw [hk.eventBatch, hk.created]
    intro t ht
    rw [hk.action]
    exact h.opened t ht
  immediate := by
    intro t ht hphase
    rw [hk.action]
    rcases hk.phase t ht with heq | heq
    · exact h.immediate t (hk.tasks_sub t ht) (heq.symm.trans hphase)
    · rw [heq] at hphase
      cases hphase
  awaiting := by
    intro t ht l hphase
    rw [hk.action, hk.batch]
    rcases hk.phase t ht with heq | heq
    · exact h.awaiting t (hk.tasks_sub t ht) l (heq.symm.trans hphase)
    · rw [heq] at hphase
      cases hphase
  batches := by
    rw [hk.created, hk.batch]
    intro t ht haction d hd
    rw [hk.action] at haction ⊢
    exact h.batches t ht haction d hd
  unused := by
    rw [hk.created, hk.batch]
    exact h.unused

/-! ## Running -/

theorem Running.shift_start {ready : List Nat} (hg : s.TaskGraph) (h : s.Running)
    (hready : s.ready = t :: ready) :
    (({ s with ready := ready } : DurableMirrorStore).start t).Running := by
  have hnodup := hg.ready_nodup
  rw [hready, List.nodup_cons] at hnodup
  obtain ⟨hlive, hwait, hfree⟩ := (h.ready_iff t).mp (hready ▸ List.mem_cons_self)
  generalize hs1 : (({ s with ready := ready } : DurableMirrorStore).start t) = s1
  have hkept : Kept s s1 := hs1 ▸ (kept_shift s ready).trans (kept_start _ t)
  have htasks : s1.tasks = s.tasks := by rw [← hs1]; rfl
  have hdeps : ∀ x, (s1.task x).dependencies = (s.task x).dependencies := by
    intro x
    rw [← hs1, start_dependencies]
  have hstarted : ∀ x, (s1.task x).started = if x = t then true else (s.task x).started := by
    intro x
    rw [← hs1, start_task]
    split_ifs
    · rfl
    · rfl
  refine ⟨fun x => ?_, ?_, ?_, fun x hx haction d hd => ?_, fun x hx x' hx' ha ha' hlt => ?_,
    fun b hb haction d hd x hx => ?_, fun b hb x hx => ?_, fun hm b hb haction d hd hdlive => ?_⟩
  · have hmem : x ∈ s1.ready ↔ x ∈ ready := by rw [← hs1]; rfl
    rw [hmem, htasks, hstarted, hdeps]
    have hiff := h.ready_iff x
    rw [hready, List.mem_cons] at hiff
    by_cases hx : x = t
    · rw [if_pos hx, hx]
      simp [hnodup.1]
    · rw [if_neg hx, ← hiff]
      simp [hx]
  · have hactive : s1.activeWrites = s.activeWrites + 1 := by rw [← hs1]; rfl
    rw [hactive, htasks, h.active]
    refine (countP_flip s.tasks.elems _ _ s.tasks.nodup hlive hwait ?_ ?_).symm
    · rw [hstarted, if_pos rfl]
    · intro x hx
      rw [hstarted, if_neg hx]
  · have hpending : s1.pendingWrites = s.pendingWrites := by rw [← hs1]; rfl
    rw [hpending, htasks]
    exact h.pending
  · rw [hdeps] at hd
    rw [hkept.action] at haction ⊢
    exact h.put_waits x (htasks ▸ hx) haction d hd
  · rw [hkept.action] at ha ha'
    rw [htasks] at hx hx'
    obtain ⟨d, hd, hda, hle⟩ := h.chained x hx x' hx' ha ha' hlt
    exact ⟨d, by rw [hdeps]; exact hd, by rw [hkept.action]; exact hda, hle⟩
  · rw [hkept.action] at haction ⊢
    rw [hkept.batch] at hd
    rw [hkept.created] at hb hx
    exact h.closed_before b hb haction d hd x hx
  · rw [hkept.action]
    rw [hkept.created] at hx
    exact h.open_last b (hkept.eventBatch ▸ hb) x hx
  · rw [hkept.action] at haction
    rw [hkept.batch] at hd
    rw [hkept.created] at hb
    rw [hkept.maxPendingWrites] at hm
    exact hkept.started d (h.few hm b hb haction d hd (htasks ▸ hdlive))

theorem pump_running (hg : s.TaskGraph) (h : s.Running) (hfail : s.failure = none) :
    s.pump.TaskGraph ∧ Kept s s.pump ∧ s.pump.Running ∧ s.pump.tasks = s.tasks ∧ s.pump.Quiet := by
  obtain ⟨hgraph, ⟨hkept, hrun, htasks⟩, hquiet⟩ := pump_spec hg
    (fun s' => Kept s s' ∧ s'.Running ∧ s'.tasks = s.tasks) ⟨Kept.refl s, h, rfl⟩
    (fun s1 s2 hg1 hs1 hb => by
      obtain ⟨hkept, hrun, htasks⟩ := hs1
      refine ⟨hkept.trans (pumpBody_kept hg1 hb), ?_⟩
      obtain ⟨t, ready, hready, -, hcase⟩ := pumpBody_again hb
      have hlive := ((hrun.ready_iff t).mp (hready ▸ List.mem_cons_self)).1
      have hunsettled := ((hg1.live t).mp hlive).2
      rcases hcase with ⟨hsettled, -⟩ | ⟨-, failure, hfailed, -⟩ | ⟨-, -, rfl⟩
      · rw [hsettled] at hunsettled
        cases hunsettled
      · rw [hkept.failure, hfail] at hfailed
        cases hfailed
      · exact ⟨hrun.shift_start hg1 hready, htasks⟩)
  exact ⟨hgraph, hkept, hrun, htasks, hquiet⟩

theorem Running.released (hg : s.TaskGraph) (hty : s.Typed) (h : s.Running) (ht : t ∈ s.tasks)
    (hstarted : (s.task t).started = true) (hcov : s.Covered) (hrel : Released t s s') :
    s'.Running ∧ s'.Covered := by
  have hkept := hrel.kept
  have htasks : ∀ x, x ∈ s'.tasks ↔ x ≠ t ∧ x ∈ s.tasks := by
    intro x
    rw [hrel.frame]
    exact OrderedSet.mem_erase
  have hfree := hg.started_free t ht hstarted
  -- an ordered task before `t` would have kept it from starting
  have hfirst : ∀ x ∈ s.tasks, (s.task x).action.ordersEvents = true →
      (s.task t).action.ordersEvents = true → x ≤ t → x = t := by
    intro x hx ha hat hle
    by_contra hne
    obtain ⟨d, hd, -⟩ := h.chained x hx t ht ha hat (lt_of_le_of_ne hle hne)
    exact hfree d hd
  obtain ⟨new, hnew, -, hmem⟩ := hrel.ready
  refine ⟨⟨fun x => ?_, ?_, ?_, fun x hx haction d hd => ?_, fun x hx x' hx' ha ha' hlt => ?_,
    fun b hb haction d hd x hx => ?_, fun b hb x hx => ?_,
    fun hm b hb haction d hd hdlive => ?_⟩, fun x hx ha => ?_⟩
  · rw [hnew, List.mem_append, h.ready_iff, hmem, htasks, hrel.started]
    constructor
    · rintro (⟨hx, hwait, hnone⟩ | ⟨hx, hxt, hall⟩)
      · refine ⟨⟨fun hxt => ?_, hx⟩, hwait, fun d hd => hnone d ((hrel.dependencies x d).mp hd).1⟩
        rw [hxt, hstarted] at hwait
        cases hwait
      · refine ⟨⟨fun hxt' => hfree t (hxt' ▸ hxt), hx⟩, ?_, fun d hd => ?_⟩
        · cases hst : (s.task x).started with
          | false => rfl
          | true => exact absurd hxt (hg.started_free x hx hst t)
        · obtain ⟨hd, hne⟩ := (hrel.dependencies x d).mp hd
          exact hne ⟨hall d hd, hx⟩
    · rintro ⟨⟨hne, hx⟩, hwait, hnone⟩
      have hall : ∀ d ∈ (s.task x).dependencies, d = t := by
        intro d hd
        by_contra hdt
        exact hnone d ((hrel.dependencies x d).mpr ⟨hd, fun h' => hdt h'.1⟩)
      by_cases hxt : t ∈ (s.task x).dependencies
      · exact .inr ⟨hx, hxt, hall⟩
      · exact .inl ⟨hx, hwait, fun d hd => hxt (hall d hd ▸ hd)⟩
  · have hactive : s'.activeWrites = s.activeWrites - 1 := by
      rw [hrel.frame]
      exact if_pos hstarted
    have htasks' : s'.tasks = s.tasks.erase t := by rw [hrel.frame]
    have hcount : s'.tasks.elems.countP (fun x => (s'.task x).started)
        = s'.tasks.elems.countP (fun x => (s.task x).started) :=
      List.countP_congr fun x _ => by rw [hrel.started]
    rw [hactive, hcount, htasks', countP_erase_set _ _ ht, h.active, hstarted]
    rfl
  · have hpending : s'.pendingWrites = s.pendingWrites - 1 := by rw [hrel.frame]
    have htasks' : s'.tasks = s.tasks.erase t := by rw [hrel.frame]
    have hsize := countP_erase_set s.tasks (fun _ => true) ht
    rw [List.countP_true] at hsize
    rw [hpending, htasks', h.pending]
    exact hsize.symm
  · rw [hrel.action] at haction ⊢
    exact h.put_waits x ((htasks x).mp hx).2 haction d ((hrel.dependencies x d).mp hd).1
  · rw [hrel.action] at ha ha'
    obtain ⟨hne, hx⟩ := (htasks x).mp hx
    obtain ⟨d, hd, hda, hle⟩ := h.chained x hx x' ((htasks x').mp hx').2 ha ha' hlt
    refine ⟨d, (hrel.dependencies x' d).mpr ⟨hd, ?_⟩, by rw [hrel.action]; exact hda, hle⟩
    rintro ⟨rfl, -⟩
    exact hne (hfirst x hx ha hda hle)
  · rw [hrel.action] at haction ⊢
    rw [hkept.batch] at hd
    rw [hkept.created] at hb hx
    exact h.closed_before b hb haction d hd x hx
  · rw [hrel.action]
    rw [hkept.created] at hx
    exact h.open_last b (hkept.eventBatch ▸ hb) x hx
  · rw [hrel.action] at haction
    rw [hkept.batch] at hd
    rw [hkept.created] at hb
    rw [hkept.maxPendingWrites] at hm
    exact hkept.started d (h.few hm b hb haction d hd ((htasks d).mp hdlive).2)
  · rw [hrel.action] at ha
    obtain ⟨hne, hx⟩ := (htasks x).mp hx
    obtain ⟨l, hl, hlast, hle⟩ := hcov x hx ha
    rw [hkept.lastEventTask, hkept.restoreTask]
    refine ⟨l, (htasks l).mpr ⟨?_, hl⟩, hlast, hle⟩
    have hla : (s.task l).action.ordersEvents = true := by
      rcases hlast with hlast | hlast
      · exact (hty.lastEvent l hlast).2
      · exact (hty.restored l hlast).2.1
    rintro rfl
    exact hne (hfirst x hx ha hla hle)

theorem settle_kept (hg : s.TaskGraph) (error : Option JsError) :
    (s.settle t error).TaskGraph ∧ Kept s (s.settle t error) ∧ t ∉ (s.settle t error).tasks := by
  unfold settle
  split_ifs with hsettled
  · refine ⟨hg, Kept.refl s, fun ht => ?_⟩
    rw [((hg.live t).mp ht).2] at hsettled
    cases hsettled
  · have hrel := release_spec (t := t) hg error
    obtain ⟨hgraph, hkept⟩ := pump_kept (hg.released hrel)
    refine ⟨hgraph, hrel.kept.trans hkept, fun ht => ?_⟩
    have hmem := hkept.tasks_sub t ht
    rw [hrel.frame] at hmem
    exact (OrderedSet.mem_erase.mp hmem).1 rfl

theorem settle_running (hg : s.TaskGraph) (hty : s.Typed) (h : s.Running) (hcov : s.Covered)
    (hfail : s.failure = none) (ht : t ∈ s.tasks) (hstarted : (s.task t).started = true) :
    (s.settle t none).Running ∧ (s.settle t none).Covered ∧ (s.settle t none).Quiet := by
  unfold settle
  have hunsettled := ((hg.live t).mp ht).2
  rw [if_neg (by simp [hunsettled])]
  have hrel := release_spec (t := t) hg none
  obtain ⟨hrun, hcov'⟩ := h.released hg hty ht hstarted hcov hrel
  obtain ⟨-, hkept, hrun', htasks, hquiet⟩ :=
    pump_running (hg.released hrel) hrun (hrel.kept.failure.trans hfail)
  refine ⟨hrun', fun x hx ha => ?_, hquiet⟩
  rw [hkept.action] at ha
  rw [htasks] at hx
  rw [htasks, hkept.lastEventTask, hkept.restoreTask]
  exact hcov' x hx ha

theorem cancelQueued_spec (hg : s.TaskGraph) (error : Option JsError) :
    (s.cancelQueued error).TaskGraph ∧ Kept s (s.cancelQueued error) ∧
      ∀ x ∈ (s.cancelQueued error).tasks, ((s.cancelQueued error).task x).started = true := by
  have hfold : ∀ (l : List Nat) (w : DurableMirrorStore), w.TaskGraph →
      ∀ w', w' = l.foldl (fun s t =>
        if !(s.task t).started && !(s.task t).settled then s.settle t error else s) w →
      w'.TaskGraph ∧ Kept w w' ∧ ∀ x ∈ l, x ∈ w'.tasks → (w'.task x).started = true := by
    intro l
    induction l with
    | nil =>
      intro w hw w' hw'
      rw [hw']
      exact ⟨hw, Kept.refl w, fun x hx => absurd hx List.not_mem_nil⟩
    | cons a l ih =>
      rintro w hw w' rfl
      rw [List.foldl_cons]
      generalize hw1 : (if !(w.task a).started && !(w.task a).settled then w.settle a error
        else w) = w₁
      have h1 : w₁.TaskGraph ∧ Kept w w₁ ∧ (a ∈ w₁.tasks → (w₁.task a).started = true) := by
        rw [← hw1]
        split_ifs with hqueued
        · obtain ⟨hgraph, hkept, hgone⟩ := settle_kept (t := a) hw error
          exact ⟨hgraph, hkept, fun ha => absurd ha hgone⟩
        · refine ⟨hw, Kept.refl w, fun ha => ?_⟩
          have hunsettled := ((hw.live a).mp ha).2
          simpa [hunsettled] using hqueued
      obtain ⟨hgraph, hkept, hdone⟩ := ih w₁ h1.1 _ rfl
      refine ⟨hgraph, h1.2.1.trans hkept, fun x hx hlive => ?_⟩
      rcases List.mem_cons.mp hx with rfl | hx
      · exact hkept.started _ (h1.2.2 (hkept.tasks_sub _ hlive))
      · exact hdone x hx hlive
  obtain ⟨hgraph, hkept, hdone⟩ := hfold s.tasks.elems s hg _ rfl
  exact ⟨hgraph, hkept, fun x hx => hdone x (hkept.tasks_sub x hx) hx⟩

end DurableMirrorStore

end Premise.DurableMirror
