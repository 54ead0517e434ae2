import Premise.DurableMirror.Proofs.CallProofs

/-!
# Proofs: which tasks `pump` starts

Without a failure `pump` starts ready tasks and settles nothing; after one it settles ready tasks and
starts nothing.
-/

namespace Premise.DurableMirror

open Collections Control Js

namespace DurableMirrorStore

variable {s s' s'' : DurableMirrorStore} {t : Nat}

/-- From `s` to `s'` only tasks that wait for nothing were started. -/
structure Started (s s' : DurableMirrorStore) : Prop where
  kept : Kept s s'
  tasks : s'.tasks = s.tasks
  settledPuts : s'.settledPuts = s.settledPuts
  settled : ∀ x, (s'.task x).settled = (s.task x).settled
  dependencies : ∀ x, (s'.task x).dependencies = (s.task x).dependencies
  started : ∀ x, (s'.task x).started = true →
    (s.task x).started = true ∨ (x ∈ s.tasks ∧ ∀ d, d ∉ (s.task x).dependencies)
  phase : ∀ x, (s.task x).started = true → (s'.task x).phase = (s.task x).phase

theorem Started.refl (s : DurableMirrorStore) : Started s s :=
  ⟨Kept.refl s, rfl, rfl, fun _ => rfl, fun _ => rfl, fun _ h => Or.inl h, fun _ _ => rfl⟩

theorem Started.trans (h : Started s s') (h' : Started s' s'') : Started s s'' where
  kept := h.kept.trans h'.kept
  tasks := h'.tasks.trans h.tasks
  settledPuts := h'.settledPuts.trans h.settledPuts
  settled := fun x => (h'.settled x).trans (h.settled x)
  dependencies := fun x => (h'.dependencies x).trans (h.dependencies x)
  started := by
    intro x hx
    rcases h'.started x hx with hx | ⟨hx, hfree⟩
    · exact h.started x hx
    · rw [h.tasks] at hx
      rw [h.dependencies] at hfree
      exact .inr ⟨hx, hfree⟩
  phase := fun x hx => (h'.phase x (h.kept.started x hx)).trans (h.phase x hx)

theorem Kept.phase_queued (hk : Kept s s') (hg : s.TaskGraph)
    (hstarted : ∀ x ∈ s'.tasks, (s.task x).started = true → (s'.task x).phase = (s.task x).phase)
    {x : Nat} (hx : x ∈ s'.tasks) : (s'.task x).phase = (s.task x).phase ∨
      ((s'.task x).phase = .scheduled ∧ (s.task x).phase = .queued) := by
  by_cases hst : (s.task x).started = true
  · exact .inl (hstarted x hx hst)
  · refine (hk.phase x hx).imp_right fun h => ⟨h, ?_⟩
    by_contra hne
    exact hst ((hg.phase x (hk.tasks_sub x hx)).2.mpr hne)

theorem started_shift_start {ready : List Nat} (h : s.Running) (hready : s.ready = t :: ready) :
    Started s (({ s with ready := ready } : DurableMirrorStore).start t) := by
  obtain ⟨hlive, hwait, hfree⟩ := (h.ready_iff t).mp (hready ▸ List.mem_cons_self)
  refine ⟨(kept_shift s ready).trans (kept_start _ t), rfl, rfl, fun x => ?_, fun x => ?_, fun x hx => ?_, fun x hx => ?_⟩
  · rw [start_task]
    split_ifs with hxt
    · rw [hxt]
    · rfl
  · rw [start_dependencies]
  · by_cases hxt : x = t
    · exact .inr ⟨hxt ▸ hlive, hxt ▸ hfree⟩
    · rw [start_task, if_neg hxt] at hx
      exact .inl hx
  · have hne : x ≠ t := by
      rintro rfl
      rw [hwait] at hx
      cases hx
    rw [start_task, if_neg hne]

theorem pump_started (hg : s.TaskGraph) (h : s.Running) (hfail : s.failure = none) : Started s s.pump := by
  obtain ⟨-, ⟨hstarted, -⟩, -⟩ := pump_spec hg (fun s' => Started s s' ∧ s'.Running)
    ⟨Started.refl s, h⟩
    (fun s₁ s2 hg1 hs1 hb => by
      obtain ⟨hstarted, hrun⟩ := hs1
      obtain ⟨t, ready, hready, -, hcase⟩ := pumpBody_again hb
      have hlive := ((hrun.ready_iff t).mp (hready ▸ List.mem_cons_self)).1
      have hunsettled := ((hg1.live t).mp hlive).2
      rcases hcase with ⟨hsettled, -⟩ | ⟨-, failure, hfailed, -⟩ | ⟨-, -, rfl⟩
      · rw [hsettled] at hunsettled
        cases hunsettled
      · rw [hstarted.kept.failure, hfail] at hfailed
        cases hfailed
      · exact ⟨hstarted.trans (started_shift_start hrun hready), hrun.shift_start hg1 hready⟩)
  exact hstarted

/-- From `s` to `s'` tasks were only settled. -/
structure Cancelled (s s' : DurableMirrorStore) : Prop where
  kept : Kept s s'
  settled : ∀ x, (s.task x).settled = true → (s'.task x).settled = true
  started : ∀ x, (s'.task x).started = (s.task x).started
  phase : ∀ x ∈ s'.tasks, (s'.task x).phase = (s.task x).phase

theorem Cancelled.refl (s : DurableMirrorStore) : Cancelled s s :=
  ⟨Kept.refl s, fun _ h => h, fun _ => rfl, fun _ _ => rfl⟩

theorem Cancelled.trans (h : Cancelled s s') (h' : Cancelled s' s'') : Cancelled s s'' where
  kept := h.kept.trans h'.kept
  settled := fun x hx => h'.settled x (h.settled x hx)
  started := fun x => (h'.started x).trans (h.started x)
  phase := fun x hx => (h'.phase x hx).trans (h.phase x (h'.kept.tasks_sub x hx))

theorem Released.cancelled (h : Released t s s') : Cancelled s s' where
  kept := h.kept
  settled := by
    intro x hx
    rw [h.settled]
    split_ifs
    · rfl
    · exact hx
  started := h.started
  phase := by
    intro x hx
    rw [h.frame] at hx
    exact h.phase x (OrderedSet.mem_erase.mp hx).1

theorem pump_cancelled (hg : s.TaskGraph) (hfail : s.failure ≠ none) : Cancelled s s.pump := by
  obtain ⟨-, hcancelled, -⟩ := pump_spec hg (fun s' => Cancelled s s') (Cancelled.refl s)
    (fun s₁ s2 hg1 hs1 hb => by
      obtain ⟨t, ready, hready, -, hcase⟩ := pumpBody_again hb
      have hshift : Cancelled s₁ { s₁ with ready := ready } :=
        ⟨kept_shift s₁ ready, fun _ h => h, fun _ => rfl, fun _ _ => rfl⟩
      rcases hcase with ⟨-, rfl⟩ | ⟨-, failure, -, rfl⟩ | ⟨-, hnone, -⟩
      · exact hs1.trans hshift
      · exact hs1.trans (hshift.trans (release_spec (hg1.shift hready) _).cancelled)
      · rw [hs1.kept.failure] at hnone
        exact absurd hnone hfail)
  exact hcancelled

theorem settle_cancelled (hg : s.TaskGraph) (hfail : s.failure ≠ none) (error : Option JsError) :
    Cancelled s (s.settle t error) := by
  unfold settle
  split_ifs
  · exact Cancelled.refl s
  · have hrel := release_spec (t := t) hg error
    refine hrel.cancelled.trans (pump_cancelled (hg.released hrel) ?_)
    rw [hrel.kept.failure]
    exact hfail

theorem cancelQueued_cancelled (hg : s.TaskGraph) (hfail : s.failure ≠ none)
    (error : Option JsError) : Cancelled s (s.cancelQueued error) := by
  have hfold : ∀ (l : List Nat) (w : DurableMirrorStore), w.TaskGraph → w.failure ≠ none →
      Cancelled w (l.foldl (fun s t =>
        if !(s.task t).started && !(s.task t).settled then s.settle t error else s) w) := by
    intro l
    induction l with
    | nil => exact fun w _ _ => Cancelled.refl w
    | cons a l ih =>
      intro w hw hwfail
      rw [List.foldl_cons]
      split_ifs
      · obtain ⟨hgraph, hkept, -⟩ := settle_kept (t := a) hw error
        refine (settle_cancelled hw hwfail error).trans (ih _ hgraph ?_)
        rw [hkept.failure]
        exact hwfail
      · exact ih w hw hwfail
  exact hfold s.tasks.elems s hg hfail

theorem release_settledPuts (s : DurableMirrorStore) (t : Nat) (error : Option JsError) {x : Nat}
    (hx : x ∈ (s.release t error).settledPuts) : x ∈ s.settledPuts ∨ x = t := by
  have hloop : ∀ (l : List Nat) (w : DurableMirrorStore), (l.foldl (releaseDependent t) w).settledPuts = w.settledPuts := by
    intro l
    induction l with
    | nil => exact fun w => rfl
    | cons a l ih =>
      intro w
      rw [List.foldl_cons, ih]
      unfold releaseDependent
      dsimp only
      split_ifs
      · rfl
      · rfl
  unfold release at hx
  dsimp only at hx
  generalize hs1 : List.foldl (releaseDependent t) _ _ = s₁ at hx
  have hputs : s₁.settledPuts = s.settledPuts := by
    rw [← hs1, hloop]
    rfl
  obtain ⟨task', heq, -⟩ := forgetDependent_spec t (s₁.task t).dependencies.elems s₁
  rw [heq] at hx
  split_ifs at hx
  · rcases List.mem_append.mp hx with hx | hx
    · exact .inl (hputs ▸ hx)
    · exact .inr (List.mem_singleton.mp hx)
  · exact .inl (hputs ▸ hx)

end DurableMirrorStore

/-!
# Proofs: the edges of the task graph keep the writes in order
-/

theorem TaskAction.conflicts_restore {a b : TaskAction} (h : a.isRestore) : a.Conflicts b :=
  Or.inr (Or.inr (Or.inl h))

theorem TaskAction.conflicts_writes {a b : TaskAction} {memoryId : String}
    (ha : a.writes memoryId) (hb : b.writes memoryId) : a.Conflicts b :=
  Or.inr (Or.inl ⟨memoryId, ha, hb⟩)

namespace DurableMirrorStore

variable {s s' s₁ s₃ : DurableMirrorStore} {t : Nat}

/-! ## `pump` and `settle` -/

theorem Ordered.started (hg : s.TaskGraph) (h : s.Ordered) (hst : Started s s') : s'.Ordered := by
  obtain ⟨hkept, htasks, hputs, hsettled, hdeps, -, hphase⟩ := hst
  have hqueued : ∀ x ∈ s'.tasks, (s'.task x).phase = (s.task x).phase ∨
      ((s'.task x).phase = .scheduled ∧ (s.task x).phase = .queued) :=
    fun x hx => hkept.phase_queued hg (fun y _ => hphase y) hx
  refine ⟨?_, ?_, ?_, ?_, ?_, ?_, ?_⟩
  · simpa only [htasks, hkept.action, hdeps] using h.chain
  · simpa only [htasks, hkept.action, hkept.recordTails] using h.tails
  · simpa only [htasks, hkept.action, hkept.restoreTask] using h.restored
  · simpa only [htasks, hkept.action, hkept.pendingPuts] using h.pending
  · simpa only [htasks, hputs, hkept.created] using h.reacting
  · intro b hb
    obtain ⟨hlive, hopen⟩ := h.opened b (hkept.eventBatch ▸ hb)
    rw [htasks]
    refine ⟨hlive, ?_⟩
    rcases hqueued b (htasks ▸ hlive) with heq | ⟨heq, -⟩
    · rw [heq]
      exact hopen
    · rw [heq]
      trivial
  · intro x hx l hl d hd
    rw [hsettled]
    rw [hkept.batch] at hd
    rcases hqueued x hx with heq | ⟨heq, -⟩
    · exact h.awaited x (htasks ▸ hx) l (heq.symm.trans hl) d hd
    · rw [heq] at hl
      cases hl

theorem Ordered.first (h : s.Ordered) (ht : t ∈ s.tasks)
    (hfree : ∀ d, d ∉ (s.task t).dependencies) {x : Nat} (hx : x ∈ s.tasks) (hlt : x < t) :
    ¬ (s.task x).action.Conflicts (s.task t).action := by
  intro hconflict
  obtain ⟨d, hd, -⟩ := h.chain x hx t ht hlt hconflict
  exact hfree d hd

theorem Ordered.released (hg : s.TaskGraph) (h : s.Ordered) (ht : t ∈ s.tasks)
    (hstarted : (s.task t).started = true) (hclosed : ¬ (s.task t).phase.opens)
    (hrel : Released t s s') (hputs : ∀ x ∈ s'.settledPuts, x ∈ s.settledPuts ∨ x = t) :
    s'.Ordered := by
  have hkept := hrel.kept
  have hfree := hg.started_free t ht hstarted
  have htasks : ∀ x, x ∈ s'.tasks ↔ x ≠ t ∧ x ∈ s.tasks := by
    intro x
    rw [hrel.frame]
    exact OrderedSet.mem_erase
  refine ⟨?_, ?_, ?_, ?_, ?_, ?_, ?_⟩
  · intro x hx x' hx' hlt hconflict
    rw [hrel.action, hrel.action] at hconflict
    obtain ⟨hne, hx⟩ := (htasks x).mp hx
    obtain ⟨d, hd, hcase⟩ := h.chain x hx x' ((htasks x').mp hx').2 hlt hconflict
    rw [← hrel.action x, ← hrel.action d] at hcase
    refine ⟨d, (hrel.dependencies x' d).mpr ⟨hd, ?_⟩, hcase⟩
    rintro ⟨rfl, -⟩
    rcases hcase with rfl | ⟨hlt', hconflict'⟩
    · exact hne rfl
    · rw [hrel.action, hrel.action] at hconflict'
      exact h.first ht hfree hx hlt' hconflict'
  · intro memoryId x hx hw
    rw [hrel.action] at hw
    obtain ⟨hne, hx⟩ := (htasks x).mp hx
    obtain ⟨l, hl, htail, hle, hlw⟩ := h.tails memoryId x hx hw
    refine ⟨l, (htasks l).mpr ⟨?_, hl⟩, hkept.recordTails ▸ htail, hle, by rwa [hrel.action]⟩
    rintro rfl
    exact h.first hl hfree hx (lt_of_le_of_ne hle hne) (TaskAction.conflicts_writes hw hlw)
  · intro x hx hr
    rw [hrel.action] at hr
    obtain ⟨hne, hx⟩ := (htasks x).mp hx
    obtain ⟨r, hrlive, hrestore, hle⟩ := h.restored x hx hr
    refine ⟨r, (htasks r).mpr ⟨?_, hrlive⟩, hkept.restoreTask ▸ hrestore, hle⟩
    rintro rfl
    exact h.first hrlive hfree hx (lt_of_le_of_ne hle hne) (TaskAction.conflicts_restore hr)
  · intro x hx hw
    rw [hrel.action] at hw
    rw [hkept.pendingPuts]
    exact h.pending x ((htasks x).mp hx).2 hw
  · intro x hx
    rw [hkept.created, htasks]
    rcases hputs x hx with hx | rfl
    · obtain ⟨hlt, hgone⟩ := h.reacting x hx
      exact ⟨hlt, fun hlive => hgone hlive.2⟩
    · exact ⟨((hg.live x).mp ht).1, fun hlive => hlive.1 rfl⟩
  · intro b hb
    obtain ⟨hlive, hopen⟩ := h.opened b (hkept.eventBatch ▸ hb)
    have hne : b ≠ t := by
      rintro rfl
      exact hclosed hopen
    exact ⟨(htasks b).mpr ⟨hne, hlive⟩, by rwa [hrel.phase b hne]⟩
  · intro x hx l hl d hd
    obtain ⟨hne, hx⟩ := (htasks x).mp hx
    rw [hrel.phase x hne] at hl
    rw [hkept.batch] at hd
    rw [hrel.settled]
    refine (h.awaited x hx l hl d hd).imp_right fun hset => ?_
    split_ifs
    · rfl
    · exact hset

theorem Ordered.settle (hs : s.Sound) (h : s.Ordered) (hfail : s.failure = none) (ht : t ∈ s.tasks)
    (hstarted : (s.task t).started = true) (hclosed : ¬ (s.task t).phase.opens) :
    (s.settle t none).Ordered := by
  obtain ⟨hrun, hcov, -⟩ := hs.running hfail
  have hunsettled := ((hs.graph.live t).mp ht).2
  have hrel := release_spec (t := t) hs.graph none
  obtain ⟨hrun', -⟩ := hrun.released hs.graph hs.typed ht hstarted hcov hrel
  have hgraph := hs.graph.released hrel
  have hordered := h.released hs.graph ht hstarted hclosed hrel (fun x hx => release_settledPuts s t none hx)
  unfold DurableMirrorStore.settle
  rw [if_neg (by simp [hunsettled])]
  exact hordered.started hgraph (pump_started hgraph hrun' (hrel.kept.failure.trans hfail))

/-! ## The jobs -/

theorem Ordered.setPhase {phase : TaskPhase} (h : s.Ordered)
    (hopen : s.eventBatch = some t → phase.opens)
    (hawait : ∀ l, phase = .awaiting l → ∀ d ∈ (s.batch t).dependencies, d ∈ l ∨ (s.task d).settled = true) :
    (s.setPhase t phase).Ordered := by
  have htask := setPhase_task s t phase
  generalize hs1 : s.setPhase t phase = s₁ at htask
  have hsame : s₁ = { s with task := s₁.task } := by rw [← hs1]; rfl
  have htasks : s₁.tasks = s.tasks := by rw [hsame]
  have haction : ∀ x, (s₁.task x).action = (s.task x).action := fun x => by rw [htask]
  have hdeps : ∀ x, (s₁.task x).dependencies = (s.task x).dependencies := fun x => by rw [htask]
  have hset : ∀ x, (s₁.task x).settled = (s.task x).settled := fun x => by rw [htask]
  have hphase : ∀ x, (s₁.task x).phase = if x = t then phase else (s.task x).phase :=
    fun x => by rw [htask]
  refine ⟨?_, ?_, ?_, ?_, ?_, ?_, ?_⟩
  · simpa only [htasks, haction, hdeps] using h.chain
  · rw [hsame]
    simpa only [haction] using h.tails
  · rw [hsame]
    simpa only [haction] using h.restored
  · rw [hsame]
    simpa only [haction] using h.pending
  · rw [hsame]
    exact h.reacting
  · intro b hb
    have hb : s.eventBatch = some b := by
      rw [hsame] at hb
      exact hb
    obtain ⟨hlive, hopens⟩ := h.opened b hb
    rw [htasks, hphase]
    refine ⟨hlive, ?_⟩
    split_ifs with hbt
    · exact hopen (hbt ▸ hb)
    · exact hopens
  · intro x hx l hl d hd
    have hbatch : s₁.batch = s.batch := by rw [hsame]
    rw [hbatch] at hd
    rw [hphase] at hl
    rw [hset]
    split_ifs at hl with hxt
    · exact hawait l hl d (hxt ▸ hd)
    · exact h.awaited x (htasks ▸ hx) l hl d hd

theorem Ordered.issue (h : s.Ordered) (hclosed : s.eventBatch ≠ some t)
    (calls : List PersistentCall) : (s.issue t calls).Ordered := by
  cases calls with
  | nil | cons => exact h.setPhase (fun hopen => absurd hopen hclosed) nofun

theorem Ordered.not_open (h : s.Ordered) (hphase : ¬ (s.task t).phase.opens) :
    s.eventBatch ≠ some t := fun hopen => hphase (h.opened t hopen).2

theorem Ordered.runAction (hty : s.Typed) (h : s.Ordered) : (s.runAction t).Ordered := by
  have hclosed : (s.task t).action ≠ .flushEventBatch → s.eventBatch ≠ some t :=
    fun hne hopen => hne (hty.opened t hopen).2
  unfold DurableMirrorStore.runAction
  cases haction : (s.task t).action with
  | put record => exact h.issue (hclosed (by rw [haction]; nofun)) _
  | putAndAppend record event =>
    split_ifs
    · exact h.issue (hclosed (by rw [haction]; nofun)) _
    · exact h.issue (hclosed (by rw [haction]; nofun)) _
  | flushEventBatch => exact h.setPhase (fun _ => trivial) nofun
  | restore snapshot => exact h.issue (hclosed (by rw [haction]; nofun)) _

theorem Ordered.congr (h : s.Ordered) (htasks : s'.tasks = s.tasks) (htask : s'.task = s.task)
    (hbatch : s'.batch = s.batch) (htails : s'.recordTails = s.recordTails)
    (hrestore : s'.restoreTask = s.restoreTask) (hputs : s'.pendingPuts = s.pendingPuts)
    (hcreated : s'.created = s.created) (hsettled : s'.settledPuts = s.settledPuts)
    (hopened : ∀ b, s'.eventBatch = some b → s.eventBatch = some b) : s'.Ordered := by
  obtain ⟨h1, h2, h3, h4, h5, h6, h7⟩ := h
  refine ⟨?_, ?_, ?_, ?_, ?_, fun b hb => ?_, ?_⟩
  · rwa [htasks, htask]
  · rwa [htasks, htask, htails]
  · rwa [htasks, htask, hrestore]
  · rwa [htasks, htask, hputs]
  · rwa [htasks, hsettled, hcreated]
  · rw [htasks, htask]
    exact h6 b (hopened b hb)
  · rwa [htasks, htask, hbatch]

theorem Ordered.fireImmediate (h : s.Ordered) : (s.fireImmediate t).Ordered := by
  have hclosed : ({ s with
      eventBatch := if s.eventBatch = some t then none else s.eventBatch } :
      DurableMirrorStore).Ordered := by
    refine h.congr rfl rfl rfl rfl rfl rfl rfl rfl fun b hb => ?_
    split_ifs at hb
    exact hb
  refine hclosed.setPhase (fun hopen => ?_) (fun l hl d hd => ?_)
  · dsimp only at hopen
    split_ifs at hopen with heq
    exact absurd hopen heq
  · obtain rfl := TaskPhase.awaiting.inj hl
    cases hset : (s.task d).settled with
    | true => exact .inr rfl
    | false => exact .inl (List.mem_filter.mpr ⟨hd, by simp [hset]⟩)

theorem Ordered.writeDone (h : s.Ordered) (ht : t ∈ s.settledPuts) : (s.writeDone t).Ordered := by
  have hgone := (h.reacting t ht).2
  have htails : ∀ memoryId l, l ≠ t → s.recordTails.get? memoryId = some l →
      (s.writeDone t).recordTails.get? memoryId = some l := by
    intro memoryId l hne hl
    have herase : ∀ key, s.recordTails.get? key = some t → (s.recordTails.erase key).get? memoryId = some l := by
      intro key hkey
      rw [OrderedMap.get?_erase, if_neg, hl]
      rintro rfl
      rw [hl] at hkey
      exact hne (Option.some.inj hkey)
    unfold DurableMirrorStore.writeDone
    split
    · split_ifs with hkey
      · exact herase _ hkey
      · exact hl
    · split_ifs with hkey
      · exact herase _ hkey
      · exact hl
    · exact hl
  refine ⟨h.chain, fun memoryId x hx hw => ?_, h.restored, fun x hx hw => ?_, fun x hx => ?_, h.opened, h.awaited⟩
  · obtain ⟨l, hl, htail, hle, hlw⟩ := h.tails memoryId x hx hw
    exact ⟨l, hl, htails memoryId l (fun hlt => hgone (hlt ▸ hl)) htail, hle, hlw⟩
  · exact OrderedSet.mem_erase.mpr ⟨fun hxt => hgone (hxt ▸ hx), h.pending x hx hw⟩
  · exact h.reacting x (List.mem_of_mem_erase hx)

/-! ## `enqueue` -/

/-- The tasks after `enqueue`: the new one beside the old ones, some of them started. -/
structure Extended (action : TaskAction) (dependencies : List Nat) (s s' : DurableMirrorStore) :
    Prop where
  settledPuts : s'.settledPuts = s.settledPuts
  created : s'.created = s.created + 1
  tasks : ∀ x, x ∈ s'.tasks ↔ x = s.created ∨ x ∈ s.tasks
  batch : ∀ x, x ≠ s.created → s'.batch x = s.batch x
  action_new : (s'.task s.created).action = action
  action : ∀ x, x ≠ s.created → (s'.task x).action = (s.task x).action
  settled_new : (s'.task s.created).settled = false
  settled : ∀ x, x ≠ s.created → (s'.task x).settled = (s.task x).settled
  waits : ∀ d, d ∈ (s'.task s.created).dependencies ↔ d ∈ dependencies ∧ d ∈ s.tasks
  dependencies : ∀ x, x ≠ s.created → (s'.task x).dependencies = (s.task x).dependencies
  started : ∀ x, (s'.task x).started = true → (x ≠ s.created ∧ (s.task x).started = true) ∨
    (x ∈ s'.tasks ∧ ∀ d, d ∉ (s'.task x).dependencies)
  keeps_started : ∀ x, x ≠ s.created → (s.task x).started = true → (s'.task x).started = true
  phase_new : (s'.task s.created).phase = .queued ∨ (s'.task s.created).phase = .scheduled
  phase : ∀ x ∈ s.tasks, (s'.task x).phase = (s.task x).phase ∨
    ((s'.task x).phase = .scheduled ∧ (s.task x).phase = .queued)

theorem Added.extended {action : TaskAction} {dependencies : List Nat} (hg : s.TaskGraph)
    (h : Added action dependencies s s₃) (hg3 : s₃.TaskGraph) (hst : Started s₃ s') :
    Extended action dependencies s s' := by
  obtain ⟨hframe, hold, ⟨hact, hstart, hset, hph⟩, hwaits⟩ := h
  have hkept := hst.kept
  have hnew : ∀ x ∈ s.tasks, x ≠ s.created := by
    rintro x hx rfl
    exact Nat.lt_irrefl _ ((hg.live _).mp hx).1
  have htasks : ∀ x, x ∈ s₃.tasks ↔ x = s.created ∨ x ∈ s.tasks := by
    intro x
    rw [hframe]
    exact OrderedSet.mem_add
  have hphase : ∀ x ∈ s'.tasks, (s'.task x).phase = (s₃.task x).phase ∨
      ((s'.task x).phase = .scheduled ∧ (s₃.task x).phase = .queued) :=
    fun x hx => hkept.phase_queued hg3 (fun y _ => hst.phase y) hx
  refine ⟨?_, ?_, fun x => ?_, fun x _ => ?_, ?_, fun x hx => ?_, ?_, fun x hx => ?_, fun d => ?_,
    fun x hx => ?_, fun x hx => ?_, fun x hx hxs => ?_, ?_, fun x hx => ?_⟩
  · rw [hst.settledPuts, hframe]
  · rw [hkept.created, hframe]
  · rw [hst.tasks, htasks]
  · rw [hkept.batch, hframe]
  · rw [hkept.action, hact]
  · rw [hkept.action, (hold x hx).1]
  · rw [hst.settled, hset]
  · rw [hst.settled, (hold x hx).2.2.1]
  · rw [hst.dependencies, hwaits]
  · rw [hst.dependencies, (hold x hx).2.2.2.2]
  · rcases hst.started x hx with hx | ⟨hx, hfree⟩
    · refine .inl ⟨?_, ?_⟩
      · rintro rfl
        rw [hstart] at hx
        cases hx
      · by_cases hxc : x = s.created
        · rw [hxc, hstart] at hx
          cases hx
        · rwa [(hold x hxc).2.1] at hx
    · rw [hst.tasks, hst.dependencies]
      exact .inr ⟨hx, hfree⟩
  · refine hkept.started x ?_
    rw [(hold x hx).2.1]
    exact hxs
  · rcases hphase s.created (by rw [hst.tasks, htasks]; exact .inl rfl) with heq | ⟨heq, -⟩
    · exact .inl (heq.trans hph)
    · exact .inr heq
  · have hlive : x ∈ s'.tasks := by
      rw [hst.tasks, htasks]
      exact .inr hx
    rw [← (hold x (hnew x hx)).2.2.2.1]
    exact hphase x hlive

theorem Extended.ordered {action : TaskAction} {dependencies : List Nat} (hg : s.TaskGraph)
    (hty : s.Typed)
    (h : s.Ordered) (hext : Extended action dependencies s s')
    (hchain : ∀ t ∈ s.tasks, (s.task t).action.Conflicts action → ∃ d ∈ dependencies, d ∈ s.tasks ∧ (t = d ∨
        (t < d ∧ (s.task t).action.Conflicts (s.task d).action)))
    (htails : ∀ memoryId, (action.writes memoryId ∧ s'.recordTails.get? memoryId = some s.created) ∨
      (¬ action.writes memoryId ∧ s'.recordTails.get? memoryId = s.recordTails.get? memoryId))
    (hrestored : s'.restoreTask = some s.created ∨ (¬ action.isRestore ∧ s'.restoreTask = s.restoreTask))
    (hputs : ∀ t, t ∈ s.pendingPuts ∨ (t = s.created ∧ action.writesRecord = true) → t ∈ s'.pendingPuts)
    (hopened : ∀ b, s'.eventBatch = some b → s.eventBatch = some b ∨ b = s.created) :
    s'.Ordered := by
  have hlt : ∀ x ∈ s.tasks, x < s.created := fun x hx => ((hg.live x).mp hx).1
  have hne : ∀ x ∈ s.tasks, x ≠ s.created := fun x hx => Nat.ne_of_lt (hlt x hx)
  have hmem : s.created ∈ s'.tasks := (hext.tasks _).mpr (Or.inl rfl)
  have hold : ∀ x ∈ s.tasks, x ∈ s'.tasks := fun x hx => (hext.tasks x).mpr (Or.inr hx)
  refine ⟨?_, ?_, ?_, ?_, ?_, ?_, ?_⟩
  · intro x hx x' hx' hxlt hconflict
    rcases (hext.tasks x').mp hx' with rfl | hx'
    · have hx := ((hext.tasks x).mp hx).resolve_left (Nat.ne_of_lt hxlt)
      rw [hext.action_new, hext.action x (hne x hx)] at hconflict
      obtain ⟨d, hd, hdlive, hcase⟩ := hchain x hx hconflict
      refine ⟨d, (hext.waits d).mpr ⟨hd, hdlive⟩, ?_⟩
      rwa [hext.action x (hne x hx), hext.action d (hne d hdlive)]
    · have hx := ((hext.tasks x).mp hx).resolve_left (Nat.ne_of_lt (hxlt.trans (hlt x' hx')))
      rw [hext.action x (hne x hx), hext.action x' (hne x' hx')] at hconflict
      obtain ⟨d, hd, hcase⟩ := h.chain x hx x' hx' hxlt hconflict
      refine ⟨d, by rwa [hext.dependencies x' (hne x' hx')], ?_⟩
      rwa [hext.action x (hne x hx), hext.action d (hne d (hg.depends x' hx' d hd).1)]
  · intro memoryId x hx hw
    rcases htails memoryId with ⟨hnew, htail⟩ | ⟨hother, htail⟩
    · refine ⟨s.created, hmem, htail, ?_, by rwa [hext.action_new]⟩
      rcases (hext.tasks x).mp hx with rfl | hx
      · exact le_rfl
      · exact Nat.le_of_lt (hlt x hx)
    · rcases (hext.tasks x).mp hx with rfl | hx
      · rw [hext.action_new] at hw
        exact absurd hw hother
      · rw [hext.action x (hne x hx)] at hw
        obtain ⟨l, hl, hltail, hle, hlw⟩ := h.tails memoryId x hx hw
        exact ⟨l, hold l hl, htail.trans hltail, hle, by rwa [hext.action l (hne l hl)]⟩
  · intro x hx hr
    rcases hrestored with hrestore | ⟨hother, hrestore⟩
    · refine ⟨s.created, hmem, hrestore, ?_⟩
      rcases (hext.tasks x).mp hx with rfl | hx
      · exact le_rfl
      · exact Nat.le_of_lt (hlt x hx)
    · rcases (hext.tasks x).mp hx with rfl | hx
      · rw [hext.action_new] at hr
        exact absurd hr hother
      · rw [hext.action x (hne x hx)] at hr
        obtain ⟨r, hrlive, hrtask, hle⟩ := h.restored x hx hr
        exact ⟨r, hold r hrlive, hrestore.trans hrtask, hle⟩
  · intro x hx hw
    refine hputs x ?_
    rcases (hext.tasks x).mp hx with rfl | hx
    · rw [hext.action_new] at hw
      exact .inr ⟨rfl, hw⟩
    · rw [hext.action x (hne x hx)] at hw
      exact .inl (h.pending x hx hw)
  · intro x hx
    rw [hext.settledPuts] at hx
    obtain ⟨hxlt, hgone⟩ := h.reacting x hx
    rw [hext.created, hext.tasks]
    refine ⟨Nat.lt_succ_of_lt hxlt, ?_⟩
    rintro (rfl | hlive)
    · exact Nat.lt_irrefl _ hxlt
    · exact hgone hlive
  · intro b hb
    rcases hopened b hb with hb | rfl
    · obtain ⟨hlive, hopens⟩ := h.opened b hb
      refine ⟨hold b hlive, ?_⟩
      rcases hext.phase b hlive with heq | ⟨heq, -⟩
      · rwa [heq]
      · rw [heq]
        trivial
    · refine ⟨hmem, ?_⟩
      rcases hext.phase_new with heq | heq
      · rw [heq]
        trivial
      · rw [heq]
        trivial
  · intro x hx l hl d hd
    rcases (hext.tasks x).mp hx with rfl | hx
    · rcases hext.phase_new with heq | heq
      · rw [heq] at hl
        cases hl
      · rw [heq] at hl
        cases hl
    · rcases hext.phase x hx with heq | ⟨heq, -⟩
      · rw [heq] at hl
        rw [hext.batch x (hne x hx)] at hd
        have haction := (hty.awaiting x hx l hl).1
        have hdlt := (hty.batches x (hlt x hx) haction d hd).1
        rw [hext.settled d (Nat.ne_of_lt hdlt)]
        exact h.awaited x hx l hl d hd
      · rw [heq] at hl
        cases hl

end DurableMirrorStore

end Premise.DurableMirror
