import Premise.DurableMirror.Proofs.TrackProofs

/-!
# Proofs: every step keeps track of the writes
-/

namespace Premise.DurableMirror

open Collections Control Js

namespace DurableMirrorStore

variable {s s' s'' : DurableMirrorStore} {t : Nat}

/-! ## Tasks that are created, started and settled -/

/-- At most one task was created, ready tasks were started, and without a failure only a task whose
action had returned was settled. -/
structure Moves (s s' : DurableMirrorStore) : Prop where
  created : s.created ≤ s'.created
  action : ∀ x, x < s.created → (s'.task x).action = (s.task x).action
  batch : ∀ x, x < s.created → s'.batch x = s.batch x
  started_mono : ∀ x, x < s.created → (s.task x).started = true → (s'.task x).started = true
  started : ∀ x, x < s'.created → (s'.task x).started = true →
    (x < s.created ∧ (s.task x).started = true) ∨ (s'.failure = none ∧
      ∀ y, y < x → (s'.task y).action.Conflicts (s'.task x).action →
        y < s.created ∧ (s'.task y).settled = true)
  settled_mono : ∀ x, x < s.created → (s.task x).settled = true → (s'.task x).settled = true
  settled : s'.failure = none → s.failure = none ∧
    ∀ x, x < s'.created → (s'.task x).settled = true → x < s.created ∧
      ((s.task x).settled = true ∨ (x ∈ s.tasks ∧ (s.task x).phase = .returned none))
  tasks : ∀ x ∈ s'.tasks, x < s.created → x ∈ s.tasks
  phase_new : ∀ x ∈ s'.tasks, s.created ≤ x →
    (s'.task x).phase = .queued ∨ (s'.task x).phase = .scheduled
  phase : ∀ x ∈ s'.tasks, x < s.created → (s'.task x).phase = (s.task x).phase ∨
    ((s'.task x).phase = .scheduled ∧ (s.task x).phase = .queued)

theorem Cancelled.moves (hg : s.TaskGraph) (h : Cancelled s s') (hfail : s.failure ≠ none) :
    Moves s s' where
  created := h.kept.created.ge
  action := fun x _ => h.kept.action x
  batch := fun x _ => congrFun h.kept.batch x
  started_mono := fun x _ hx => h.kept.started x hx
  started := by
    intro x hx hst
    rw [h.started] at hst
    exact .inl ⟨h.kept.created ▸ hx, hst⟩
  settled_mono := fun x _ hx => h.settled x hx
  settled := fun hf => absurd (h.kept.failure.symm.trans hf) hfail
  tasks := fun x hx _ => h.kept.tasks_sub x hx
  phase_new := by
    intro x hx hle
    have hlt := ((hg.live x).mp (h.kept.tasks_sub x hx)).1
    exact absurd hle (Nat.not_le.mpr hlt)
  phase := fun x hx _ => Or.inl (h.phase x hx)

theorem TaskGraph.settled_of_not_mem (hg : s.TaskGraph) (hlt : t < s.created) (h : t ∉ s.tasks) :
    (s.task t).settled = true := by
  by_contra hset
  exact h ((hg.live t).mpr ⟨hlt, by simpa using hset⟩)

theorem Extended.moves {action : TaskAction} {dependencies : List Nat} (hg : s.TaskGraph)
    (h : Extended action dependencies s s') (ho : s'.Ordered) (hfail : s.failure = none)
    (hfail' : s'.failure = none) :
    Moves s s' := by
  have hne : ∀ x, x < s.created → x ≠ s.created := fun x hx => Nat.ne_of_lt hx
  refine ⟨?_, fun x hx => h.action x (hne x hx), fun x hx => h.batch x (hne x hx),
    fun x hx => h.keeps_started x (hne x hx), fun x hx hst => ?_, fun x hx hset => ?_,
    fun _ => ⟨hfail, fun x hx hset => ?_⟩, fun x hx hlt => ?_, fun x hx hle => ?_, fun x hx hlt => ?_⟩
  · rw [h.created]
    exact Nat.le_succ _
  · rw [h.created] at hx
    rcases h.started x hst with ⟨hxne, hst⟩ | ⟨hlive, hfree⟩
    · exact .inl ⟨by omega, hst⟩
    · refine .inr ⟨hfail', fun y hy hconflict => ?_⟩
      have hylt : y < s.created := by omega
      refine ⟨hylt, ?_⟩
      have hgone : y ∉ s'.tasks := fun hylive => ho.first hlive hfree hylive hy hconflict
      rw [h.settled y (hne y hylt)]
      exact hg.settled_of_not_mem hylt fun hylive => hgone ((h.tasks y).mpr (Or.inr hylive))
  · rw [h.settled x (hne x hx)]
    exact hset
  · rw [h.created] at hx
    by_cases hxc : x = s.created
    · rw [hxc, h.settled_new] at hset
      cases hset
    · rw [h.settled x hxc] at hset
      exact ⟨by omega, Or.inl hset⟩
  · exact ((h.tasks x).mp hx).resolve_left (hne x hlt)
  · rcases (h.tasks x).mp hx with rfl | hx
    · exact h.phase_new
    · have hlt := ((hg.live x).mp hx).1
      exact absurd hle (Nat.not_le.mpr hlt)
  · exact h.phase x (((h.tasks x).mp hx).resolve_left (hne x hlt))

theorem settle_moves (hs : s.Sound) (ho : s.failure = none → s.Ordered) (ht : t ∈ s.tasks)
    (hphase : (s.task t).phase = .returned none) : Moves s (s.settle t none) := by
  by_cases hfail : s.failure = none
  · have hstarted := hs.started_of_phase ht (by rw [hphase]; nofun)
    obtain ⟨hrun, hcov, -⟩ := hs.running hfail
    have hunsettled := ((hs.graph.live t).mp ht).2
    have hrel := release_spec (t := t) hs.graph none
    obtain ⟨hrun', -⟩ := hrun.released hs.graph hs.typed ht hstarted hcov hrel
    have hgraph := hs.graph.released hrel
    have hordered := (ho hfail).released hs.graph ht hstarted (by rw [hphase]; exact id) hrel
      (fun x hx => release_settledPuts s t none hx)
    have hst := pump_started hgraph hrun' (hrel.kept.failure.trans hfail)
    have hfail' := hst.kept.failure.trans (hrel.kept.failure.trans hfail)
    have hcreated := hst.kept.created.trans hrel.kept.created
    have hsettle : s.settle t none = (s.release t none).pump := by
      unfold settle
      rw [if_neg (by simp [hunsettled])]
    rw [hsettle]
    generalize s.release t none = s1 at *
    have htasks : ∀ x, x ∈ s1.tasks ↔ x ≠ t ∧ x ∈ s.tasks := by
      intro x
      rw [hrel.frame]
      exact OrderedSet.mem_erase
    refine ⟨hcreated.ge, fun x _ => ?_, fun x _ => ?_, fun x _ hx => ?_, fun x hx hxst => ?_,
      fun x _ hx => ?_, fun _ => ⟨hfail, fun x hx hset => ?_⟩, fun x hx _ => ?_, fun x hx hle => ?_,
      fun x hx _ => ?_⟩
    · rw [hst.kept.action, hrel.action]
    · rw [hst.kept.batch, hrel.kept.batch]
    · exact hst.kept.started x (hrel.kept.started x hx)
    · rcases hst.started x hxst with hxst | ⟨hlive, hfree⟩
      · rw [hrel.started] at hxst
        exact .inl ⟨hcreated ▸ hx, hxst⟩
      · refine .inr ⟨hfail', fun y hy hconflict => ?_⟩
        rw [hcreated] at hx
        have hylt : y < s.created := hy.trans hx
        refine ⟨hylt, ?_⟩
        rw [hst.kept.action, hst.kept.action] at hconflict
        rw [hst.settled]
        exact hgraph.settled_of_not_mem (by rw [hrel.kept.created]; exact hylt)
          (fun hylive => hordered.first hlive hfree hylive hy hconflict)
    · rw [hst.settled]
      exact hrel.cancelled.settled x hx
    · rw [hst.settled, hrel.settled] at hset
      rw [hcreated] at hx
      refine ⟨hx, ?_⟩
      split_ifs at hset with hxt
      · exact .inr (hxt ▸ ⟨ht, hphase⟩)
      · exact .inl hset
    · exact ((htasks x).mp (hst.kept.tasks_sub x hx)).2
    · have hlt := ((hs.graph.live x).mp ((htasks x).mp (hst.kept.tasks_sub x hx)).2).1
      exact absurd hle (Nat.not_le.mpr hlt)
    · rw [← hrel.phase x ((htasks x).mp (hst.kept.tasks_sub x hx)).1]
      exact hst.kept.phase_queued hgraph (fun y _ => hst.phase y) hx
  · exact (settle_cancelled hs.graph hfail none).moves hs.graph hfail

end DurableMirrorStore

namespace Watched

open DurableMirrorStore

variable {w : Watched} {t : Nat}

theorem Tracked.moves {s : DurableMirrorStore} (h : w.Tracked) (hm : Moves w.store s)
    (hsound : s.Sound) (hordered : s.failure = none → s.Ordered) (new : List Effect)
    (hnew : (s.created = w.store.created ∧ new = []) ∨
      (s.created = w.store.created + 1 ∧ new = s.effects w.store.created ∧ new.Nodup)) :
    Tracked { w with
      store := s
      accepted := w.accepted ++ new.map (Write.mk w.store.created) } := by
  have heffects : ∀ x, x < w.store.created → s.effects x = w.store.effects x :=
    fun x hx => effects_congr (hm.action x hx) (hm.batch x hx)
  have hcreated : ∀ x, x < s.created → x < w.store.created ∨
      (x = w.store.created ∧ s.created = w.store.created + 1 ∧ new = s.effects x ∧ new.Nodup) := by
    intro x hx
    rcases hnew with ⟨heq, -⟩ | ⟨heq, heffect, hnodup⟩
    · exact .inl (heq ▸ hx)
    · rcases Nat.lt_or_ge x w.store.created with hlt | hge
      · exact .inl hlt
      · obtain rfl : x = w.store.created := by omega
        exact .inr ⟨rfl, heq, heffect, hnodup⟩
  generalize hw' : ({ w with
    store := s
    accepted := w.accepted ++ new.map (Write.mk w.store.created) } : Watched) = w'
  have hstore : w'.store = s := by rw [← hw']
  have haccepted : w'.accepted = w.accepted ++ new.map (Write.mk w.store.created) := by rw [← hw']
  have hreached : w'.reached = w.reached := by rw [← hw']
  have happlied : w'.applied = w.applied := by rw [← hw']
  have hby : ∀ x, w'.reachedBy x = w.reachedBy x := fun x => by rw [← hw']; rfl
  have hcomplete : ∀ x, x < w.store.created → w.Complete x → w'.Complete x := by
    intro x hlt hx
    unfold Complete
    rw [hby, hstore, heffects x hlt]
    exact hx
  have hreachednew : ∀ x, w.store.created ≤ x → w.reachedBy x = [] :=
    fun x hx => (h.waiting x (Or.inl hx)).1
  refine ⟨hstore ▸ hsound, hstore ▸ hordered, ?_, ?_, ?_, ?_, ?_, ?_, ?_, ?_, ?_, ?_, ?_, ?_, ?_⟩
  · intro x hx
    rw [hstore]
    rw [haccepted] at hx
    rcases List.mem_append.mp hx with hx | hx
    · exact (h.accepted_lt x hx).trans_le hm.created
    · obtain ⟨effect, heffect, rfl⟩ := List.mem_map.mp hx
      rcases hnew with ⟨-, rfl⟩ | ⟨heq, -⟩
      · cases heffect
      · show w.store.created < s.created
        omega
  · intro x hx
    rw [hstore] at hx ⊢
    unfold acceptedBy
    rw [haccepted, List.filter_append, List.map_append]
    rcases hcreated x hx with hlt | ⟨rfl, -, heffect, -⟩
    · have hnone : (new.map (Write.mk w.store.created)).filter (fun y => decide (y.task = x))
          = [] := by
        rw [List.filter_eq_nil_iff]
        intro y hy
        obtain ⟨effect, -, rfl⟩ := List.mem_map.mp hy
        simpa using Nat.ne_of_gt hlt
      rw [hnone, List.map_nil, List.append_nil, heffects x hlt]
      exact h.accepted x hlt
    · have hnone : w.accepted.filter (fun y => decide (y.task = w.store.created)) = [] := by
        rw [List.filter_eq_nil_iff]
        intro y hy
        simpa using Nat.ne_of_lt (h.accepted_lt y hy)
      have hall : (new.map (Write.mk w.store.created)).filter
          (fun y => decide (y.task = w.store.created)) = new.map (Write.mk w.store.created) := by
        rw [List.filter_eq_self]
        intro y hy
        obtain ⟨effect, -, rfl⟩ := List.mem_map.mp hy
        exact decide_eq_true rfl
      rw [hnone, hall, List.map_nil, List.nil_append, List.map_map, ← heffect]
      exact List.map_id _
  · intro x hx
    rw [hstore] at hx ⊢
    rcases hcreated x hx with hlt | ⟨-, -, heffect, hnodup⟩
    · rw [heffects x hlt]
      exact h.distinct x hlt
    · rw [← heffect]
      exact hnodup
  · intro x hx
    rw [hreached] at hx
    rw [hstore]
    obtain ⟨hlt, hst⟩ := h.reached_started x hx
    exact ⟨hlt.trans_le hm.created, hm.started_mono x.task hlt hst⟩
  · intro x hx
    rw [hstore] at hx
    rw [hby, happlied]
    refine h.waiting x ?_
    rcases hx with hx | ⟨hx, hwaits⟩
    · exact .inl (hm.created.trans hx)
    · rcases Nat.lt_or_ge x w.store.created with hlt | hge
      · refine .inr ⟨hm.tasks x hx hlt, ?_⟩
        rcases hm.phase x hx hlt with heq | ⟨-, heq⟩
        · rwa [← heq]
        · rw [heq]
          trivial
      · exact .inl hge
  · intro x hx call rest hphase
    rw [hstore] at hx hphase ⊢
    rw [hby, happlied]
    rcases Nat.lt_or_ge x w.store.created with hlt | hge
    · rw [heffects x hlt]
      rcases hm.phase x hx hlt with heq | ⟨heq, -⟩
      · exact h.calling x (hm.tasks x hx hlt) call rest (heq.symm.trans hphase)
      · rw [heq] at hphase
        cases hphase
    · rcases hm.phase_new x hx hge with heq | heq
      · rw [heq] at hphase
        cases hphase
      · rw [heq] at hphase
        cases hphase
  · intro x hx hphase
    rw [hstore] at hx hphase
    rcases Nat.lt_or_ge x w.store.created with hlt | hge
    · rcases hm.phase x hx hlt with heq | ⟨heq, -⟩
      · exact hcomplete x hlt (h.returned x (hm.tasks x hx hlt) (heq.symm.trans hphase))
      · rw [heq] at hphase
        cases hphase
    · rcases hm.phase_new x hx hge with heq | heq
      · rw [heq] at hphase
        cases hphase
      · rw [heq] at hphase
        cases hphase
  · intro x x' hlt hx' hconflict hst
    rw [hstore] at hx' hconflict hst ⊢
    rcases hm.started x' hx' hst with ⟨hx', hst⟩ | ⟨hfail, hdone⟩
    · have hx := hlt.trans hx'
      rw [hm.action x hx, hm.action x' hx'] at hconflict
      obtain ⟨hset, hfull⟩ := h.order x x' hlt hx' hconflict hst
      exact ⟨hm.settled_mono x hx hset, hcomplete x hx hfull⟩
    · obtain ⟨hx, hset⟩ := hdone x hlt hconflict
      refine ⟨hset, hcomplete x hx ?_⟩
      obtain ⟨hfail0, hsettled⟩ := hm.settled hfail
      rcases (hsettled x (hx.trans_le hm.created) hset).2 with hset0 | ⟨hlive, hphase⟩
      · exact h.settled hfail0 x hx hset0
      · exact h.returned x hlive hphase
  · intro hfail x hx hset
    rw [hstore] at hfail hx hset
    obtain ⟨hfail0, hsettled⟩ := hm.settled hfail
    obtain ⟨hlt, hcase⟩ := hsettled x hx hset
    refine hcomplete x hlt ?_
    rcases hcase with hset0 | ⟨hlive, hphase⟩
    · exact h.settled hfail0 x hlt hset0
    · exact h.returned x hlive hphase
  · intro x hx call rest hphase haction d hd
    rw [hstore] at hx hphase haction hd
    rcases Nat.lt_or_ge x w.store.created with hlt | hge
    · rw [hm.action x hlt] at haction
      rw [hm.batch x hlt] at hd
      have hdlt := (h.sound.typed.batches x hlt haction d hd).1
      rcases hm.phase x hx hlt with heq | ⟨heq, -⟩
      · exact hcomplete d hdlt (h.batch x (hm.tasks x hx hlt) call rest (heq.symm.trans hphase) haction d hd)
      · rw [heq] at hphase
        cases hphase
    · rcases hm.phase_new x hx hge with heq | heq
      · rw [heq] at hphase
        cases hphase
      · rw [heq] at hphase
        cases hphase
  · intro p hp
    rw [haccepted, List.filter_append]
    refine List.pairwise_append.mpr ⟨h.sorted p hp, ?_, fun x hx y hy => ?_⟩
    · refine List.Pairwise.filter _ (List.pairwise_map.mpr ?_)
      exact List.pairwise_of_forall fun _ _ => le_rfl
    · have hxlt := h.accepted_lt x (List.mem_filter.mp hx).1
      obtain ⟨effect, -, rfl⟩ := List.mem_map.mp (List.mem_filter.mp hy).1
      exact Nat.le_of_lt hxlt
  · intro p hp
    rw [haccepted, hreached, List.filter_append]
    exact (h.reached p hp).trans (List.prefix_append _ _)
  · intro x y hxy
    have hxy : (x, y) ∈ w.awaited := by
      rw [← hw'] at hxy
      exact hxy
    obtain ⟨hx, hylt, hya, hdep, hbefore⟩ := h.awaited x y hxy
    rw [hstore, haccepted, hreached, hm.action y.task hylt, hm.batch y.task hylt]
    exact ⟨List.mem_append_left _ hx, hylt.trans_le hm.created, hya, hdep, hbefore⟩

/-! ## The jobs -/

theorem Tracked.runAction (h : w.Tracked) (ht : t ∈ w.store.tasks)
    (hphase : (w.store.task t).phase = .scheduled) :
    Tracked { w with store := w.store.runAction t } := by
  have hstarted := h.started ht (by rw [hphase]; nofun)
  have hsound := h.sound.runAction hstarted
  have hordered := fun hf => (h.ordered hf).runAction (t := t) h.sound.typed
  obtain ⟨hnone, hzero⟩ := h.waiting t (Or.inr ⟨ht, by rw [hphase]; trivial⟩)
  have hissue : ∀ calls : List PersistentCall, w.store.runAction t = w.store.issue t calls →
      calls.flatMap PersistentCall.effects = w.store.effects t →
      (w.store.task t).action ≠ .flushEventBatch →
      Tracked { w with store := w.store.runAction t } := by
    intro calls heq heffects hne
    rw [heq] at hsound hordered ⊢
    refine h.issue ht hsound hordered rfl rfl rfl rfl rfl (fun _ _ => rfl) hzero ?_
      (fun haction => absurd haction hne)
    rw [hnone, heffects]
    rfl
  cases haction : (w.store.task t).action with
  | put record =>
    refine hissue [.put record] (by unfold DurableMirrorStore.runAction; rw [haction]) ?_
      (by rw [haction]; nofun)
    unfold effects
    rw [haction]
    rfl
  | putAndAppend record event =>
    by_cases hcombined : w.store.persistent.putAndAppend = true
    · refine hissue [.putAndAppend record event]
        (by unfold DurableMirrorStore.runAction; rw [haction]; exact if_pos hcombined) ?_
        (by rw [haction]; nofun)
      unfold effects
      rw [haction]
      rfl
    · refine hissue [.put record, .appendEvent event]
        (by unfold DurableMirrorStore.runAction; rw [haction]; exact if_neg hcombined) ?_
        (by rw [haction]; nofun)
      unfold effects
      rw [haction]
      rfl
  | flushEventBatch =>
    have heq : w.store.runAction t = w.store.setPhase t .immediate := by
      unfold DurableMirrorStore.runAction
      rw [haction]
    rw [heq] at hsound hordered ⊢
    exact h.rephase _ ht hsound hordered rfl rfl rfl rfl (setPhase_task w.store t .immediate)
      (fun _ _ => rfl) (fun _ => ⟨hnone, hzero⟩) nofun nofun
  | restore snapshot =>
    refine hissue [.restore snapshot] (by unfold DurableMirrorStore.runAction; rw [haction]) ?_
      (by rw [haction]; nofun)
    unfold effects
    rw [haction]
    rfl

theorem Tracked.fireImmediate (h : w.Tracked) (ht : t ∈ w.store.tasks)
    (hphase : (w.store.task t).phase = .immediate) :
    Tracked { w with store := w.store.fireImmediate t } := by
  have hsound := h.sound.fireImmediate ht hphase
  have hordered := fun hf => (h.ordered hf).fireImmediate (t := t)
  have hwaits := h.waiting t (Or.inr ⟨ht, by rw [hphase]; trivial⟩)
  exact h.rephase _ ht hsound hordered rfl rfl rfl rfl (setPhase_task _ t _) (fun _ _ => rfl)
    (fun _ => hwaits) nofun nofun

theorem batchCalls_effects (s : DurableMirrorStore) (haction : (s.task t).action = .flushEventBatch) :
    (s.batchCalls t).flatMap PersistentCall.effects = s.effects t := by
  unfold batchCalls effects
  rw [haction]
  split_ifs
  · exact List.append_nil _
  · rw [List.flatMap_map]
    exact (List.map_eq_flatMap ..).symm

theorem Tracked.dependenciesSettled {dependencies : List Nat} (h : w.Tracked)
    (ht : t ∈ w.store.tasks) (hphase : (w.store.task t).phase = .awaiting dependencies)
    (hsettled : ∀ d ∈ dependencies, (w.store.task d).settled = true) :
    Tracked { w with store := w.store.dependenciesSettled t } := by
  have hstarted := h.started ht (by rw [hphase]; nofun)
  have hsound := h.sound.dependenciesSettled hstarted
  obtain ⟨hnone, hzero⟩ := h.waiting t (Or.inr ⟨ht, by rw [hphase]; trivial⟩)
  obtain ⟨haction, -⟩ := h.sound.typed.awaiting t ht dependencies hphase
  cases hfail : w.store.failure with
  | none =>
    have hordered := h.ordered hfail
    have heq : w.store.dependenciesSettled t = w.store.issue t (w.store.batchCalls t) := by
      unfold DurableMirrorStore.dependenciesSettled
      rw [hfail]
    rw [heq] at hsound ⊢
    refine h.issue ht hsound (fun _ => hordered.issue (hordered.not_open (by rw [hphase]; exact id)) _)
      rfl rfl rfl rfl rfl (fun _ _ => rfl) hzero ?_ (fun _ d hd => ?_)
    · rw [hnone, batchCalls_effects w.store haction]
      rfl
    · have hdlt := (h.sound.typed.batches t ((h.sound.graph.live t).mp ht).1 haction d hd).1
      refine h.settled hfail d hdlt ?_
      exact (hordered.awaited t ht dependencies hphase d hd).elim (hsettled d) id
  | some failure =>
    have heq : w.store.dependenciesSettled t = w.store.setPhase t (.returned (some failure)) := by
      unfold DurableMirrorStore.dependenciesSettled
      rw [hfail]
    rw [heq] at hsound ⊢
    exact h.rephase _ ht hsound (fun hf => absurd (hfail.symm.trans hf) nofun) rfl rfl rfl rfl
      (setPhase_task _ t _) (fun _ _ => rfl) nofun nofun nofun

theorem Tracked.resolves {call : PersistentCall} {rest : List PersistentCall} (h : w.Tracked)
    (ht : t ∈ w.store.tasks) (hphase : (w.store.task t).phase = .calling call rest)
    (happlied : w.applied t = call.effects.length) :
    Tracked { w with
      store := w.store.callSettles t rest (.ok ())
      applied := Function.update w.applied t 0 } := by
  have hstarted := h.started ht (by rw [hphase]; nofun)
  have hclosed := fun hf => (h.ordered hf).not_open (t := t) (by rw [hphase]; exact id)
  refine h.issue ht (h.sound.callSettles hstarted rest (.ok ()))
    (fun hf => (h.ordered hf).issue (hclosed hf) rest) rfl rfl rfl rfl rfl
    (fun x hx => Function.update_of_ne hx _ _) (Function.update_self _ _ _) ?_
    (h.batch t ht call rest hphase)
  have hcalling := h.calling t ht call rest hphase
  rw [happlied, List.drop_length, List.nil_append] at hcalling
  exact hcalling

theorem Tracked.rejects {call : PersistentCall} {rest : List PersistentCall}
    {err : Option JsError} (h : w.Tracked) (ht : t ∈ w.store.tasks)
    (hphase : (w.store.task t).phase = .calling call rest) :
    Tracked { w with store := w.store.callSettles t rest (.error err) } := by
  have hstarted := h.started ht (by rw [hphase]; nofun)
  have hclosed := fun hf => (h.ordered hf).not_open (t := t) (by rw [hphase]; exact id)
  exact h.rephase _ ht (h.sound.callSettles hstarted rest (.error err))
    (fun hf => (h.ordered hf).setPhase (fun hopen => absurd hopen (hclosed hf)) nofun) rfl rfl rfl rfl
    (setPhase_task _ t _) (fun _ _ => rfl) nofun nofun nofun

theorem Tracked.moves_nil {s : DurableMirrorStore} (h : w.Tracked) (hm : Moves w.store s)
    (hsound : s.Sound) (hordered : s.failure = none → s.Ordered)
    (hcreated : s.created = w.store.created) : Tracked { w with store := s } := by
  have htracked := h.moves hm hsound hordered [] (Or.inl ⟨hcreated, rfl⟩)
  rwa [List.map_nil, List.append_nil] at htracked

theorem Tracked.actionReturned {error : Option JsError} (h : w.Tracked) (ht : t ∈ w.store.tasks)
    (hphase : (w.store.task t).phase = .returned error) :
    Tracked { w with store := w.store.actionReturned t error } := by
  have hstarted := h.started ht (by rw [hphase]; nofun)
  have hsound := h.sound.actionReturned ht hstarted error
  cases error with
  | none =>
    obtain ⟨-, hkept, -⟩ := settle_kept (t := t) h.sound.graph none
    refine h.moves_nil (settle_moves h.sound h.ordered ht hphase) hsound (fun hf => ?_) hkept.created
    have hfail := hkept.failure.symm.trans hf
    exact (h.ordered hfail).settle h.sound hfail ht hstarted (by rw [hphase]; exact id)
  | some failure =>
    -- from the first failure on nothing is started
    generalize hs0 : ({ w.store with
      failure := w.store.failure.or (some failure) } : DurableMirrorStore) = s0
    have hfail : s0.failure ≠ none := by
      rw [← hs0]
      cases w.store.failure with
      | none | some => nofun
    have hgraph : s0.TaskGraph := by
      obtain ⟨h1, h2, h3, h4, h5, h6, h7, h8⟩ := h.sound.graph
      rw [← hs0]
      exact ⟨h1, h2, h3, h4, h5, h6, h7, h8⟩
    obtain ⟨hgraph1, hkept1, -⟩ := settle_kept (t := t) hgraph (some failure)
    have hcancelled := (settle_cancelled (t := t) hgraph hfail (some failure)).trans
      (cancelQueued_cancelled hgraph1 (by rw [hkept1.failure]; exact hfail) s0.failure)
    have heq : w.store.actionReturned t (some failure) = (s0.settle t (some failure)).cancelQueued s0.failure := by
      have hf := hkept1.failure
      rw [DurableMirrorStore.actionReturned, hs0, hf]
    rw [heq] at hsound ⊢
    have hmoves := hcancelled.moves hgraph hfail
    have hfailed := hcancelled.kept.failure
    have hcreated := hcancelled.kept.created
    generalize (s0.settle t (some failure)).cancelQueued s0.failure = s at *
    have hnone : s.failure ≠ none := by
      rw [hfailed]
      exact hfail
    refine h.moves_nil ?_ hsound (fun hf => absurd hf hnone) (by rw [hcreated, ← hs0])
    obtain ⟨h1, h2, h3, h4, h5, h6, h7, h8, h9, h10⟩ := hmoves
    rw [← hs0] at h1 h2 h3 h4 h5 h6 h8 h9 h10
    exact ⟨h1, h2, h3, h4, h5, h6, fun hf => absurd hf hnone, h8, h9, h10⟩

theorem Moves.of_tasks {s s' : DurableMirrorStore} (hg : s.TaskGraph) (htasks : s'.tasks = s.tasks)
    (htask : s'.task = s.task) (hbatch : s'.batch = s.batch) (hcreated : s'.created = s.created)
    (hfailure : s'.failure = s.failure) : Moves s s' := by
  refine ⟨hcreated.ge, fun x _ => by rw [htask], fun x _ => by rw [hbatch],
    fun x _ hx => by rwa [htask], fun x hx hst => Or.inl ⟨hcreated ▸ hx, by rwa [← htask]⟩,
    fun x _ hx => by rwa [htask],
    fun hf => ⟨hfailure.symm.trans hf, fun x hx hset => ⟨hcreated ▸ hx, Or.inl (by rwa [← htask])⟩⟩,
    fun x hx _ => htasks ▸ hx, fun x hx hle => ?_, fun x _ _ => Or.inl (by rw [htask])⟩
  have hlt := ((hg.live x).mp (htasks ▸ hx)).1
  exact absurd hle (Nat.not_le.mpr hlt)

theorem Tracked.writeDone (h : w.Tracked) (ht : t ∈ w.store.settledPuts) :
    Tracked { w with store := w.store.writeDone t } :=
  h.moves_nil (Moves.of_tasks h.sound.graph rfl rfl rfl rfl rfl) (h.sound.writeDone t)
    (fun hf => (h.ordered hf).writeDone ht) rfl

theorem Tracked.job {job : MirrorStep} {s : DurableMirrorStore} (h : w.Tracked)
    (hstep : JobStep w.store job s) (hjob : ∀ t outcome, job ≠ .callSettles t outcome) :
    Tracked { w with store := s } := by
  cases hstep with
  | runAction ht hphase => exact h.runAction ht hphase
  | fireImmediate ht hphase => exact h.fireImmediate ht hphase
  | dependenciesSettled ht hphase hsettled => exact h.dependenciesSettled ht hphase hsettled
  | callSettles ht hphase => exact absurd rfl (hjob _ _)
  | actionReturned ht hphase => exact h.actionReturned ht hphase
  | writeDone ht => exact h.writeDone ht

end Watched

end Premise.DurableMirror
