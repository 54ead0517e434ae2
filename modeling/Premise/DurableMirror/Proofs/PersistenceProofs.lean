import Premise.DurableMirror.Proofs.WatchProofs

/-!
# Proofs: the writes reach the persistent store in order
-/

namespace Premise.DurableMirror

open Collections Control Js

variable {record : MirrorRecord} {event : MirrorEvent} {err : JsError}

namespace DurableMirrorStore

variable {s s' : DurableMirrorStore} {t b : Nat}

theorem joinBatch_batch_ne (s : DurableMirrorStore) (event : MirrorEvent) {x : Nat} (hx : x ≠ b) :
    (s.joinBatch b event).batch x = s.batch x := Function.update_of_ne hx _ _

theorem joinBatch_batch_self (s : DurableMirrorStore) (b : Nat) (event : MirrorEvent) :
    (s.joinBatch b event).batch b = ⟨(s.batch b).events ++ [event],
      ((s.batch b).dependencies.addAll s.pendingPuts.elems).addAll s.restoreTask.toList⟩ :=
  Function.update_self _ _ _

theorem joinBatch_opened (s : DurableMirrorStore) (b : Nat) (event : MirrorEvent) {x : Nat}
    (hx : (s.joinBatch b event).eventBatch = some x) : s.eventBatch = some x := by
  unfold joinBatch at hx
  dsimp only at hx
  split_ifs at hx
  exact hx

theorem Ordered.joinBatch (h : s.Ordered) (hopen : s.eventBatch = some b) (event : MirrorEvent) :
    (s.joinBatch b event).Ordered := by
  refine ⟨h.chain, h.tails, h.restored, h.pending, h.reacting,
    fun x hx => h.opened x (joinBatch_opened s b event hx), fun x hx l hl d hd => ?_⟩
  have hne : x ≠ b := by
    rintro rfl
    have hopens := (h.opened x hopen).2
    have hphase : (s.task x).phase = .awaiting l := hl
    rw [hphase] at hopens
    exact hopens
  rw [joinBatch_batch_ne s event hne] at hd
  exact h.awaited x hx l hl d hd

theorem writesRecord_of_mem (h : .record record ∈ s.effects t) : (s.task t).action.writesRecord = true := by
  unfold effects at h
  cases haction : (s.task t).action with
  | put | putAndAppend => rfl
  | flushEventBatch =>
    rw [haction] at h
    obtain ⟨event, -, heq⟩ := List.mem_map.mp h
    cases heq
  | restore snapshot =>
    rw [haction] at h
    cases List.mem_singleton.mp h

theorem effects_joinBatch (haction : (s.task b).action = .flushEventBatch) (event : MirrorEvent) :
    (s.joinBatch b event).effects b = s.effects b ++ [.event event] := by
  have haction' : ((s.joinBatch b event).task b).action = .flushEventBatch := haction
  unfold effects
  rw [haction', haction, joinBatch_batch_self]
  exact List.map_append

end DurableMirrorStore

namespace Watched

open DurableMirrorStore

variable {w : Watched} {t b : Nat}

theorem Tracked.mem_pendingPuts (h : w.Tracked) (hfail : w.store.failure = none) {x : Write}
    (hx : x ∈ w.accepted) (hpending : w.pendingPut x = true) : x.task ∈ w.store.pendingPuts := by
  unfold pendingPut at hpending
  cases heffect : x.effect with
  | record record =>
    rw [heffect] at hpending
    have hmem := h.mem_effects hx
    rw [heffect] at hmem
    refine (h.ordered hfail).pending x.task ?_ (writesRecord_of_mem hmem)
    exact (h.sound.graph.live x.task).mpr ⟨h.accepted_lt x hx, by simpa using hpending⟩
  | event event =>
    rw [heffect] at hpending
    cases hpending
  | restore snapshot =>
    rw [heffect] at hpending
    cases hpending

theorem Tracked.joinBatch {puts : List Write} (h : w.Tracked) (hopen : w.store.eventBatch = some b)
    (hfail : w.store.failure = none) (hsound : (w.store.joinBatch b event).Sound)
    (hfresh : Effect.event event ∉ w.store.effects b) (hputs : ∀ x ∈ puts, x ∈ w.accepted ∧ w.pendingPut x = true) :
    Tracked { w with
      store := w.store.joinBatch b event
      accepted := w.accepted ++ [⟨b, .event event⟩]
      awaited := w.awaited ++ puts.map (fun put => (put, ⟨b, .event event⟩)) } := by
  have hordered := h.ordered hfail
  obtain ⟨hrun, -, -⟩ := h.sound.running hfail
  obtain ⟨hb, hopens⟩ := hordered.opened b hopen
  obtain ⟨hblt, hbaction⟩ := h.sound.typed.opened b hopen
  have hbwaits : (w.store.task b).phase.waits := by
    cases hphase : (w.store.task b).phase with
    | queued | scheduled | immediate | awaiting => trivial
    | calling call rest =>
      rw [hphase] at hopens
      exact hopens
    | returned error =>
      rw [hphase] at hopens
      exact hopens
    | finished =>
      rw [hphase] at hopens
      exact hopens
  obtain ⟨hbnone, -⟩ := h.waiting b (Or.inr ⟨hb, hbwaits⟩)
  have heffects : ∀ x, x ≠ b → (w.store.joinBatch b event).effects x = w.store.effects x :=
    fun x hx => effects_congr rfl (joinBatch_batch_ne w.store event hx)
  have heffects_b := effects_joinBatch hbaction event
  have hdeps : ∀ x d, d ∈ (w.store.batch x).dependencies → d ∈ ((w.store.joinBatch b event).batch x).dependencies := by
    intro x d hd
    by_cases hx : x = b
    · rw [hx, joinBatch_batch_self, OrderedSet.mem_addAll, OrderedSet.mem_addAll]
      exact .inr (Or.inr (hx ▸ hd))
    · rw [joinBatch_batch_ne w.store event hx]
      exact hd
  generalize hw' : ({ w with
    store := w.store.joinBatch b event
    accepted := w.accepted ++ [⟨b, .event event⟩]
    awaited := w.awaited ++ puts.map (fun put => (put, ⟨b, .event event⟩)) } : Watched) = w'
  have hstore : w'.store = w.store.joinBatch b event := by rw [← hw']
  have haccepted : w'.accepted = w.accepted ++ [⟨b, .event event⟩] := by rw [← hw']
  have hreached : w'.reached = w.reached := by rw [← hw']
  have hby : ∀ x, w'.reachedBy x = w.reachedBy x := fun x => by rw [← hw']; rfl
  have happlied : w'.applied = w.applied := by rw [← hw']
  have hcomplete : ∀ x, x ≠ b → w.Complete x → w'.Complete x := by
    intro x hne hx
    unfold Complete
    rw [hby, hstore, heffects x hne]
    exact hx
  have hne_settled : ∀ x, (w.store.task x).settled = true → x ≠ b := by
    rintro x hx rfl
    rw [((h.sound.graph.live x).mp hb).2] at hx
    cases hx
  have hne_phase : ∀ x, ¬ (w.store.task x).phase.waits → x ≠ b := by
    rintro x hx rfl
    exact hx hbwaits
  refine ⟨hstore ▸ hsound, fun _ => hstore ▸ hordered.joinBatch hopen event, ?_, ?_, ?_, ?_, ?_, ?_, ?_,
    ?_, ?_, ?_, ?_, ?_, ?_⟩
  · intro x hx
    rw [hstore]
    rw [haccepted] at hx
    rcases List.mem_append.mp hx with hx | hx
    · exact h.accepted_lt x hx
    · rw [List.mem_singleton.mp hx]
      exact hblt
  · intro x hx
    rw [hstore] at hx ⊢
    unfold acceptedBy
    rw [haccepted, List.filter_append, List.map_append, List.filter_cons]
    by_cases hxb : b = x
    · subst hxb
      rw [if_pos (decide_eq_true rfl), heffects_b, ← h.accepted b hx]
      rfl
    · rw [if_neg (by simpa using hxb), heffects x (fun heq => hxb heq.symm), ← h.accepted x hx]
      exact List.append_nil _
  · intro x hx
    rw [hstore] at hx ⊢
    by_cases hxb : x = b
    · rw [hxb, heffects_b]
      refine List.nodup_append.mpr ⟨h.distinct b hblt, List.nodup_singleton _, ?_⟩
      rintro e he e' he' rfl
      exact hfresh (List.mem_singleton.mp he' ▸ he)
    · rw [heffects x hxb]
      exact h.distinct x hx
  · intro x hx
    rw [hreached] at hx
    rw [hstore]
    exact h.reached_started x hx
  · intro x hx
    rw [hstore] at hx
    rw [hby, happlied]
    exact h.waiting x hx
  · intro x hx call rest hphase
    rw [hstore] at hx hphase ⊢
    have hphase' : (w.store.task x).phase = .calling call rest := hphase
    rw [hby, happlied, heffects x (hne_phase x (by rw [hphase']; exact id))]
    exact h.calling x hx call rest hphase
  · intro x hx hphase
    rw [hstore] at hx hphase
    have hphase' : (w.store.task x).phase = .returned none := hphase
    exact hcomplete x (hne_phase x (by rw [hphase']; exact id)) (h.returned x hx hphase)
  · intro x x' hlt hx' hconflict hst
    rw [hstore] at hx' hconflict hst ⊢
    obtain ⟨hset, hx⟩ := h.order x x' hlt hx' hconflict hst
    exact ⟨hset, hcomplete x (hne_settled x hset) hx⟩
  · intro _ x hx hset
    rw [hstore] at hx hset
    exact hcomplete x (hne_settled x hset) (h.settled hfail x hx hset)
  · intro x hx call rest hphase haction d hd
    rw [hstore] at hx hphase haction hd
    have hphase' : (w.store.task x).phase = .calling call rest := hphase
    rw [joinBatch_batch_ne w.store event (hne_phase x (by rw [hphase']; exact id))] at hd
    have hne : d ≠ b := by
      rintro rfl
      exact (h.sound.typed.batches x ((h.sound.graph.live x).mp hx).1 haction d hd).2 hbaction
    exact hcomplete d hne (h.batch x hx call rest hphase haction d hd)
  · rintro p (⟨memoryId, rfl⟩ | rfl)
    · rw [haccepted, List.filter_append]
      have hnone : [(⟨b, .event event⟩ : Write)].filter (fun x => x.effect.writesMemory memoryId) = [] := rfl
      rw [hnone, List.append_nil]
      exact h.sorted _ (Or.inl ⟨memoryId, rfl⟩)
    · -- the open batch is the last of the ordered tasks
      rw [haccepted, List.filter_append]
      refine (h.sorted _ (Or.inr rfl)).append_singleton fun x hx => ?_
      obtain ⟨hx, hp⟩ := List.mem_filter.mp hx
      exact hrun.open_last b hopen x.task (h.accepted_lt x hx) (Effect.orders_of_mem (h.mem_effects hx) hp)
  · intro p hp
    rw [haccepted, hreached, List.filter_append]
    exact (h.reached p hp).trans (List.prefix_append _ _)
  · intro x y hxy
    have hxy : (x, y) ∈ w.awaited ++ puts.map (fun put => (put, (⟨b, .event event⟩ : Write))) := by
      rw [← hw'] at hxy
      exact hxy
    rw [hstore, haccepted, hreached]
    rcases List.mem_append.mp hxy with hxy | hxy
    · obtain ⟨hx, hylt, hya, hdep, hbefore⟩ := h.awaited x y hxy
      exact ⟨List.mem_append_left _ hx, hylt, hya, hdeps y.task x.task hdep, hbefore⟩
    · obtain ⟨put, hput, heq⟩ := List.mem_map.mp hxy
      obtain ⟨rfl, rfl⟩ := Prod.mk.inj heq
      obtain ⟨hx, hpending⟩ := hputs put hput
      refine ⟨List.mem_append_left _ hx, hblt, hbaction, ?_, fun hy => ?_⟩
      · rw [joinBatch_batch_self, OrderedSet.mem_addAll, OrderedSet.mem_addAll]
        exact .inr (Or.inl (h.mem_pendingPuts hfail hx hpending))
      · have hmem := mem_taskEffects hy
        change Effect.event event ∈ w.reachedBy b at hmem
        rw [hbnone] at hmem
        cases hmem

/-- The persistent store `p` after the writes `l`. -/
def applyAll (p : Persisted) (l : List Write) : Persisted :=
  l.foldl (fun p write => p.apply write.effect) p

theorem applyAll_append (p : Persisted) (l l' : List Write) :
    applyAll p (l ++ l') = applyAll (applyAll p l) l' := List.foldl_append

theorem values_foldl_set {l : List MirrorEvent} {m : OrderedMap String MirrorEvent} {e : MirrorEvent}
    (h : e ∈ (l.foldl (fun (m : OrderedMap String MirrorEvent) event =>
      m.set event.idempotencyKey event) m).values) : e ∈ l ∨ e ∈ m.values := by
  induction l generalizing m with
  | nil => exact .inr h
  | cons a l ih =>
    rcases ih h with he | he
    · exact .inl (List.mem_cons_of_mem a he)
    · rcases OrderedMap.mem_values_set m he with rfl | he
      · exact .inl List.mem_cons_self
      · exact .inr he

/-- The mirror has the content that the persistent store will have once every accepted write has
    reached it. -/
structure Mirrors (w : Watched) : Prop where
  tracked : w.Tracked
  records : ∀ memoryId, w.store.records.get? memoryId
    = (applyAll w.initial w.accepted).records.get? memoryId
  known : ∀ e ∈ w.store.events.values, e ∈ w.events
  events : w.EventsIdentified → w.store.events = (applyAll w.initial w.accepted).events
  /-- The events of the open batch are in the mirror. -/
  held : ∀ b, w.store.eventBatch = some b → ∀ event, .event event ∈ w.store.effects b →
    w.store.events.has event.idempotencyKey = true

theorem EventsIdentified.mono {w' : Watched} (h : w'.EventsIdentified)
    (hsub : ∀ e ∈ w.events, e ∈ w'.events) : w.EventsIdentified :=
  fun e he e' he' hid => h e (hsub e he) e' (hsub e' he') hid

theorem mem_events_append {s : DurableMirrorStore} {new : List Write} {awaited : List (Write × Write)}
    {e : MirrorEvent} (h : e ∈ w.events) : e ∈ events { w with
      store := s
      accepted := w.accepted ++ new
      awaited := awaited } := by
  unfold events at h ⊢
  rw [List.flatMap_append]
  rcases List.mem_append.mp h with h | h
  · exact List.mem_append_left _ h
  · exact List.mem_append_right _ (List.mem_append_left _ h)

theorem Mirrors.still {s : DurableMirrorStore} {applied : Nat → Nat} {reached : List Write}
    (h : w.Mirrors) (htracked : Tracked { w with
      store := s
      applied := applied
      reached := reached }) (hrecords : s.records = w.store.records)
    (hevents : s.events = w.store.events)
    (hopened : ∀ b, s.eventBatch = some b → w.store.eventBatch = some b)
    (heffects : ∀ b, w.store.eventBatch = some b → s.effects b = w.store.effects b) :
    Mirrors { w with
      store := s
      applied := applied
      reached := reached } := by
  refine ⟨htracked, fun memoryId => ?_, ?_, fun hid => ?_, fun b hb event hmem => ?_⟩
  · show s.records.get? memoryId = _
    rw [hrecords]
    exact h.records memoryId
  · show ∀ e ∈ s.events.values, _
    rw [hevents]
    exact h.known
  · show s.events = _
    rw [hevents]
    exact h.events hid
  · show s.events.has event.idempotencyKey = true
    have hb := hopened b hb
    change Effect.event event ∈ s.effects b at hmem
    rw [heffects b hb] at hmem
    rw [hevents]
    exact h.held b hb event hmem

end Watched

namespace DurableMirrorStore

variable {s s' : DurableMirrorStore} {t b : Nat}

/-- What a job leaves as it is. -/
structure JobFrame (s s' : DurableMirrorStore) : Prop where
  opened : ∀ b, s'.eventBatch = some b → s.eventBatch = some b
  batch : s'.batch = s.batch
  action : ∀ x, (s'.task x).action = (s.task x).action

theorem Kept.jobFrame (h : Kept s s') : JobFrame s s' :=
  ⟨fun _ hb => h.eventBatch ▸ hb, h.batch, h.action⟩

theorem setPhase_jobFrame (s : DurableMirrorStore) (t : Nat) (phase : TaskPhase) : JobFrame s (s.setPhase t phase) :=
  ⟨fun _ hb => hb, rfl, fun x => by rw [setPhase_task]⟩

theorem issue_jobFrame (s : DurableMirrorStore) (t : Nat) (calls : List PersistentCall) : JobFrame s (s.issue t calls) := by
  cases calls with
  | nil | cons => exact setPhase_jobFrame s t _

theorem JobStep.frame {job : MirrorStep} (hg : s.TaskGraph) (hstep : JobStep s job s') : JobFrame s s' := by
  cases hstep with
  | @runAction t ht hphase =>
    unfold DurableMirrorStore.runAction
    split
    · exact issue_jobFrame s t _
    · split_ifs
      · exact issue_jobFrame s t _
      · exact issue_jobFrame s t _
    · exact setPhase_jobFrame s t _
    · exact issue_jobFrame s t _
  | @fireImmediate t ht hphase =>
    refine ⟨fun b hb => ?_, rfl, fun x => ?_⟩
    · unfold DurableMirrorStore.fireImmediate at hb
      change (if s.eventBatch = some t then none else s.eventBatch) = some b at hb
      split_ifs at hb
      exact hb
    · unfold DurableMirrorStore.fireImmediate
      rw [setPhase_task]
  | @dependenciesSettled t l ht hphase _ =>
    unfold DurableMirrorStore.dependenciesSettled
    split
    · exact setPhase_jobFrame s t _
    · exact issue_jobFrame s t _
  | @callSettles t call rest outcome ht hphase =>
    cases outcome with
    | ok u => exact issue_jobFrame s t rest
    | error err => exact setPhase_jobFrame s t _
  | @actionReturned t error ht hphase =>
    cases error with
    | none => exact (settle_kept (t := t) hg none).2.1.jobFrame
    | some failure =>
      have hg0 : ({ s with failure := s.failure.or (some failure) } : DurableMirrorStore).TaskGraph := by
        obtain ⟨h1, h2, h3, h4, h5, h6, h7, h8⟩ := hg
        exact ⟨h1, h2, h3, h4, h5, h6, h7, h8⟩
      obtain ⟨hg1, hkept1, -⟩ := settle_kept (t := t) hg0 (some failure)
      have hkept := hkept1.trans (cancelQueued_spec hg1
        (({ s with failure := s.failure.or (some failure) } : DurableMirrorStore).settle t (some failure)).failure).2.1
      exact ⟨fun b hb => hkept.eventBatch ▸ hb, hkept.batch, hkept.action⟩
  | writeDone ht => exact ⟨fun _ hb => hb, rfl, fun _ => rfl⟩

theorem JobFrame.effects (h : JobFrame s s') (x : Nat) : s'.effects x = s.effects x :=
  effects_congr (h.action x) (by rw [h.batch])

/-- A call that throws leaves the store as it was. -/
theorem put_error (hs : s.Sound) (h : s.put record = (s', .error err)) : s' = s := by
  rcases put_cases hs record with ⟨_, hrun⟩ | ⟨_, _, -, -, -, -, -, hrun⟩
  · exact (Prod.mk.inj (h.symm.trans hrun)).1
  · rw [h] at hrun
    cases hrun

theorem putAndAppend_error (hs : s.Sound) (h : s.putAndAppend record event = (s', .error err)) : s' = s := by
  rcases putAndAppend_cases hs record event with ⟨_, hrun⟩ | ⟨_, _, -, -, -, -, -, -, hrun⟩
  · exact (Prod.mk.inj (h.symm.trans hrun)).1
  · rw [h] at hrun
    cases hrun

theorem appendEvent_error (hs : s.Sound) (h : s.appendEvent event = (s', .error err)) : s' = s := by
  rcases appendEvent_cases hs event with ⟨_, hrun⟩ | ⟨-, hrun⟩ | ⟨-, -, _, -, -, ⟨_, -, hrun⟩ | ⟨-, _, -, -, hrun⟩⟩
  · exact (Prod.mk.inj (h.symm.trans hrun)).1
  all_goals
    rw [h] at hrun
    cases hrun

theorem restore_error {snapshot : MirrorSnapshot} (hs : s.Sound) (h : s.restore snapshot = (s', .error err)) : s' = s := by
  rcases restore_cases hs snapshot with ⟨_, hrun⟩ | ⟨_, -, -, -, -, hrun⟩
  · exact (Prod.mk.inj (h.symm.trans hrun)).1
  · rw [h] at hrun
    cases hrun

end DurableMirrorStore

end Premise.DurableMirror
