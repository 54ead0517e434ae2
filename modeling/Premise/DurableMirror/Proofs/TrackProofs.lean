import Premise.Collections.Tagged
import Premise.DurableMirror.Persistence
import Premise.DurableMirror.Proofs.AcceptProofs

/-!
# Proofs: how far a task has brought its writes

The writes of a task reach the persistent store in the order in which its calls make them. A task
that conflicts with an older one has not started before all writes of the older one have reached it.
-/

namespace Premise.DurableMirror

open Collections Control Js

def TaskPhase.waits : TaskPhase → Prop
  | .queued | .scheduled | .immediate | .awaiting _ => True
  | _ => False

variable {s : DurableMirrorStore} {x : Write}

namespace DurableMirrorStore

/-- The writes of the task `t`, in the order in which its calls make them. -/
def effects (s : DurableMirrorStore) (t : Nat) : List Effect :=
  match (s.task t).action with
  | .put record => [.record record]
  | .putAndAppend record event => [.record record, .event event]
  | .flushEventBatch => (s.batch t).events.map .event
  | .restore snapshot => [.restore snapshot]

theorem effects_congr {s' : DurableMirrorStore} {t : Nat} (haction : (s'.task t).action = (s.task t).action)
    (hbatch : s'.batch t = s.batch t) :
    s'.effects t = s.effects t := by
  unfold effects
  rw [haction, hbatch]

end DurableMirrorStore

/-- The writes of one memory, or the events, each with the restores. -/
def Effect.OrderedBy (p : Effect → Bool) : Prop :=
  (∃ memoryId, p = Effect.writesMemory memoryId) ∨ p = Effect.writesEvents

namespace Effect

variable {s : DurableMirrorStore} {t : Nat} {effect : Effect}

theorem writes_of_mem {memoryId : String} (h : effect ∈ s.effects t)
    (hp : effect.writesMemory memoryId = true) :
    (s.task t).action.writes memoryId ∨ (s.task t).action.isRestore := by
  unfold DurableMirrorStore.effects at h
  cases haction : (s.task t).action with
  | put record =>
    rw [haction] at h
    obtain rfl := List.mem_singleton.mp h
    exact .inl (show record.memoryId = memoryId from of_decide_eq_true hp)
  | putAndAppend record event =>
    rw [haction] at h
    rcases List.mem_cons.mp h with rfl | h
    · exact .inl (show record.memoryId = memoryId from of_decide_eq_true hp)
    · obtain rfl := List.mem_singleton.mp h
      cases hp
  | flushEventBatch =>
    rw [haction] at h
    obtain ⟨event, -, rfl⟩ := List.mem_map.mp h
    cases hp
  | restore snapshot => exact .inr trivial

theorem orders_of_mem (h : effect ∈ s.effects t) (hp : effect.writesEvents = true) :
    (s.task t).action.ordersEvents = true := by
  unfold DurableMirrorStore.effects at h
  cases haction : (s.task t).action with
  | put record =>
    rw [haction] at h
    obtain rfl := List.mem_singleton.mp h
    cases hp
  | putAndAppend | flushEventBatch | restore => rfl

theorem OrderedBy.conflicts {p : Effect → Bool} (h : OrderedBy p) {t' : Nat} {effect' : Effect}
    (he : effect ∈ s.effects t) (hp : p effect = true) (he' : effect' ∈ s.effects t')
    (hp' : p effect' = true) : (s.task t).action.Conflicts (s.task t').action := by
  rcases h with ⟨memoryId, rfl⟩ | rfl
  · rcases writes_of_mem he hp with hw | hr
    · rcases writes_of_mem he' hp' with hw' | hr'
      · exact TaskAction.conflicts_writes hw hw'
      · exact .inr (Or.inr (Or.inr hr'))
    · exact TaskAction.conflicts_restore hr
  · exact .inl ⟨orders_of_mem he hp, orders_of_mem he' hp'⟩

end Effect

namespace Watched

open DurableMirrorStore

variable {w : Watched} {t : Nat}

def acceptedBy (w : Watched) (t : Nat) : List Effect :=
  (w.accepted.filter (fun x => decide (x.task = t))).map Write.effect

def reachedBy (w : Watched) (t : Nat) : List Effect :=
  (w.reached.filter (fun x => decide (x.task = t))).map Write.effect

theorem filter_task (l : List Write) (t : Nat) : l.filter (fun x => decide (x.task = t))
    = ((l.filter (fun x => decide (x.task = t))).map Write.effect).map (Write.mk t) := by
  rw [List.map_map]
  symm
  refine (List.map_congr_left fun x hx => ?_).trans (List.map_id _)
  obtain ⟨-, htask⟩ := List.mem_filter.mp hx
  have htask := of_decide_eq_true htask
  show Write.mk t x.effect = x
  rw [← htask]

theorem mem_taskEffects {l : List Write} (h : x ∈ l) :
    x.effect ∈ (l.filter (fun y => decide (y.task = x.task))).map Write.effect :=
  List.mem_map.mpr ⟨x, List.mem_filter.mpr ⟨h, decide_eq_true rfl⟩, rfl⟩

theorem mem_of_taskEffects {l : List Write}
    (h : x.effect ∈ (l.filter (fun y => decide (y.task = x.task))).map Write.effect) : x ∈ l := by
  obtain ⟨y, hy, heffect⟩ := List.mem_map.mp h
  obtain ⟨hmem, htask⟩ := List.mem_filter.mp hy
  have htask := of_decide_eq_true htask
  obtain ⟨task, effect⟩ := x
  obtain ⟨task', effect'⟩ := y
  obtain rfl : task' = task := htask
  obtain rfl : effect' = effect := heffect
  exact hmem

/-- All writes of the task `t` have reached the persistent store. -/
def Complete (w : Watched) (t : Nat) : Prop := w.reachedBy t = w.store.effects t

/-- How far each task has brought its writes. -/
structure Tracked (w : Watched) : Prop where
  sound : w.store.Sound
  ordered : w.store.failure = none → w.store.Ordered
  accepted_lt : ∀ x ∈ w.accepted, x.task < w.store.created
  accepted : ∀ t, t < w.store.created → w.acceptedBy t = w.store.effects t
  distinct : ∀ t, t < w.store.created → (w.store.effects t).Nodup
  reached_started : ∀ x ∈ w.reached,
    x.task < w.store.created ∧ (w.store.task x.task).started = true
  waiting : ∀ t, (w.store.created ≤ t ∨ (t ∈ w.store.tasks ∧ (w.store.task t).phase.waits)) →
    w.reachedBy t = [] ∧ w.applied t = 0
  calling : ∀ t ∈ w.store.tasks, ∀ call rest, (w.store.task t).phase = .calling call rest →
    w.reachedBy t ++ (call.effects.drop (w.applied t)
      ++ rest.flatMap PersistentCall.effects) = w.store.effects t
  returned : ∀ t ∈ w.store.tasks, (w.store.task t).phase = .returned none → w.Complete t
  order : ∀ t t', t < t' → t' < w.store.created →
    (w.store.task t).action.Conflicts (w.store.task t').action →
    (w.store.task t').started = true → (w.store.task t).settled = true ∧ w.Complete t
  settled : w.store.failure = none → ∀ t, t < w.store.created → (w.store.task t).settled = true →
    w.Complete t
  batch : ∀ t ∈ w.store.tasks, ∀ call rest, (w.store.task t).phase = .calling call rest →
    (w.store.task t).action = .flushEventBatch →
    ∀ d ∈ (w.store.batch t).dependencies, w.Complete d
  sorted : ∀ p, Effect.OrderedBy p →
    TagSorted Write.task (w.accepted.filter (fun x => p x.effect))
  reached : ∀ p, Effect.OrderedBy p →
    w.reached.filter (fun x => p x.effect) <+: w.accepted.filter (fun x => p x.effect)
  awaited : ∀ x y, (x, y) ∈ w.awaited → x ∈ w.accepted ∧ y.task < w.store.created ∧
    (w.store.task y.task).action = .flushEventBatch ∧
    x.task ∈ (w.store.batch y.task).dependencies ∧ (y ∈ w.reached → Before w.reached x y)

theorem Tracked.mem_effects (h : w.Tracked) (hx : x ∈ w.accepted) : x.effect ∈ w.store.effects x.task := by
  rw [← h.accepted x.task (h.accepted_lt x hx)]
  exact mem_taskEffects hx

theorem Tracked.mem_reached (h : w.Tracked) (hx : x ∈ w.accepted) (hcomplete : w.Complete x.task) : x ∈ w.reached := by
  have heffect := h.mem_effects hx
  rw [← hcomplete] at heffect
  exact mem_of_taskEffects heffect

theorem exists_orderedBy (effect : Effect) : ∃ p, Effect.OrderedBy p ∧ p effect = true := by
  cases effect with
  | record record =>
    exact ⟨Effect.writesMemory record.memoryId, Or.inl ⟨_, rfl⟩, decide_eq_true rfl⟩
  | event | restore => exact ⟨Effect.writesEvents, Or.inr rfl, rfl⟩

theorem Tracked.reached_accepted (h : w.Tracked) (hx : x ∈ w.reached) : x ∈ w.accepted := by
  obtain ⟨p, hp, hpx⟩ := exists_orderedBy x.effect
  have hmem := (h.reached p hp).subset (List.mem_filter.mpr ⟨hx, hpx⟩)
  exact (List.mem_filter.mp hmem).1

theorem Tracked.started (h : w.Tracked) (ht : t ∈ w.store.tasks)
    (hphase : (w.store.task t).phase ≠ .queued) : (w.store.task t).started = true :=
  h.sound.started_of_phase ht hphase

/-! ## A write reaches the persistent store -/

theorem filter_order_task (p : Effect → Bool) (l : List Write) (t : Nat) :
    (l.filter (fun x => p x.effect)).filter (fun x => decide (x.task = t))
      = (((l.filter (fun x => decide (x.task = t))).map Write.effect).filter p).map (Write.mk t) := by
  conv_lhs => rw [List.filter_comm, filter_task, List.filter_map]
  rfl

theorem reachedBy_concat (w : Watched) (x : Write) (t : Nat) :
    ((w.reached ++ [x]).filter (fun y => decide (y.task = t))).map Write.effect
      = w.reachedBy t ++ (if x.task = t then [x.effect] else []) := by
  rw [List.filter_append, List.map_append]
  congr 1
  by_cases hx : x.task = t
  · rw [if_pos hx, List.filter_cons, if_pos (decide_eq_true hx)]
    rfl
  · rw [if_neg hx, List.filter_cons, if_neg (by simpa using hx)]
    rfl

theorem Tracked.reaches {call : PersistentCall} {rest : List PersistentCall} {effect : Effect}
    (h : w.Tracked) (ht : t ∈ w.store.tasks) (hphase : (w.store.task t).phase = .calling call rest)
    (heffect : call.effects[w.applied t]? = some effect) :
    Tracked { w with
      reached := w.reached ++ [⟨t, effect⟩]
      applied := Function.update w.applied t (w.applied t + 1) } := by
  have hcreated := ((h.sound.graph.live t).mp ht).1
  have hstarted := h.started ht (by rw [hphase]; nofun)
  have hnext : call.effects.drop (w.applied t) = effect :: call.effects.drop (w.applied t + 1) := by
    obtain ⟨hlt, heq⟩ := List.getElem?_eq_some_iff.mp heffect
    rw [List.drop_eq_getElem_cons hlt, heq]
  have hcalling := h.calling t ht call rest hphase
  rw [hnext] at hcalling
  have hmem : effect ∈ w.store.effects t := by
    rw [← hcalling]
    simp
  -- `t` has a write left
  have hincomplete : ¬ w.Complete t := by
    intro hcomplete
    have hlen := congrArg List.length (hcalling.trans hcomplete.symm)
    simp only [List.length_append, List.length_cons] at hlen
    omega
  generalize hw' : ({ w with
    reached := w.reached ++ [⟨t, effect⟩]
    applied := Function.update w.applied t (w.applied t + 1) } : Watched) = w'
  have hstore : w'.store = w.store := by rw [← hw']
  have hreached : w'.reached = w.reached ++ [⟨t, effect⟩] := by rw [← hw']
  have hother : ∀ x, x ≠ t → w'.reachedBy x = w.reachedBy x ∧ w'.applied x = w.applied x := by
    intro x hx
    constructor
    · unfold reachedBy
      rw [hreached, reachedBy_concat, if_neg (fun heq => hx heq.symm), List.append_nil]
      rfl
    · rw [← hw']
      exact Function.update_of_ne hx _ _
  have hcomplete : ∀ x, w.Complete x → w'.Complete x := by
    intro x hx
    unfold Complete
    rw [hstore, (hother x (fun heq => hincomplete (heq ▸ hx))).1]
    exact hx
  refine ⟨hstore ▸ h.sound, hstore ▸ h.ordered, ?_, ?_, hstore ▸ h.distinct, ?_, ?_, ?_, ?_, ?_, ?_, ?_, ?_, ?_, ?_⟩
  · rw [hstore, ← hw']
    exact h.accepted_lt
  · rw [hstore, ← hw']
    exact h.accepted
  · intro x hx
    rw [hstore]
    rw [hreached] at hx
    rcases List.mem_append.mp hx with hx | hx
    · exact h.reached_started x hx
    · rw [List.mem_singleton.mp hx]
      exact ⟨hcreated, hstarted⟩
  · intro x hx
    rw [hstore] at hx
    have hne : x ≠ t := by
      rintro rfl
      rcases hx with hx | ⟨-, hx⟩
      · omega
      · rw [hphase] at hx
        exact hx
    rw [(hother x hne).1, (hother x hne).2]
    exact h.waiting x hx
  · intro x hx call' rest' hphase'
    rw [hstore] at hx hphase' ⊢
    by_cases hne : x = t
    · rw [hne, hphase] at hphase'
      obtain ⟨rfl, rfl⟩ := TaskPhase.calling.inj hphase'
      have happlied : w'.applied t = w.applied t + 1 := by
        rw [← hw']
        exact Function.update_self _ _ _
      rw [hne, happlied, ← hcalling]
      unfold reachedBy
      rw [hreached, reachedBy_concat, if_pos rfl]
      simp [reachedBy]
    · rw [(hother x hne).1, (hother x hne).2]
      exact h.calling x hx call' rest' hphase'
  · intro x hx hphase'
    rw [hstore] at hx hphase'
    exact hcomplete x (h.returned x hx hphase')
  · intro x x' hlt hx' hconflict hst
    rw [hstore] at hx' hconflict hst ⊢
    obtain ⟨hset, hx⟩ := h.order x x' hlt hx' hconflict hst
    exact ⟨hset, hcomplete x hx⟩
  · intro hfail x hx hset
    rw [hstore] at hfail hx hset
    exact hcomplete x (h.settled hfail x hx hset)
  · intro x hx call' rest' hphase' haction d hd
    rw [hstore] at hx hphase' haction hd
    exact hcomplete d (h.batch x hx call' rest' hphase' haction d hd)
  · rw [← hw']
    exact h.sorted
  · intro p hp
    have haccepted : w'.accepted = w.accepted := by rw [← hw']
    rw [hreached, haccepted, List.filter_append, List.filter_cons]
    by_cases hpe : p effect = true
    · rw [if_pos hpe, List.filter_nil]
      refine (h.sorted p hp).prefix_concat (t := t) (h.reached p hp) (fun a ha hlt => ?_)
        (fun a ha => ?_) ?_
      · obtain ⟨ha, hpa⟩ := List.mem_filter.mp ha
        have hconflict := hp.conflicts (h.mem_effects ha) hpa hmem hpe
        have hfull := (h.order a.task t hlt hcreated hconflict hstarted).2
        have heq := hfull.trans (h.accepted a.task (h.accepted_lt a ha)).symm
        rw [filter_order_task, filter_order_task]
        exact congrArg (fun l => (l.filter p).map (Write.mk a.task)) heq
      · obtain ⟨ha, hpa⟩ := List.mem_filter.mp ha
        by_contra hlt
        obtain ⟨halt, hast⟩ := h.reached_started a ha
        have hconflict := hp.conflicts hmem hpe (h.mem_effects (h.reached_accepted ha)) hpa
        have hset := (h.order t a.task (by omega) halt hconflict hast).1
        rw [((h.sound.graph.live t).mp ht).2] at hset
        cases hset
      · have hlast : [(⟨t, effect⟩ : Write)] = ([effect].filter p).map (Write.mk t) := by
          rw [List.filter_cons, if_pos hpe]
          rfl
        rw [filter_order_task, filter_order_task, hlast, ← List.map_append, ← List.filter_append]
        refine List.IsPrefix.map _ (List.IsPrefix.filter _ ?_)
        have heq := (h.accepted t hcreated).trans hcalling.symm
        unfold acceptedBy at heq
        rw [heq]
        exact ⟨call.effects.drop (w.applied t + 1) ++ rest.flatMap PersistentCall.effects, by simp [reachedBy]⟩
    · rw [if_neg hpe, List.filter_nil, List.append_nil]
      exact h.reached p hp
  · intro x y hxy
    have hxy : (x, y) ∈ w.awaited := by
      rw [← hw'] at hxy
      exact hxy
    obtain ⟨hx, hylt, hya, hdep, hbefore⟩ := h.awaited x y hxy
    have haccepted : w'.accepted = w.accepted := by rw [← hw']
    rw [hstore, haccepted]
    refine ⟨hx, hylt, hya, hdep, fun hy => ?_⟩
    rw [hreached] at hy ⊢
    rcases List.mem_append.mp hy with hy | hy
    · exact (hbefore hy).trans (List.sublist_append_left _ _)
    · obtain rfl := List.mem_singleton.mp hy
      have hfull := h.batch t ht call rest hphase hya x.task hdep
      exact (List.singleton_sublist.mpr (h.mem_reached hx hfull)).append (List.Sublist.refl _)

/-! ## A task moves on -/

theorem Tracked.rephase {applied : Nat → Nat} (phase : TaskPhase) (h : w.Tracked) (ht : t ∈ w.store.tasks)
    (hsound : s.Sound) (hordered : w.store.failure = none → s.Ordered) (htasks : s.tasks = w.store.tasks)
    (hcreated : s.created = w.store.created) (hfailure : s.failure = w.store.failure)
    (hbatch : s.batch = w.store.batch)
    (htask : ∀ x, s.task x = { w.store.task x with phase := if x = t then phase else (w.store.task x).phase })
    (happlied : ∀ x, x ≠ t → applied x = w.applied x) (hwaits : phase.waits → w.reachedBy t = [] ∧ applied t = 0)
    (hcalling : ∀ call rest, phase = .calling call rest → w.reachedBy t ++ (call.effects.drop (applied t) ++ rest.flatMap PersistentCall.effects) = w.store.effects t ∧ ((w.store.task t).action = .flushEventBatch → ∀ d ∈ (w.store.batch t).dependencies, w.Complete d))
    (hreturned : phase = .returned none → w.Complete t) :
    Tracked { w with
      store := s
      applied := applied } := by
  have hlt := ((h.sound.graph.live t).mp ht).1
  have haction : ∀ x, (s.task x).action = (w.store.task x).action := fun x => by rw [htask]
  have hst : ∀ x, (s.task x).started = (w.store.task x).started := fun x => by rw [htask]
  have hset : ∀ x, (s.task x).settled = (w.store.task x).settled := fun x => by rw [htask]
  have hphase : ∀ x, (s.task x).phase = if x = t then phase else (w.store.task x).phase :=
    fun x => by rw [htask]
  have heffects : ∀ x, s.effects x = w.store.effects x :=
    fun x => effects_congr (haction x) (by rw [hbatch])
  have hcomplete : ∀ x, w.Complete x → Complete { w with
      store := s
      applied := applied } x := fun x hx => Eq.trans hx (heffects x).symm
  refine ⟨hsound, fun hf => hordered (hfailure.symm.trans hf), ?_, ?_, ?_, ?_, ?_, ?_, ?_, ?_, ?_, ?_,
    h.sorted, h.reached, ?_⟩
  · simpa only [hcreated] using h.accepted_lt
  · simp only [hcreated, heffects]
    exact h.accepted
  · simpa only [hcreated, heffects] using h.distinct
  · simpa only [hcreated, hst] using h.reached_started
  · intro x hx
    simp only [hcreated, htasks, hphase] at hx
    show w.reachedBy x = [] ∧ applied x = 0
    by_cases hxt : x = t
    · subst hxt
      rcases hx with hx | ⟨-, hx⟩
      · omega
      · rw [if_pos rfl] at hx
        exact hwaits hx
    · rw [if_neg hxt] at hx
      rw [happlied x hxt]
      exact h.waiting x hx
  · intro x hx call rest hxphase
    simp only [htasks, hphase] at hx hxphase
    show w.reachedBy x ++ (call.effects.drop (applied x) ++ _) = s.effects x
    rw [heffects]
    by_cases hxt : x = t
    · subst hxt
      rw [if_pos rfl] at hxphase
      exact (hcalling call rest hxphase).1
    · rw [if_neg hxt] at hxphase
      rw [happlied x hxt]
      exact h.calling x hx call rest hxphase
  · intro x hx hxphase
    simp only [htasks, hphase] at hx hxphase
    refine hcomplete x ?_
    by_cases hxt : x = t
    · subst hxt
      rw [if_pos rfl] at hxphase
      exact hreturned hxphase
    · rw [if_neg hxt] at hxphase
      exact h.returned x hx hxphase
  · intro x x' hxlt hx' hconflict hxst
    simp only [hcreated, haction, hst, hset] at hx' hconflict hxst ⊢
    obtain ⟨hxset, hx⟩ := h.order x x' hxlt hx' hconflict hxst
    exact ⟨hxset, hcomplete x hx⟩
  · intro hfail x hx hxset
    simp only [hcreated, hset, hfailure] at hfail hx hxset
    exact hcomplete x (h.settled hfail x hx hxset)
  · intro x hx call rest hxphase hxaction d hd
    simp only [htasks, hphase, haction, hbatch] at hx hxphase hxaction hd
    refine hcomplete d ?_
    by_cases hxt : x = t
    · subst hxt
      rw [if_pos rfl] at hxphase
      exact (hcalling call rest hxphase).2 hxaction d hd
    · rw [if_neg hxt] at hxphase
      exact h.batch x hx call rest hxphase hxaction d hd
  · simpa only [hcreated, haction, hbatch] using h.awaited

theorem Tracked.issue {applied : Nat → Nat} {calls : List PersistentCall} (h : w.Tracked) (ht : t ∈ w.store.tasks)
    (hsound : (s.issue t calls).Sound) (hordered : w.store.failure = none → (s.issue t calls).Ordered)
    (htasks : s.tasks = w.store.tasks) (hcreated : s.created = w.store.created)
    (hfailure : s.failure = w.store.failure) (hbatch : s.batch = w.store.batch) (htask : s.task = w.store.task)
    (happlied : ∀ x, x ≠ t → applied x = w.applied x) (hzero : applied t = 0)
    (hleft : w.reachedBy t ++ calls.flatMap PersistentCall.effects = w.store.effects t)
    (hdeps : (w.store.task t).action = .flushEventBatch → ∀ d ∈ (w.store.batch t).dependencies, w.Complete d) :
    Tracked { w with
      store := s.issue t calls
      applied := applied } := by
  cases calls with
  | nil =>
    refine h.rephase (.returned none) ht hsound hordered htasks hcreated hfailure hbatch
      (fun x => ?_) happlied nofun nofun (fun _ => ?_)
    · rw [← htask]
      exact setPhase_task s t (.returned none) x
    · rw [List.flatMap_nil, List.append_nil] at hleft
      exact hleft
  | cons call rest =>
    refine h.rephase (.calling call rest) ht hsound hordered htasks hcreated hfailure hbatch
      (fun x => ?_) happlied nofun (fun call' rest' hphase => ?_) nofun
    · rw [← htask]
      exact setPhase_task s t (.calling call rest) x
    · obtain ⟨rfl, rfl⟩ := TaskPhase.calling.inj hphase
      rw [hzero, List.drop_zero]
      exact ⟨hleft, hdeps⟩

end Watched

end Premise.DurableMirror
