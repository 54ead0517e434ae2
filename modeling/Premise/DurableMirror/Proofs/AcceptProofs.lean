import Premise.DurableMirror.Proofs.OrderProofs

/-!
# Proofs: what a call does that the store accepts
-/

namespace Premise.DurableMirror

open Collections Control Js

namespace DurableMirrorStore

variable {s s' s₀ s₁ : DurableMirrorStore} {action : TaskAction} {dependencies : List Nat}

/-- The call has enqueued a task with the action `action`. -/
structure Accepts (action : TaskAction) (s s' : DurableMirrorStore) : Prop where
  failure : s.failure = none
  failure_new : s'.failure = none
  extended : ∃ dependencies, Extended action dependencies s s'
  ordered : s'.Ordered

theorem Admits.extended (h : Admits action dependencies s s₀) (hs : s.Sound) :
    Extended action dependencies s₀ (s₀.enqueue action dependencies).1 := by
  have h0 := h.agrees.sound hs
  obtain ⟨s3, heq, hadded, hgraph, htyped, hrunning⟩ := enqueue_added h0.graph h0.typed (h0.running h.failure).1 action
    dependencies h.known h.put h.chain h.opened
  rw [heq]
  refine hadded.extended h0.graph hgraph (pump_started hgraph hrunning ?_)
  rw [hadded.frame]
  exact h.failure

theorem Sound.waits_conflicting (h : s.Sound) (ho : s.Ordered) (hcov : s.Covered) (hnot : ¬ action.isRestore)
    (hnames : Names action dependencies s) (t : Nat) (ht : t ∈ s.tasks)
    (hconflict : (s.task t).action.Conflicts action) :
    ∃ d ∈ dependencies, d ∈ s.tasks ∧ (t = d ∨
      (t < d ∧ (s.task t).action.Conflicts (s.task d).action)) := by
  have hfrom : ∀ d ∈ dependencies, d ∈ s.tasks → t ≤ d → (s.task t).action.Conflicts (s.task d).action →
      ∃ d ∈ dependencies, d ∈ s.tasks ∧ (t = d ∨ (t < d ∧ (s.task t).action.Conflicts (s.task d).action)) :=
    fun d hd hlive hle hcon => ⟨d, hd, hlive, (Nat.eq_or_lt_of_le hle).imp_right (fun hlt => ⟨hlt, hcon⟩)⟩
  rcases hconflict with ⟨ha, hb⟩ | ⟨memoryId, ha, hb⟩ | hr | hr
  · obtain ⟨d, hd, hlive, hda, hle⟩ := h.waits_last hcov (hnames.last hb) t ht ha
    exact hfrom d hd hlive hle (Or.inl ⟨ha, hda⟩)
  · obtain ⟨l, hl, hltail, hle, hw⟩ := ho.tails memoryId t ht ha
    exact hfrom l (hnames.tails memoryId hb l hltail) hl hle (TaskAction.conflicts_writes ha hw)
  · obtain ⟨r, hrlive, hrtask, hle⟩ := ho.restored t ht hr
    exact hfrom r (hnames.restored r hrtask) hrlive hle (TaskAction.conflicts_restore hr)
  · exact absurd hr hnot

theorem trackWrite_tail (s : DurableMirrorStore) {memoryId : String} (t : Nat)
    (hw : ∀ key, action.writes key ↔ memoryId = key) (key : String) :
    (action.writes key ∧ (s.trackWrite memoryId t).recordTails.get? key = some t) ∨ (¬ action.writes key ∧
        (s.trackWrite memoryId t).recordTails.get? key = s.recordTails.get? key) := by
  have htails : (s.trackWrite memoryId t).recordTails = s.recordTails.set memoryId t := rfl
  rw [htails, OrderedMap.get?_set, hw]
  split_ifs with hkey
  · exact .inl ⟨hkey.symm, rfl⟩
  · exact .inr ⟨fun h => hkey h.symm, rfl⟩

theorem Extended.agrees (h : Extended action dependencies s₀ s₁) (ha : Agrees s s₀)
    (hputs : s₀.settledPuts = s.settledPuts) (htasks : s'.tasks = s₁.tasks)
    (htask : s'.task = s₁.task) (hbatch : ∀ x, x ≠ s.created → s'.batch x = s₁.batch x)
    (hsettled : s'.settledPuts = s₁.settledPuts) (hcreated : s'.created = s₁.created) :
    Extended action dependencies s s' := by
  obtain ⟨h1, h2, h3, h4, h5, h6, h7, h8, h9, h10, h11, h12, h13, h14⟩ := h
  rw [ha.created, ha.task] at h12
  rw [ha.created] at h2 h4 h5 h7 h9 h13
  rw [ha.created, ha.task] at h6 h8 h10 h11
  rw [ha.tasks] at h9
  rw [ha.tasks, ha.task] at h14
  rw [ha.created, ha.tasks] at h3
  rw [ha.batch] at h4
  refine ⟨?_, ?_, ?_, ?_, ?_, ?_, ?_, ?_, ?_, ?_, ?_, ?_, ?_, ?_⟩
  · rw [hsettled, h1, hputs]
  · rw [hcreated, h2]
  · rwa [htasks]
  · intro x hx
    rw [hbatch x hx, h4 x hx]
  all_goals rw [htask]
  · exact h5
  · exact h6
  · exact h7
  · exact h8
  · exact h9
  · exact h10
  · rwa [htasks]
  · exact h12
  · exact h13
  · exact h14

theorem Agrees.ordered (ha : Agrees s s₀) (h : s.Ordered) (htails : s₀.recordTails = s.recordTails)
    (hputs : s₀.pendingPuts = s.pendingPuts) (hsettled : s₀.settledPuts = s.settledPuts) :
    s₀.Ordered :=
  h.congr ha.tasks ha.task ha.batch htails ha.restoreTask hputs ha.created hsettled ha.opened

theorem Agrees.refl (s : DurableMirrorStore) : Agrees s s :=
  ⟨rfl, rfl, rfl, rfl, rfl, rfl, rfl, rfl, rfl, rfl, rfl, rfl, fun _ _ h => h, fun _ h => h, fun _ h => h⟩

theorem Stores.ordered (h : Stores s s₀) (ho : s.failure = none → s.Ordered) : s₀.Ordered :=
  h.agrees.ordered (ho h.live) h.recordTails h.pendingPuts h.settledPuts

section

variable (h : Admits action dependencies s s₀) (hs : s.Sound) (ho : s.failure = none → s.Ordered)
  (hnames : Names action dependencies s₀)
include h hs ho hnames

theorem Admits.waits (hnot : ¬ action.isRestore) (t : Nat) (ht : t ∈ s₀.tasks)
    (hconflict : (s₀.task t).action.Conflicts action) : ∃ d ∈ dependencies, d ∈ s₀.tasks ∧ (t = d ∨
      (t < d ∧ (s₀.task t).action.Conflicts (s₀.task d).action)) :=
  have h0 := h.agrees.sound hs
  h0.waits_conflicting (h.ordered ho) (h0.running h.failure).2.1 hnot hnames t ht hconflict

theorem Admits.tracked {memoryId : String}
    (hwrites : ∀ key, action.writes key ↔ memoryId = key) (hnot : ¬ action.isRestore) :
    ((s₀.enqueue action dependencies).1.trackWrite memoryId s₀.created).Ordered := by
  have h0 := h.agrees.sound hs
  have henqueued := h.enqueued hs
  have hext := h.extended hs
  generalize (s₀.enqueue action dependencies).1 = s₁ at henqueued hext ⊢
  have hext' : Extended action dependencies s₀ (s₁.trackWrite memoryId s₀.created) :=
    hext.agrees (Agrees.refl s₀) rfl rfl rfl (fun _ _ => rfl) rfl rfl
  refine hext'.ordered h0.graph h0.typed (h.ordered ho) (h.waits hs ho hnames hnot) (fun key => ?_)
    (Or.inr ⟨hnot, henqueued.restoreTask⟩) (fun t ht => ?_) (fun b hb => Or.inl (henqueued.eventBatch ▸ hb))
  · have htail := trackWrite_tail s₁ s₀.created hwrites key
    rwa [henqueued.recordTails] at htail
  · show t ∈ s₁.pendingPuts.add s₀.created
    rw [OrderedSet.mem_add, henqueued.pendingPuts]
    exact ht.symm.imp_left fun hnew => hnew.1

end

theorem Admits.accepts (h : Admits action dependencies s s₀) (hs : s.Sound)
    (hs1 : (s₀.enqueue action dependencies).1 = s₁) (htasks : s'.tasks = s₁.tasks) (htask : s'.task = s₁.task)
    (hbatch : ∀ x, x ≠ s.created → s'.batch x = s₁.batch x) (hsettled : s'.settledPuts = s₁.settledPuts)
    (hcreated : s'.created = s₁.created) (hfailure : s'.failure = s₁.failure) (hordered : s'.Ordered) :
    Accepts action s s' := by
  subst hs1
  exact ⟨h.live, hfailure.trans ((h.enqueued hs).failure.trans h.failure),
    ⟨dependencies, (h.extended hs).agrees h.agrees h.settledPuts htasks htask hbatch hsettled hcreated⟩, hordered⟩

theorem enqueue_maps (s : DurableMirrorStore) (action : TaskAction) (dependencies : List Nat) :
    (s.enqueue action dependencies).1.records = s.records ∧ (s.enqueue action dependencies).1.events = s.events := by
  have hfixed := fixed_enqueue s action dependencies
  simp only [fixed, Prod.mk.injEq] at hfixed
  exact hfixed.2

/-! ## The calls -/

section

variable (hs : s.Sound) (ho : s.failure = none → s.Ordered)
include hs ho

theorem put_accepts {record : MirrorRecord} (h : s.put record = (s', .ok ())) : Accepts (.put record) s s' ∧
      s'.records = s.records.set record.memoryId record ∧ s'.events = s.events ∧
      s'.eventBatch = s.eventBatch := by
  rcases put_cases hs record with ⟨err, hrun⟩ | ⟨s₀, dependencies, hadmits, hnames, hrecords0, hevents0, hopened, hrun⟩
  · rw [h] at hrun
    cases hrun
  · obtain ⟨rfl, -⟩ := Prod.mk.inj (h.symm.trans hrun)
    obtain ⟨hrecords, hevents⟩ := enqueue_maps s₀ (.put record) dependencies
    have henqueued := hadmits.enqueued hs
    have hordered := hadmits.tracked hs ho hnames (fun _ => Iff.rfl) id
    generalize hs1 : (s₀.enqueue (.put record) dependencies).1 = s₁ at hrecords hevents henqueued hordered ⊢
    exact ⟨hadmits.accepts hs hs1 rfl rfl (fun _ _ => rfl) rfl rfl rfl hordered, hrecords.trans hrecords0,
      hevents.trans hevents0, henqueued.eventBatch.trans hopened⟩

theorem putAndAppend_accepts {record : MirrorRecord} {event : MirrorEvent} (h : s.putAndAppend record event = (s', .ok ())) :
    Accepts (.putAndAppend record event) s s' ∧ s'.records = s.records.set record.memoryId record ∧
      s'.events = s.events.set event.idempotencyKey event ∧ s'.eventBatch = none ∧
      ∀ existing, s.events.get? event.idempotencyKey = some existing →
        conflicts existing event = false := by
  rcases putAndAppend_cases hs record event with
    ⟨err, hrun⟩ | ⟨s₀, dependencies, hadmits, hnames, hconflict, hrecords0, hevents0, hopened, hrun⟩
  · rw [h] at hrun
    cases hrun
  · obtain ⟨rfl, -⟩ := Prod.mk.inj (h.symm.trans hrun)
    obtain ⟨hrecords, hevents⟩ := enqueue_maps s₀ (.putAndAppend record event) dependencies
    have henqueued := hadmits.enqueued hs
    have hordered := hadmits.tracked hs ho hnames (fun _ => Iff.rfl) id
    generalize hs1 : (s₀.enqueue (.putAndAppend record event) dependencies).1 = s₁ at hrecords hevents henqueued hordered ⊢
    refine ⟨hadmits.accepts hs hs1 rfl rfl (fun _ _ => rfl) rfl rfl rfl ?_, hrecords.trans hrecords0,
      hevents.trans hevents0, henqueued.eventBatch.trans hopened, hconflict⟩
    exact hordered.congr rfl rfl rfl rfl rfl rfl rfl rfl fun _ hb => hb

theorem restore_accepts {snapshot : MirrorSnapshot} (h : s.restore snapshot = (s', .ok ())) :
    Accepts (.restore snapshot) s s' ∧ s'.records = (snapshot.records.foldl
        (fun (m : OrderedMap String MirrorRecord) record => m.set record.memoryId record) ∅) ∧
      s'.events = (snapshot.events.foldl
        (fun (m : OrderedMap String MirrorEvent) event => m.set event.idempotencyKey event) ∅) ∧
      s'.eventBatch = none := by
  rcases restore_cases hs snapshot with ⟨err, hrun⟩ | ⟨s₀, hadmits, hrecords0, hevents0, hopened, hrun⟩
  · rw [h] at hrun
    cases hrun
  · obtain ⟨rfl, -⟩ := Prod.mk.inj (h.symm.trans hrun)
    have h0 := hadmits.agrees.sound hs
    obtain ⟨hrecords, hevents⟩ := enqueue_maps s₀ (.restore snapshot) s₀.tasks.elems
    have henqueued := hadmits.enqueued hs
    have hext := hadmits.extended hs
    generalize hs1 : (s₀.enqueue (.restore snapshot) s₀.tasks.elems).1 = s₁ at hrecords hevents henqueued hext ⊢
    have hext' : Extended (.restore snapshot) s₀.tasks.elems s₀ { s₁ with restoreTask := some s₀.created } :=
      hext.agrees (Agrees.refl s₀) rfl rfl rfl (fun _ _ => rfl) rfl rfl
    refine ⟨hadmits.accepts hs hs1 rfl rfl (fun _ _ => rfl) rfl rfl rfl ?_, hrecords.trans hrecords0,
      hevents.trans hevents0, henqueued.eventBatch.trans hopened⟩
    refine hext'.ordered h0.graph h0.typed (hadmits.ordered ho) (fun t ht _ => ⟨t, ht, ht, Or.inl rfl⟩)
      (fun key => Or.inr ⟨id, by rw [henqueued.recordTails]⟩) (Or.inl rfl) (fun t ht => ?_)
      (fun b hb => Or.inl (henqueued.eventBatch ▸ hb))
    show t ∈ s₁.pendingPuts
    rw [henqueued.pendingPuts]
    exact ht.resolve_right nofun

theorem appendEvent_accepts {event : MirrorEvent} (h : s.appendEvent event = (s', .ok ())) :
    (s.events.has event.idempotencyKey = true ∧ s' = s) ∨
    (s.events.has event.idempotencyKey = false ∧ s.failure = none ∧ ∃ s₁ b, ((s.eventBatch = some b ∧
          s₁ = { s with events := s.events.set event.idempotencyKey event }) ∨
        (s.eventBatch = none ∧ b = s.created ∧ Accepts .flushEventBatch s s₁ ∧ s₁.batch b = ⟨[], ∅⟩)) ∧
      s₁.Sound ∧ s₁.Ordered ∧ s₁.records = s.records ∧
      s₁.events = s.events.set event.idempotencyKey event ∧ s₁.eventBatch = some b ∧
      s' = s₁.joinBatch b event) := by
  rcases appendEvent_cases hs event with ⟨err, hrun⟩ | ⟨hhas, hrun⟩ | ⟨hhas, -, s₀, hs0, hstores, hcase⟩
  · rw [h] at hrun
    cases hrun
  · exact .inl ⟨hhas, (Prod.mk.inj (h.symm.trans hrun)).1⟩
  · have h0 := hstores.agrees.sound hs
    have ho0 := hstores.ordered ho
    have hrecords0 : s₀.records = s.records := by rw [hs0]
    have hevents0 : s₀.events = s.events.set event.idempotencyKey event := by rw [hs0]
    have hopen_eq : s₀.eventBatch = s.eventBatch := by rw [hs0]
    refine .inr ⟨hhas, hstores.live, ?_⟩
    rcases hcase with ⟨b, hopen, hrun⟩ | ⟨hopen, dependencies, hadmits, hnames, hrun⟩
    · exact ⟨s₀, b, .inl ⟨hopen_eq.symm.trans hopen, hs0⟩, h0, ho0, hrecords0, hevents0, hopen,
        (Prod.mk.inj (h.symm.trans hrun)).1⟩
    · have henqueued := hadmits.enqueued hs
      have hext := hadmits.extended hs
      have hsound := h0.withBatch hadmits.failure henqueued
      obtain ⟨hrecords, hevents⟩ := enqueue_maps s₀ .flushEventBatch dependencies
      have hs' := (Prod.mk.inj (h.symm.trans hrun)).1
      generalize hs1 : (s₀.enqueue .flushEventBatch dependencies).1 = s₁
        at hs' henqueued hext hrecords hevents hsound
      have hbatch : ∀ x, x ≠ s₀.created → (withBatch s₁ s₀.created).batch x = s₁.batch x :=
        fun x hx => Function.update_of_ne hx _ _
      have hext' : Extended .flushEventBatch dependencies s₀ (withBatch s₁ s₀.created) :=
        hext.agrees (Agrees.refl s₀) rfl rfl rfl hbatch rfl rfl
      have hordered : (withBatch s₁ s₀.created).Ordered := by
        refine hext'.ordered h0.graph h0.typed ho0 (hadmits.waits hs ho hnames id)
          (fun key => Or.inr ⟨id, by rw [← henqueued.recordTails]; rfl⟩)
          (Or.inr ⟨id, henqueued.restoreTask⟩) (fun t ht => ?_) (fun b hb => Or.inr (Option.some.inj hb).symm)
        show t ∈ s₁.pendingPuts
        rw [henqueued.pendingPuts]
        exact ht.resolve_right nofun
      refine ⟨withBatch s₁ s₀.created, s₀.created, .inr ⟨hopen_eq.symm.trans hopen, hstores.agrees.created, ?_,
        Function.update_self _ _ _⟩, hsound, hordered, hrecords.trans hrecords0, hevents.trans hevents0, rfl, hs'⟩
      exact hadmits.accepts hs hs1 rfl rfl (fun x hx => hbatch x (hstores.agrees.created ▸ hx)) rfl rfl rfl hordered

end

end DurableMirrorStore

end Premise.DurableMirror
