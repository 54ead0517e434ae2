import Premise.DurableMirror.Proofs.PersistenceProofs

/-!
# Proofs: what the persistent store has after a run
-/

namespace Premise.DurableMirror

open Collections Control Js

namespace Watched

open DurableMirrorStore

variable {w w' : Watched} {t b : Nat}

/-! ## Calls -/

theorem Tracked.accepts {action : TaskAction} {s : DurableMirrorStore} (h : w.Tracked)
    (hacc : Accepts action w.store s) (hsound : s.Sound)
    (hnodup : (s.effects w.store.created).Nodup) :
    Tracked { w with
      store := s
      accepted := w.accepted ++ (s.effects w.store.created).map (Write.mk w.store.created) } := by
  obtain ⟨dependencies, hext⟩ := hacc.extended
  exact h.moves (hext.moves h.sound.graph hacc.ordered hacc.failure hacc.failure_new) hsound
    (fun _ => hacc.ordered) _ (Or.inr ⟨hext.created, rfl, hnodup⟩)

theorem accepts_effects {action : TaskAction} {s s' : DurableMirrorStore}
    (hacc : Accepts action s s') (hb : t < s.created) : s'.effects t = s.effects t := by
  obtain ⟨dependencies, hext⟩ := hacc.extended
  have hne := Nat.ne_of_lt hb
  exact effects_congr (hext.action t hne) (hext.batch t hne)

theorem Mirrors.put (h : w.Mirrors) (record : MirrorRecord) : (w.put record).Mirrors := by
  unfold Watched.put
  have hsound := h.tracked.sound.put record
  cases hput : w.store.put record with
  | mk s outcome =>
    rw [hput] at hsound
    cases outcome with
    | error err =>
      rw [put_error h.tracked.sound hput]
      exact h
    | ok u =>
      obtain ⟨hacc, hrecords, hevents, hopened⟩ :=
        put_accepts h.tracked.sound h.tracked.ordered hput
      have heffects : s.effects w.store.created = [.record record] := by
        obtain ⟨dependencies, hext⟩ := hacc.extended
        unfold effects
        rw [hext.action_new]
      have htracked := h.tracked.accepts hacc hsound (by rw [heffects]; exact List.nodup_singleton _)
      rw [heffects] at htracked
      refine ⟨htracked, fun memoryId => ?_, fun e he => ?_, fun hid => ?_, fun b hb event hmem => ?_⟩
      · show s.records.get? memoryId = (applyAll w.initial (w.accepted ++ _)).records.get? memoryId
        rw [hrecords, applyAll_append]
        show _ = ((applyAll w.initial w.accepted).records.set record.memoryId record).get? memoryId
        rw [OrderedMap.get?_set, OrderedMap.get?_set, h.records]
      · exact mem_events_append (h.known e (hevents ▸ he))
      · show s.events = (applyAll w.initial (w.accepted ++ _)).events
        rw [hevents, applyAll_append]
        exact h.events (hid.mono (fun e he => mem_events_append he))
      · change s.eventBatch = some b at hb
        change Effect.event event ∈ s.effects b at hmem
        show s.events.has event.idempotencyKey = true
        rw [hopened] at hb
        rw [accepts_effects hacc (h.tracked.sound.typed.opened b hb).1]
          at hmem
        rw [hevents]
        exact h.held b hb event hmem

theorem identified_of_not_conflicts {existing event : MirrorEvent} (hid : w.EventsIdentified)
    (hexisting : existing ∈ w.events) (hevent : event ∈ w.events)
    (hconflict : conflicts existing event = false) : existing = event := by
  refine hid existing hexisting event hevent ?_
  unfold conflicts at hconflict
  simp only [Bool.or_eq_false_iff, decide_eq_false_iff_not, not_not] at hconflict
  exact hconflict.1

theorem apply_event {p : Persisted} {events : OrderedMap String MirrorEvent} {event : MirrorEvent}
    (hevents : events = p.events)
    (hsame : ∀ existing, events.get? event.idempotencyKey = some existing → existing = event) :
    events.set event.idempotencyKey event = (p.apply (.event event)).events := by
  subst hevents
  unfold Persisted.apply
  dsimp only
  cases hget : p.events.get? event.idempotencyKey with
  | none =>
    have hhas : p.events.has event.idempotencyKey = false := by
      unfold OrderedMap.has
      rw [hget]
      rfl
    rw [hhas]
    rfl
  | some existing =>
    have hhas : p.events.has event.idempotencyKey = true := by
      unfold OrderedMap.has
      rw [hget]
      rfl
    rw [hhas]
    obtain rfl := hsame existing hget
    exact OrderedMap.set_eq_self _ hget

theorem Mirrors.putAndAppend (h : w.Mirrors) (record : MirrorRecord) (event : MirrorEvent) :
    (w.putAndAppend record event).Mirrors := by
  unfold Watched.putAndAppend
  have hsound := h.tracked.sound.putAndAppend record event
  cases hput : w.store.putAndAppend record event with
  | mk s outcome =>
    rw [hput] at hsound
    cases outcome with
    | error err =>
      rw [putAndAppend_error h.tracked.sound hput]
      exact h
    | ok u =>
      obtain ⟨hacc, hrecords, hevents, hclosed, hagree⟩ :=
        putAndAppend_accepts h.tracked.sound h.tracked.ordered hput
      have heffects : s.effects w.store.created = [.record record, .event event] := by
        obtain ⟨dependencies, hext⟩ := hacc.extended
        unfold effects
        rw [hext.action_new]
      have htracked := h.tracked.accepts hacc hsound (by rw [heffects]; simp)
      rw [heffects] at htracked
      have hmem : event ∈ Watched.events { w with
          store := s
          accepted := w.accepted
            ++ [⟨w.store.created, .record record⟩, ⟨w.store.created, .event event⟩] } := by
        unfold Watched.events
        rw [List.flatMap_append]
        exact List.mem_append_right _ (List.mem_append_right _ List.mem_cons_self)
      refine ⟨htracked, fun memoryId => ?_, fun e he => ?_, fun hid => ?_, fun b hb => ?_⟩
      · show s.records.get? memoryId = (applyAll w.initial (w.accepted ++ _)).records.get? memoryId
        have hwrite : (applyAll (applyAll w.initial w.accepted)
            [⟨w.store.created, .record record⟩, ⟨w.store.created, .event event⟩]).records
            = (applyAll w.initial w.accepted).records.set record.memoryId record := by
          show (Persisted.apply _ (.event event)).records = _
          unfold Persisted.apply
          dsimp only
          split_ifs
          · rfl
          · rfl
        rw [hrecords, applyAll_append, hwrite, OrderedMap.get?_set, OrderedMap.get?_set, h.records]
      · rw [hevents] at he
        rcases OrderedMap.mem_values_set _ he with rfl | he
        · exact hmem
        · exact mem_events_append (h.known e he)
      · show s.events = (applyAll w.initial (w.accepted ++ _)).events
        rw [hevents, applyAll_append]
        have hmirror := h.events (hid.mono (fun e he => mem_events_append he))
        refine apply_event (p := (applyAll w.initial w.accepted).apply (.record record)) hmirror
          (fun existing hexisting => ?_)
        exact identified_of_not_conflicts hid
          (mem_events_append (h.known existing ((OrderedMap.mem_values _).mpr ⟨_, hexisting⟩))) hmem
          (hagree existing hexisting)
      · exact absurd (hclosed.symm.trans hb) nofun

theorem Mirrors.restore (h : w.Mirrors) (snapshot : MirrorSnapshot) : (w.restore snapshot).Mirrors := by
  unfold Watched.restore
  have hsound := h.tracked.sound.restore snapshot
  cases hput : w.store.restore snapshot with
  | mk s outcome =>
    rw [hput] at hsound
    cases outcome with
    | error err =>
      rw [restore_error h.tracked.sound hput]
      exact h
    | ok u =>
      obtain ⟨hacc, hrecords, hevents, hclosed⟩ :=
        restore_accepts h.tracked.sound h.tracked.ordered hput
      have heffects : s.effects w.store.created = [.restore snapshot] := by
        obtain ⟨dependencies, hext⟩ := hacc.extended
        unfold effects
        rw [hext.action_new]
      have htracked := h.tracked.accepts hacc hsound (by rw [heffects]; exact List.nodup_singleton _)
      rw [heffects] at htracked
      refine ⟨htracked, fun memoryId => ?_, fun e he => ?_, fun hid => ?_, fun b hb => ?_⟩
      · show s.records.get? memoryId = (applyAll w.initial (w.accepted ++ _)).records.get? memoryId
        rw [hrecords, applyAll_append]
        rfl
      · rw [hevents] at he
        rcases values_foldl_set he with he | he
        · unfold Watched.events
          rw [List.flatMap_append]
          refine List.mem_append_right _ (List.mem_append_right _ ?_)
          simpa using he
        · cases he
      · show s.events = (applyAll w.initial (w.accepted ++ _)).events
        rw [hevents, applyAll_append]
        rfl
      · exact absurd (hclosed.symm.trans hb) nofun

theorem Mirrors.joinBatch {w0 : Watched} {event : MirrorEvent} (puts : List Write) (h : w.Mirrors)
    (htracked : w0.Tracked) (hinitial : w0.initial = w.initial) (haccepted : w0.accepted = w.accepted)
    (hrecords : w0.store.records = w.store.records)
    (hevents : w0.store.events = w.store.events.set event.idempotencyKey event)
    (hopen : w0.store.eventBatch = some b) (hfail : w0.store.failure = none)
    (hsound : (w0.store.joinBatch b event).Sound)
    (hheld : ∀ event', .event event' ∈ w0.store.effects b → w.store.events.has event'.idempotencyKey = true)
    (hnew : w.store.events.has event.idempotencyKey = false)
    (hputs : ∀ x ∈ puts, x ∈ w0.accepted ∧ w0.pendingPut x = true) :
    Mirrors { w0 with
      store := w0.store.joinBatch b event
      accepted := w0.accepted ++ [⟨b, .event event⟩]
      awaited := w0.awaited ++ puts.map (fun put => (put, ⟨b, .event event⟩)) } := by
  have hfresh : Effect.event event ∉ w0.store.effects b := by
    intro hmem
    rw [hheld event hmem] at hnew
    cases hnew
  have hold : ∀ e ∈ w.events, e ∈ w0.events := by
    intro e he
    unfold Watched.events at he ⊢
    rw [hinitial, haccepted]
    exact he
  have hbaction := (htracked.sound.typed.opened b hopen).2
  refine ⟨htracked.joinBatch hopen hfail hsound hfresh hputs, fun memoryId => ?_, fun e he => ?_,
    fun hid => ?_, fun b' hb' event' hmem => ?_⟩
  · show w0.store.records.get? memoryId = (applyAll w0.initial (w0.accepted ++ _)).records.get? memoryId
    rw [hrecords, applyAll_append, hinitial, haccepted, h.records]
    show _ = (Persisted.apply _ (.event event)).records.get? memoryId
    unfold Persisted.apply
    dsimp only
    split_ifs
    · rfl
    · rfl
  · change e ∈ w0.store.events.values at he
    rw [hevents] at he
    rcases OrderedMap.mem_values_set _ he with rfl | he
    · unfold Watched.events
      rw [List.flatMap_append]
      exact List.mem_append_right _ (List.mem_append_right _ List.mem_cons_self)
    · exact mem_events_append (hold e (h.known e he))
  · show w0.store.events = (applyAll w0.initial (w0.accepted ++ _)).events
    rw [hevents, applyAll_append, hinitial, haccepted]
    have hmirror := h.events (hid.mono (fun e he => mem_events_append (hold e he)))
    refine apply_event hmirror fun existing hexisting => ?_
    unfold OrderedMap.has at hnew
    rw [hexisting] at hnew
    cases hnew
  · change (w0.store.joinBatch b event).eventBatch = some b' at hb'
    have hb' := joinBatch_opened w0.store b event hb'
    obtain rfl := Option.some.inj (hopen.symm.trans hb')
    show w0.store.events.has event'.idempotencyKey = true
    rw [hevents, OrderedMap.has_eq_true, OrderedMap.mem_keys_set]
    change Effect.event event' ∈ (w0.store.joinBatch b event).effects b at hmem
    rw [effects_joinBatch hbaction] at hmem
    rcases List.mem_append.mp hmem with hmem | hmem
    · exact .inr ((OrderedMap.has_eq_true _).mp (hheld event' hmem))
    · exact .inl (by rw [Effect.event.inj (List.mem_singleton.mp hmem)])

theorem Mirrors.appendEvent (h : w.Mirrors) (event : MirrorEvent) : (w.appendEvent event).Mirrors := by
  unfold Watched.appendEvent
  have hsound := h.tracked.sound.appendEvent event
  cases happend : w.store.appendEvent event with
  | mk s outcome =>
    rw [happend] at hsound
    cases outcome with
    | error err =>
      rw [appendEvent_error h.tracked.sound happend]
      exact h
    | ok u =>
      dsimp only at hsound ⊢
      rcases appendEvent_accepts h.tracked.sound h.tracked.ordered happend with
        ⟨hhas, rfl⟩ | ⟨hnew, hfail, s1, b, hopened, hsound1, hordered1, hrecords, hevents, hopen, rfl⟩
      · rw [if_pos hhas]
        exact h
      · rw [if_neg (by simp [hnew])]
        have hputs : ∀ x ∈ w.accepted.filter w.pendingPut,
            x ∈ w.accepted ∧ (w.store.task x.task).settled = false ∧ w.pendingPut x = true := by
          intro x hx
          obtain ⟨hx, hpending⟩ := List.mem_filter.mp hx
          refine ⟨hx, ?_, hpending⟩
          unfold pendingPut at hpending
          cases heffect : x.effect with
          | record record =>
            rw [heffect] at hpending
            simpa using hpending
          | event event =>
            rw [heffect] at hpending
            cases hpending
          | restore snapshot =>
            rw [heffect] at hpending
            cases hpending
        rcases hopened with ⟨hbatch, rfl⟩ | ⟨hbatch, rfl, hacc, hempty⟩
        · have htracked : Tracked { w with store := { w.store with
              events := w.store.events.set event.idempotencyKey event } } :=
            h.tracked.moves_nil (Moves.of_tasks h.tracked.sound.graph rfl rfl rfl rfl rfl) hsound1 (fun _ => hordered1) rfl
          have hjoin := Mirrors.joinBatch (w.accepted.filter w.pendingPut) h htracked rfl rfl
            hrecords hevents hopen hfail hsound (fun event' hmem => h.held b hbatch event' hmem) hnew
            (fun x hx => ⟨(hputs x hx).1, (hputs x hx).2.2⟩)
          have hb : w.store.eventBatch.getD w.store.created = b := by
            rw [hbatch]
            rfl
          rw [hb]
          exact hjoin
        · have heffects : s1.effects w.store.created = [] := by
            obtain ⟨dependencies, hext⟩ := hacc.extended
            unfold effects
            rw [hext.action_new, hempty]
            rfl
          have htracked : Tracked { w with store := s1 } := by
            have haccepts := h.tracked.accepts hacc hsound1 (by rw [heffects]; exact List.nodup_nil)
            rwa [heffects, List.map_nil, List.append_nil] at haccepts
          have hjoin := Mirrors.joinBatch (w.accepted.filter w.pendingPut) h htracked rfl rfl
            hrecords hevents hopen hacc.failure_new hsound (fun event' hmem => ?_) hnew
            (fun x hx => ⟨(hputs x hx).1, ?_⟩)
          · have hb : w.store.eventBatch.getD w.store.created = w.store.created := by
              rw [hbatch]
              rfl
            rw [hb]
            exact hjoin
          · change Effect.event event' ∈ s1.effects w.store.created at hmem
            rw [heffects] at hmem
            cases hmem
          · obtain ⟨hx, hset, hpending⟩ := hputs x hx
            obtain ⟨dependencies, hext⟩ := hacc.extended
            have hne := Nat.ne_of_lt (h.tracked.accepted_lt x hx)
            unfold pendingPut at hpending ⊢
            rw [hset] at hpending
            dsimp only
            rw [hext.settled x.task hne, hset]
            exact hpending

theorem PersistStep.mirrors {step : WatchedStep} (h : w.Mirrors) (hstep : PersistStep w step w') : w'.Mirrors := by
  have hjobs : ∀ {job : MirrorStep} {s : DurableMirrorStore} {applied : Nat → Nat}, JobStep w.store job s → Tracked { w with
        store := s
        applied := applied } → Mirrors { w with
        store := s
        applied := applied } := by
    intro job s applied hjob htracked
    have hframe := JobStep.frame h.tracked.sound.graph hjob
    obtain ⟨-, hrecords, hevents⟩ : _ ∧ s.records = w.store.records ∧ s.events = w.store.events := by
      simpa only [fixed, Prod.mk.injEq] using JobStep.fixed_eq hjob
    exact h.still htracked hrecords hevents hframe.opened fun b _ => hframe.effects b
  cases hstep with
  | put record => exact h.put record
  | putAndAppend record event => exact h.putAndAppend record event
  | appendEvent event => exact h.appendEvent event
  | restore snapshot => exact h.restore snapshot
  | flush => exact h
  | close =>
    have htracked := h.tracked.moves_nil (s := w.store.close)
      (Moves.of_tasks h.tracked.sound.graph rfl rfl rfl rfl rfl) h.tracked.sound.close
      (fun hf => (h.tracked.ordered hf).congr rfl rfl rfl rfl rfl rfl rfl rfl (fun _ hb => hb)) rfl
    exact h.still htracked rfl rfl (fun _ hb => hb) (fun _ _ => rfl)
  | job hjob hne => exact hjobs hjob (h.tracked.job hjob hne)
  | resolves ht hphase happlied =>
    exact hjobs (JobStep.callSettles ht hphase) (h.tracked.resolves ht hphase happlied)
  | rejects ht hphase =>
    exact hjobs (JobStep.callSettles ht hphase) (h.tracked.rejects ht hphase)
  | reaches ht hphase heffect =>
    exact h.still (h.tracked.reaches ht hphase heffect) rfl rfl (fun _ hb => hb) (fun _ _ => rfl)

theorem create_mirrors (persistent : PersistentMethods) (concurrency : WriteConcurrency)
    (maxPendingWrites : PendingLimit) (snapshot : MirrorSnapshot) :
    Mirrors { store := create persistent concurrency maxPendingWrites snapshot
              initial := .ofSnapshot snapshot
              accepted := []
              reached := []
              applied := fun _ => 0
              awaited := [] } := by
  have hsound := create_sound persistent concurrency maxPendingWrites snapshot
  unfold create at hsound ⊢
  obtain ⟨freshness, hload⟩ := loadSnapshot_eq _ snapshot
  rw [hload] at hsound ⊢
  refine ⟨⟨hsound, fun _ => ⟨nofun, nofun, nofun, nofun, nofun, nofun, nofun⟩, nofun, nofun, nofun,
    nofun, fun _ _ => ⟨rfl, rfl⟩, nofun, nofun, nofun, nofun, nofun, fun _ _ => List.Pairwise.nil,
    fun _ _ => List.prefix_rfl, nofun⟩, fun _ => rfl, fun e he => ?_, fun _ => rfl, nofun⟩
  exact List.mem_append_left _ he

theorem persistence_mirrors {concurrency : WriteConcurrency} {maxPendingWrites : PendingLimit}
    (h : (persistence concurrency maxPendingWrites).Reachable w) : w.Mirrors := by
  refine h.invariant Mirrors (fun w hw => ?_) (fun w step w' hw hstep => PersistStep.mirrors hw hstep)
  obtain ⟨persistent, snapshot, rfl⟩ := hw
  exact create_mirrors persistent concurrency maxPendingWrites snapshot

theorem Tracked.accepted_nodup (h : w.Tracked) : w.accepted.Nodup := by
  rw [List.nodup_iff_count_le_one]
  intro x
  by_cases hx : x ∈ w.accepted
  · have hlt := h.accepted_lt x hx
    have hnodup : (w.accepted.filter (fun y => decide (y.task = x.task))).Nodup := by
      rw [filter_task]
      refine List.Nodup.map (fun e e' heq => (Write.mk.inj heq).2) ?_
      have heq := h.accepted x.task hlt
      unfold acceptedBy at heq
      rw [heq]
      exact h.distinct x.task hlt
    rw [← List.count_filter (p := fun y => decide (y.task = x.task)) (decide_eq_true rfl)]
    exact List.nodup_iff_count_le_one.mp hnodup x
  · rw [List.count_eq_zero_of_not_mem hx]
    exact Nat.zero_le 1

theorem Tracked.reached_nodup (h : w.Tracked) : w.reached.Nodup := by
  rw [List.nodup_iff_count_le_one]
  intro x
  obtain ⟨p, hp, hpx⟩ := exists_orderedBy x.effect
  rw [← List.count_filter (p := fun y => p y.effect) hpx]
  refine ((h.reached p hp).sublist.count_le x).trans ?_
  exact List.nodup_iff_count_le_one.mp (h.accepted_nodup.filter _) x

theorem before_of_prefix {l l' : List Write} {x y : Write} (hl : l <+: l') (hnodup : l'.Nodup)
    (h : Before l' x y) (hy : y ∈ l) : Before l x y := by
  obtain ⟨rest, rfl⟩ := hl
  have hrest : y ∉ rest := fun hy' => (List.nodup_append.mp hnodup).2.2 y hy y hy' rfl
  obtain ⟨l1, l2, heq, h1, h2⟩ := List.sublist_append_iff.mp h
  have hl2 : y ∉ l2 := fun hy' => hrest (h2.subset hy')
  have hempty : l2 = [] := by
    cases l1 with
    | nil =>
      obtain rfl : [x, y] = l2 := heq
      exact absurd (List.mem_cons_of_mem x (List.mem_singleton_self y)) hl2
    | cons a l1 =>
      obtain ⟨-, heq⟩ := List.cons.inj heq
      cases l1 with
      | nil =>
        obtain rfl : [y] = l2 := heq
        exact absurd (List.mem_singleton_self y) hl2
      | cons a' l1 =>
        obtain ⟨-, heq⟩ := List.cons.inj heq
        exact (List.append_eq_nil_iff.mp heq.symm).2
  rw [hempty, List.append_nil] at heq
  subst heq
  exact h1

theorem exists_common_order {x y : Effect} (h : (x.isRestore || y.isRestore) = true) :
    ∃ p, Effect.OrderedBy p ∧ p x = true ∧ p y = true := by
  have hrestore : ∀ {e : Effect}, e.isRestore = true → ∀ p, Effect.OrderedBy p → p e = true := by
    intro e he p hp
    cases e with
    | record | event => cases he
    | restore snapshot =>
      rcases hp with ⟨memoryId, rfl⟩ | rfl
      · rfl
      · rfl
  rcases Bool.or_eq_true_iff.mp h with hx | hy
  · obtain ⟨p, hp, hpy⟩ := exists_orderedBy y
    exact ⟨p, hp, hrestore hx p hp, hpy⟩
  · obtain ⟨p, hp, hpx⟩ := exists_orderedBy x
    exact ⟨p, hp, hpx, hrestore hy p hp⟩

theorem Tracked.inOrder (h : w.Tracked) : w.InOrder where
  once := ⟨h.accepted_nodup, h.reached_nodup⟩
  memory := fun memoryId => h.reached _ (Or.inl ⟨memoryId, rfl⟩)
  events := h.reached _ (Or.inr rfl)
  afterPuts := fun p hp hy => (h.awaited p.1 p.2 hp).2.2.2.2 hy
  barrier := by
    intro x y hbefore hrestore hy
    obtain ⟨p, hp, hpx, hpy⟩ := exists_common_order hrestore
    have hfiltered : Before (w.accepted.filter (fun z => p z.effect)) x y := by
      have hsub := List.Sublist.filter (fun z : Write => p z.effect) hbefore
      rwa [List.filter_cons, if_pos hpx, List.filter_cons, if_pos hpy, List.filter_nil] at hsub
    have hbefore' := before_of_prefix (h.reached p hp) (h.accepted_nodup.filter _) hfiltered (List.mem_filter.mpr ⟨hy, hpy⟩)
    exact hbefore'.trans List.filter_sublist

theorem applyAll_records (p : Persisted) (memoryId : String) (l : List Write) {p' : Persisted}
    (hp : p.records.get? memoryId = p'.records.get? memoryId) :
    (applyAll p l).records.get? memoryId = (applyAll p' (l.filter (fun x => x.effect.writesMemory memoryId))).records.get?
          memoryId := by
  induction l generalizing p p' with
  | nil => exact hp
  | cons x l ih =>
    show (applyAll (p.apply x.effect) l).records.get? memoryId = _
    by_cases hx : x.effect.writesMemory memoryId = true
    · rw [List.filter_cons, if_pos hx]
      refine ih _ (?_ : _ = (p'.apply x.effect).records.get? memoryId)
      cases heffect : x.effect with
      | record record =>
        show (p.records.set record.memoryId record).get? memoryId = (p'.records.set record.memoryId record).get? memoryId
        rw [OrderedMap.get?_set, OrderedMap.get?_set, hp]
      | event event =>
        rw [heffect] at hx
        cases hx
      | restore snapshot => rfl
    · rw [List.filter_cons, if_neg hx]
      refine ih _ (Eq.trans ?_ hp)
      cases heffect : x.effect with
      | record record =>
        rw [heffect] at hx
        have hne : memoryId ≠ record.memoryId := fun h => hx (decide_eq_true h.symm)
        exact OrderedMap.get?_set_of_ne _ _ hne
      | event event =>
        unfold Persisted.apply
        dsimp only
        split_ifs
        · rfl
        · rfl
      | restore snapshot =>
        rw [heffect] at hx
        exact absurd rfl hx

theorem applyAll_events (p : Persisted) (l : List Write) {p' : Persisted}
    (hp : p.events = p'.events) : (applyAll p l).events
      = (applyAll p' (l.filter (fun x => x.effect.writesEvents))).events := by
  induction l generalizing p p' with
  | nil => exact hp
  | cons x l ih =>
    show (applyAll (p.apply x.effect) l).events = _
    by_cases hx : x.effect.writesEvents = true
    · rw [List.filter_cons, if_pos hx]
      refine ih _ (?_ : _ = (p'.apply x.effect).events)
      cases heffect : x.effect with
      | record record =>
        rw [heffect] at hx
        cases hx
      | event event =>
        unfold Persisted.apply
        dsimp only
        rw [hp]
        split_ifs
        · exact hp
        · rfl
      | restore snapshot => rfl
    · rw [List.filter_cons, if_neg hx]
      refine ih _ (Eq.trans ?_ hp)
      cases heffect : x.effect with
      | record record => rfl
      | event event =>
        rw [heffect] at hx
        exact absurd rfl hx
      | restore snapshot =>
        rw [heffect] at hx
        exact absurd rfl hx

/-- Once every task is settled, every accepted write has reached the persistent store. -/
theorem Tracked.reached_all (h : w.Tracked) (hfail : w.store.failure = none)
    (hdrained : ∀ t, t ∉ w.store.tasks) {p : Effect → Bool} (hp : Effect.OrderedBy p) :
    w.reached.filter (fun x => p x.effect) = w.accepted.filter (fun x => p x.effect) := by
  refine @eq_of_prefix_of_filter_eq _ Write.task _ _ (h.reached p hp) fun x hx => ?_
  have hlt := h.accepted_lt x (List.mem_filter.mp hx).1
  have hcomplete := h.settled hfail x.task hlt (h.sound.graph.settled_of_not_mem hlt (hdrained x.task))
  have heq := hcomplete.trans (h.accepted x.task hlt).symm
  rw [filter_order_task, filter_order_task]
  exact congrArg (fun l => (l.filter p).map (Write.mk x.task)) heq

theorem Mirrors.mirrored (h : w.Mirrors) : w.Mirrored := by
  intro hfail hdrained hid
  constructor
  · intro memoryId
    show (applyAll w.initial w.reached).records.get? memoryId = _
    rw [h.records, applyAll_records w.initial memoryId w.reached rfl, applyAll_records w.initial memoryId w.accepted rfl,
      h.tracked.reached_all hfail hdrained (Or.inl ⟨memoryId, rfl⟩)]
  · show (applyAll w.initial w.reached).events = _
    rw [h.events hid, applyAll_events w.initial w.reached rfl,
      applyAll_events w.initial w.accepted rfl, h.tracked.reached_all hfail hdrained (Or.inr rfl)]

end Watched

namespace DurableMirrorStore

variable {s s' : DurableMirrorStore} {failure : JsError}

section

variable (h : s.failure = some failure)
include h

theorem ensureWritable_failed : s.ensureWritable = .error failure := by
  unfold ensureWritable
  rw [h]

theorem put_failed (record : MirrorRecord) : s.put record = (s, .error failure) := by
  unfold put
  rw [ensureWritable_failed h]

theorem putAndAppend_failed (record : MirrorRecord)
    (event : MirrorEvent) : s.putAndAppend record event = (s, .error failure) := by
  unfold putAndAppend
  rw [ensureWritable_failed h]

theorem appendEvent_failed (event : MirrorEvent) : s.appendEvent event = (s, .error failure) := by
  unfold appendEvent
  rw [ensureWritable_failed h]

theorem restore_failed (snapshot : MirrorSnapshot) : s.restore snapshot = (s, .error failure) := by
  unfold restore
  rw [ensureWritable_failed h]

end

/-- From the failure on no task is started. -/
structure Halted (failure : JsError) (s s' : DurableMirrorStore) : Prop where
  failure : s'.failure = some failure
  started : ∀ t, (s'.task t).started = true → (s.task t).started = true

theorem setPhase_halted (h : s.failure = some failure) (t : Nat) (phase : TaskPhase) :
    Halted failure s (s.setPhase t phase) :=
  ⟨h, fun x hx => by rwa [setPhase_task] at hx⟩

theorem issue_halted (h : s.failure = some failure) (t : Nat) (calls : List PersistentCall) :
    Halted failure s (s.issue t calls) := by
  cases calls with
  | nil | cons => exact setPhase_halted h t _

theorem Cancelled.halted (hc : Cancelled s s') (h : s.failure = some failure) : Halted failure s s' :=
  ⟨hc.kept.failure.trans h, fun t ht => by rwa [hc.started] at ht⟩

theorem JobStep.halted {job : MirrorStep} (hg : s.TaskGraph) (h : s.failure = some failure)
    (hstep : JobStep s job s') : Halted failure s s' := by
  have hfail : s.failure ≠ none := by rw [h]; nofun
  cases hstep with
  | @runAction t ht hphase =>
    unfold DurableMirrorStore.runAction
    split
    · exact issue_halted h t _
    · split_ifs
      · exact issue_halted h t _
      · exact issue_halted h t _
    · exact setPhase_halted h t _
    · exact issue_halted h t _
  | @fireImmediate t ht hphase =>
    exact ⟨h, fun x hx => by
      unfold DurableMirrorStore.fireImmediate at hx
      rwa [setPhase_task] at hx⟩
  | @dependenciesSettled t l ht hphase _ =>
    unfold DurableMirrorStore.dependenciesSettled
    split
    · exact setPhase_halted h t _
    · exact issue_halted h t _
  | @callSettles t call rest outcome ht hphase =>
    cases outcome with
    | ok u => exact issue_halted h t rest
    | error err => exact setPhase_halted h t _
  | @actionReturned t error ht hphase =>
    cases error with
    | none => exact (settle_cancelled hg hfail none).halted h
    | some err =>
      -- the first failure stays
      have hsame : ({ s with failure := s.failure.or (some err) } : DurableMirrorStore) = s := by
        rw [h]
        show ({ s with failure := some failure } : DurableMirrorStore) = s
        rw [← h]
      unfold DurableMirrorStore.actionReturned
      dsimp only
      rw [hsame]
      obtain ⟨hg1, hkept1, -⟩ := settle_kept (t := t) hg (some err)
      refine ((settle_cancelled hg hfail (some err)).trans (cancelQueued_cancelled hg1 ?_ _)).halted h
      rw [hkept1.failure]
      exact hfail
  | writeDone ht => exact ⟨h, fun _ hx => hx⟩

end DurableMirrorStore

namespace Watched

open DurableMirrorStore

variable {w w' : Watched} {failure : JsError}

theorem PersistStep.halted {step : WatchedStep} (hg : w.store.TaskGraph)
    (h : w.store.failure = some failure) (hstep : PersistStep w step w') :
    Halted failure w.store w'.store := by
  have hstill : Halted failure w.store w.store := ⟨h, fun _ ht => ht⟩
  cases hstep with
  | put record =>
    unfold Watched.put
    rw [put_failed h]
    exact hstill
  | putAndAppend record event =>
    unfold Watched.putAndAppend
    rw [putAndAppend_failed h]
    exact hstill
  | appendEvent event =>
    unfold Watched.appendEvent
    rw [appendEvent_failed h]
    exact hstill
  | restore snapshot =>
    unfold Watched.restore
    rw [restore_failed h]
    exact hstill
  | flush => exact hstill
  | close => exact ⟨h, fun _ ht => ht⟩
  | job hjob hne => exact JobStep.halted hg h hjob
  | @resolves t call rest ht hphase happlied =>
    exact JobStep.halted hg h (JobStep.callSettles ht hphase : JobStep w.store (.callSettles t (.ok ())) _)
  | @rejects t call rest err ht hphase =>
    exact JobStep.halted hg h (JobStep.callSettles ht hphase : JobStep w.store (.callSettles t (.error err)) _)
  | reaches ht hphase heffect => exact hstill

theorem Mirrors.failsClosed (h : w.Mirrors) : w.FailsClosed := by
  intro failure hfail w' hrun
  have hinv : w'.Mirrors ∧ Halted failure w.store w'.store := by
    refine hrun.invariant (fun w' => w'.Mirrors ∧ Halted failure w.store w'.store) ?_ ?_
    · rintro _ rfl
      exact ⟨h, hfail, fun _ ht => ht⟩
    · rintro w₁ step w₂ ⟨hmirrors, hhalted⟩ hstep
      have hnext := PersistStep.halted hmirrors.tracked.sound.graph hhalted.failure hstep
      exact ⟨PersistStep.mirrors hmirrors hstep, hnext.failure, fun t ht => hhalted.started t (hnext.started t ht)⟩
  obtain ⟨-, hfailed, hstarted⟩ := hinv
  exact ⟨hstarted, put_failed hfailed, putAndAppend_failed hfailed, appendEvent_failed hfailed, restore_failed hfailed⟩

/-- The writes reach the persistent store in order. Once drained, the persistent store has the content
    of the mirror, and after a failure nothing more is started. -/
theorem persists_in_order {concurrency : WriteConcurrency} {maxPendingWrites : PendingLimit}
    (h : (persistence concurrency maxPendingWrites).Reachable w) :
    w.InOrder ∧ w.Mirrored ∧ w.FailsClosed := by
  have hmirrors := persistence_mirrors h
  exact ⟨hmirrors.tracked.inOrder, hmirrors.mirrored, hmirrors.failsClosed⟩

def writtenRecord : MirrorRecord := ⟨"memory", none, "memory"⟩

/-- A record that has reached the persistent store. -/
theorem persists_in_order_put : ∃ w,
    (persistence ⟨1, by decide, by decide⟩ ⟨1, by decide, by decide⟩).Reachable w ∧
      w.reached = [⟨0, .record writtenRecord⟩] ∧ w.InOrder ∧ w.Mirrored ∧ w.FailsClosed := by
  generalize hM : persistence ⟨1, by decide, by decide⟩ ⟨1, by decide, by decide⟩ = M
  have h₀ : M.Reachable
      { store := create ⟨true, true⟩ ⟨1, by decide, by decide⟩ ⟨1, by decide, by decide⟩ ⟨[], []⟩
        initial := .ofSnapshot ⟨[], []⟩
        accepted := []
        reached := []
        applied := fun _ => 0
        awaited := [] } := by
    rw [← hM]
    exact System.Reachable.init ⟨⟨true, true⟩, ⟨[], []⟩, rfl⟩
  have hstep : ∀ {w w' step}, M.Reachable w → PersistStep w step w' → M.Reachable w' := by
    rw [← hM]
    exact fun h hs => h.step hs
  have h₁ := hstep h₀ (PersistStep.put writtenRecord)
  cbv at h₁
  have h₂ := hstep h₁ (PersistStep.job (JobStep.runAction (List.mem_singleton.mpr rfl) rfl) (by simp))
  cbv at h₂
  have h₃ := hstep h₂ (PersistStep.reaches (t := 0) (List.mem_singleton.mpr rfl) rfl rfl)
  cbv at h₃
  refine ⟨_, h₃, rfl, ?_⟩
  subst hM
  exact persists_in_order h₃

end Watched

end Premise.DurableMirror
