import Premise.Control.Except
import Premise.Reference.Proofs.AtomicityProofs

/-!
# Proofs: what a validation reports

The results of a validation are applied one after the other, and each memory is reported as soon as its own result
is. What the results that follow do to it is not reported any more.
-/

namespace Premise.Reference

open Collections Control Premise.Graph Js Protocol Protocol.V1 Relation

namespace MemoryStateStore

variable {s s' s'' : MemoryStateStore} {clock : Option Int} {done : List Prepared}

/-! ## Records with results applied -/

/-- The record of a memory with the results applied at an instant: it is marked with its own result, and its expiry
    is evaluated when it is or depends on one of the memories that have results. -/
def withResults (s : MemoryStateStore) (clock : Option Int) (done : List Prepared) (memoryId : String)
    (r : StateRecord) : StateRecord :=
  let marked := (done.filter (fun item => item.memoryId = memoryId)).foldl
    (fun r item => markedRecord (statusForResult item.result.result) r) r
  if done.any (fun item => s.graph.hasPath memoryId item.memoryId) then evaluated clock marked else marked

def ownWith (s : MemoryStateStore) (clock : Option Int) (done : List Prepared) (memoryId : String) : MemoryStatus :=
  ((s.records.get? memoryId).map (fun r => (s.withResults clock done memoryId r).own)).getD .unknown

def uncached (r : StateRecord) : StateRecord := { r with status := .unknown }

theorem own_uncached (r : StateRecord) : (uncached r).own = r.own := rfl

theorem isTtl_uncached (r : StateRecord) : (uncached r).isTtl = r.isTtl := rfl

theorem uncached_markedRecord (status : MemoryStatus) (r : StateRecord) :
    uncached (markedRecord status r) = markedRecord status (uncached r) := rfl

theorem uncached_evaluated (clock : Option Int) (r : StateRecord) :
    uncached (evaluated clock r) = evaluated clock (uncached r) := by
  unfold evaluated
  rw [isTtl_uncached]
  split_ifs
  · rfl
  · rfl

theorem evaluated_evaluated (clock : Option Int) (r : StateRecord) :
    evaluated clock (evaluated clock r) = evaluated clock r := by
  by_cases httl : r.isTtl = true
  · unfold evaluated
    rw [if_pos httl]
    exact if_pos httl
  · rw [Bool.not_eq_true] at httl
    have hsame : evaluated clock r = r := evaluated_of_not_ttl httl
    rw [hsame, hsame]

theorem markedRecord_evaluated (status : MemoryStatus) (clock : Option Int) (r : StateRecord) :
    markedRecord status (evaluated clock r) = evaluated clock (markedRecord status r) := by
  have hsame : (markedRecord status r).isTtl = r.isTtl := rfl
  unfold evaluated
  rw [hsame]
  split_ifs
  · rfl
  · rfl

theorem withResults_concat (s : MemoryStateStore) (clock : Option Int) (done : List Prepared) (item : Prepared)
    (id : String) (r : StateRecord) :
    s.withResults clock (done ++ [item]) id r =
      let marked := if item.memoryId = id
        then markedRecord (statusForResult item.result.result) (s.withResults clock done id r)
        else s.withResults clock done id r
      if s.graph.hasPath id item.memoryId then evaluated clock marked else marked := by
  unfold withResults
  rw [List.filter_append, List.foldl_append, List.any_append]
  generalize (done.filter (fun item => item.memoryId = id)).foldl
    (fun r item => markedRecord (statusForResult item.result.result) r) r = marked
  rw [List.any_cons, List.any_nil, Bool.or_false]
  generalize done.any (fun item => s.graph.hasPath id item.memoryId) = earlier
  generalize s.graph.hasPath id item.memoryId = now
  by_cases hid : item.memoryId = id
  · rw [if_pos hid, List.filter_cons_of_pos (by simpa using hid)]
    cases earlier <;> cases now <;> simp [markedRecord_evaluated, evaluated_evaluated]
  · rw [if_neg hid, List.filter_cons_of_neg (by simpa using hid)]
    cases earlier <;> cases now <;> simp [evaluated_evaluated]

/-- The results have been applied to the store, apart from cached statuses. -/
structure Applied (s : MemoryStateStore) (clock : Option Int) (done : List Prepared) (s' : MemoryStateStore) :
    Prop where
  sound : Sound s'
  updated : Updated s s'
  records : ∀ id r, s.records.get? id = some r → ∃ r', s'.records.get? id = some r' ∧
    uncached r' = uncached (s.withResults clock done id r)

theorem applied_nil (h : Sound s) (clock : Option Int) : Applied s clock [] s :=
  ⟨h, Updated.refl s, fun _ r hget => ⟨r, hget, rfl⟩⟩

theorem records_of_mark (h : Sound s) {memoryId : String} {status : MemoryStatus} {changes : List StatusChange}
    (hmark : s.markStatusesWithPrevious clock [memoryId] status = (s', .ok changes)) :
    Sound s' ∧ Updated s s' ∧ memoryId ∈ s.records.keys ∧
      ∀ id r, s.records.get? id = some r → ∃ r', s'.records.get? id = some r' ∧
        uncached r' = uncached (let marked := if memoryId = id then markedRecord status r else r
          if s.graph.hasPath id memoryId then evaluated clock marked else marked) := by
  have hsound := (@effect_mark s clock (fun _ => False) h [memoryId] status).sound
  rw [hmark] at hsound
  rcases mark_cases h.framed clock [memoryId] status with
    ⟨err, heq, -⟩ | ⟨hknown, marked, s2, hmarked, heq, hcase⟩
  · rw [hmark] at heq
    cases (Prod.mk.inj heq).2
  rw [hmark] at heq
  obtain ⟨rfl, -⟩ := Prod.mk.inj heq
  have hframed := h.framed.updated hmarked.updated
  have hget : ∀ id r, s.records.get? id = some r →
      marked.records.get? id = some (if memoryId = id then markedRecord status r else r) := by
    intro id r hget
    by_cases hid : memoryId = id
    · rw [if_pos hid]
      exact hmarked.inside id (by simp [hid]) r hget
    · rw [if_neg hid, hmarked.outside id (by simpa using Ne.symm hid), hget]
  have haffected : ∀ id, id ∈ marked.collectDependents (unique [memoryId]) ↔ s.graph.hasPath id memoryId = true := by
    intro id
    rw [mem_collectDependents hframed.graph, DependencyGraph.hasPath_iff, hmarked.updated.graph]
    simp
  have hupdated : Updated s s' := by
    rcases hcase with hrecomputed | ⟨rfl, -, -⟩
    · exact hmarked.updated.trans hrecomputed.updated
    · exact hmarked.updated
  refine ⟨hsound, hupdated, hknown memoryId (List.mem_singleton_self _), fun id r hold => ?_⟩
  by_cases hid : s.graph.hasPath id memoryId = true
  · rw [if_pos hid]
    rcases hcase with hrecomputed | ⟨rfl, -, hfree⟩
    · exact ⟨_, hrecomputed.inside id ((haffected id).mpr hid) _ (hget id r hold), rfl⟩
    · refine ⟨_, hget id r hold, ?_⟩
      rw [evaluated_of_not_ttl (hfree id ((haffected id).mpr hid) _ (hget id r hold))]
  · rw [if_neg hid]
    rcases hcase with hrecomputed | ⟨rfl, -, -⟩
    · exact ⟨_, (hrecomputed.outside id (mt (haffected id).mp hid)).trans (hget id r hold), rfl⟩
    · exact ⟨_, hget id r hold, rfl⟩

theorem Applied.mark (h : Applied s clock done s') {item : Prepared} {changes : List StatusChange}
    (hmark : s'.markStatusesWithPrevious clock [item.memoryId] (statusForResult item.result.result) = (s'', .ok changes)) :
    Applied s clock (done ++ [item]) s'' ∧ item.memoryId ∈ s.records.keys := by
  obtain ⟨hsound, hupdated, hknown, hrecords⟩ := records_of_mark h.sound hmark
  refine ⟨⟨hsound, h.updated.trans hupdated, fun id r hget => ?_⟩, (h.updated.mem_keys _).mp hknown⟩
  obtain ⟨r', hget', hsame⟩ := h.records id r hget
  obtain ⟨r'', hget'', hnext⟩ := hrecords id r' hget'
  refine ⟨r'', hget'', ?_⟩
  rw [hnext, withResults_concat, h.updated.graph]
  split_ifs <;> simp only [uncached_evaluated, uncached_markedRecord, hsame]

theorem Applied.own (h : Applied s clock done s') : s'.ownStatus = s.ownWith clock done := by
  funext id
  unfold ownWith
  cases hget : s.records.get? id with
  | none =>
    unfold ownStatus
    rw [h.updated.unknown id hget]
    rfl
  | some r =>
    obtain ⟨r', hget', hsame⟩ := h.records id r hget
    rw [ownStatus_eq hget', ← own_uncached, hsame]
    rfl

theorem Applied.aggregate (h : Applied s clock done s') {id : String} (hid : id ∈ s.records.keys) :
    Aggregate (s.ownWith clock done) s.dependsOn id (s'.dependencyStatus id) := by
  have hcached := aggregate_cached h.sound ((h.updated.mem_keys id).mpr hid)
  rw [h.own, show s'.dependsOn = s.dependsOn from funext h.updated.dependsOn] at hcached
  exact hcached

end MemoryStateStore

variable {s : MemoryStateStore} {done : List Prepared}

namespace ReferenceProtocol

open MemoryStateStore

variable {p p' : ReferenceProtocol} {clock : Option Int} {g : DependencyGraph} {requested : List String}

/-- The order lists the visited memories once, and they are requested ones. -/
structure Visited (requested : List String) (o : VisitOrder) : Prop where
  nodup : o.order.Nodup
  mem : ∀ a, a ∈ o.order ↔ a ∈ o.visited
  apart : ∀ a ∈ o.visiting, a ∉ o.visited
  requested : ∀ a ∈ o.order, a ∈ requested

/-- A visit adds to what has been visited, and ends with the memories that were being visited. -/
structure Extends (requested : List String) (o o' : VisitOrder) : Prop where
  visited : Visited requested o'
  visiting : o'.visiting = o.visiting
  kept : ∀ a ∈ o.visited, a ∈ o'.visited

theorem Extends.trans {o o' o'' : VisitOrder} (h : Extends requested o o') (h' : Extends requested o' o'') :
    Extends requested o o'' :=
  ⟨h'.visited, h'.visiting.trans h.visiting, fun a ha => h'.kept a (h.kept a ha)⟩

theorem extends_foldlM {depth : Nat} (hvisit : ∀ o memoryId o', memoryId ∈ requested → Visited requested o →
      visit g requested depth o memoryId = .ok o' → Extends requested o o' ∧ memoryId ∈ o'.visited)
    {l : List String} (hl : ∀ d ∈ l, d ∈ requested) {o o' : VisitOrder} (ho : Visited requested o)
    (h : l.foldlM (visit g requested depth) o = .ok o') :
    Extends requested o o' ∧ ∀ d ∈ l, d ∈ o'.visited := by
  refine of_foldlM_ok (fun done o1 => Extends requested o o1 ∧ ∀ d ∈ done, d ∈ o1.visited) ?_
    ⟨⟨ho, rfl, fun _ ha => ha⟩, nofun⟩ h
  rintro done d hd o1 o2 ⟨hextends, hall⟩ hstep
  obtain ⟨hnext, hnew⟩ := hvisit o1 d o2 (hl d hd) hextends.visited hstep
  refine ⟨hextends.trans hnext, fun a ha => ?_⟩
  rcases List.mem_append.mp ha with ha | ha
  · exact hnext.kept a (hall a ha)
  · rw [List.mem_singleton.mp ha]
    exact hnew

theorem extends_visit (depth : Nat) : ∀ o memoryId o', memoryId ∈ requested → Visited requested o →
    visit g requested depth o memoryId = .ok o' → Extends requested o o' ∧ memoryId ∈ o'.visited := by
  induction depth with
  | zero =>
    intro o memoryId o' hmem ho h
    cases h
  | succ depth ih =>
    intro o memoryId o' hmem ho h
    unfold visit at h
    split_ifs at h with hvisited hvisiting
    · cases h
      exact ⟨⟨ho, rfl, fun _ ha => ha⟩, hvisited⟩
    obtain ⟨o1, hfold, hlast⟩ := of_bind_ok h
    have hstart : Visited requested { o with visiting := o.visiting.add memoryId } := by
      refine ⟨ho.nodup, ho.mem, fun a ha => ?_, ho.requested⟩
      rcases OrderedSet.mem_add.mp ha with rfl | ha
      · exact hvisited
      · exact ho.apart a ha
    obtain ⟨hextends, -⟩ := extends_foldlM ih (fun d hd => of_decide_eq_true (List.mem_filter.mp hd).2) hstart hfold
    have hold : o1.visiting = o.visiting.add memoryId := hextends.visiting
    have hnew : memoryId ∉ o1.visited :=
      hextends.visited.apart memoryId (hold ▸ OrderedSet.mem_add.mpr (Or.inl rfl))
    have hback : o1.visiting.erase memoryId = o.visiting := by rw [hold, OrderedSet.erase_add hvisiting]
    cases hlast
    refine ⟨⟨⟨?_, ?_, ?_, ?_⟩, hback, ?_⟩, OrderedSet.mem_add.mpr (Or.inl rfl)⟩
    · rw [List.nodup_append]
      refine ⟨hextends.visited.nodup, List.nodup_singleton _, ?_⟩
      rintro a ha b hb rfl
      rw [List.mem_singleton] at hb
      exact hnew (hb ▸ (hextends.visited.mem a).mp ha)
    · intro a
      rw [List.mem_append, List.mem_singleton, OrderedSet.mem_add, hextends.visited.mem, or_comm]
    · intro a ha
      rw [OrderedSet.mem_erase] at ha
      rw [OrderedSet.mem_add, not_or]
      exact ⟨ha.1, hextends.visited.apart a ha.2⟩
    · intro a ha
      rcases List.mem_append.mp ha with ha | ha
      · exact hextends.visited.requested a ha
      · rw [List.mem_singleton.mp ha]
        exact hmem
    · exact fun a ha => OrderedSet.mem_add.mpr (Or.inr (hextends.kept a ha))

theorem validationOrder_nodup {memoryIds order : List String} (h : p.validationOrder memoryIds = .ok order) :
    order.Nodup ∧ ∀ id, id ∈ order ↔ id ∈ memoryIds := by
  unfold validationOrder at h
  cases hfold : memoryIds.foldlM (visit p.states.graph memoryIds (memoryIds.length + 1)) {} with
  | error err =>
    rw [hfold] at h
    cases h
  | ok o =>
    rw [hfold] at h
    cases h
    have hstart : Visited memoryIds {} :=
      ⟨List.nodup_nil, fun _ => iff_of_false List.not_mem_nil (OrderedSet.not_mem_empty _),
        fun a ha => absurd ha (OrderedSet.not_mem_empty a), nofun⟩
    obtain ⟨hextends, hall⟩ := extends_foldlM (extends_visit _) (fun d hd => hd) hstart hfold
    refine ⟨hextends.visited.nodup, fun id => ⟨hextends.visited.requested id, fun hid => ?_⟩⟩
    exact (hextends.visited.mem id).mpr (hall id hid)

/-- A validation has prepared, and waits for, requested memories, each of them once. -/
def Fits (pending : PendingValidation) : Prop :=
  (pending.prepared.map Prepared.memoryId ++ pending.order).Nodup ∧
    ∀ id ∈ pending.prepared.map Prepared.memoryId ++ pending.order, id ∈ pending.memoryIds

structure Fitting (p : ReferenceProtocol) : Prop where
  sound : Sound p.states
  pending : ∀ pending ∈ p.validations, Fits pending

/-- The store and the pending validations after a call. -/
structure Leaves (p p' : ReferenceProtocol) (states : MemoryStateStore) : Prop where
  states : p'.states = states
  validations : p'.validations = p.validations

theorem Fitting.leaves {states : MemoryStateStore} (h : Fitting p) (hsound : Sound states)
    (hleaves : Leaves p p' states) : Fitting p' where
  sound := by rw [hleaves.states]; exact hsound
  pending := by rw [hleaves.validations]; exact h.pending

theorem leaves_emit (p : ReferenceProtocol) (event : PremiseEvent) : Leaves p (p.emit event).1 p.states := by
  unfold emit
  cases p.journal.append event <;> exact ⟨rfl, rfl⟩

theorem leaves_emitNext (p : ReferenceProtocol) (states : MemoryStateStore) (kind memoryId occurredAt : String)
    (body : EventBody) : Leaves p (p.emitNext states kind memoryId occurredAt body).1 states :=
  ⟨(leaves_emit _ _).states, (leaves_emit _ _).validations⟩

theorem leaves_appendTransition (p : ReferenceProtocol) (memoryId : String) (previousStatus nextStatus : MemoryStatus)
    (occurredAt reason : String) (version : Option VersionReference) :
    Leaves p (p.appendTransition memoryId previousStatus nextStatus occurredAt reason version).1 p.states := by
  unfold appendTransition
  split_ifs
  · exact ⟨rfl, rfl⟩
  · have hleaves := leaves_emitNext p p.states (transitionBody memoryId nextStatus reason version).1 memoryId occurredAt
      (transitionBody memoryId nextStatus reason version).2
    dsimp only
    split
    next hemit => rw [hemit] at hleaves; exact hleaves
    next hemit => rw [hemit] at hleaves; exact hleaves

theorem leaves_appendTransitions (occurredAt reason : String) (version : String → Option VersionReference)
    (p : ReferenceProtocol) (changes : List StatusChange) :
    Leaves p (appendTransitions occurredAt reason version p changes).1 p.states := by
  induction changes generalizing p with
  | nil => exact ⟨rfl, rfl⟩
  | cons change changes ih =>
    have hfirst := leaves_appendTransition p change.state.memoryId change.previousStatus change.state.status occurredAt
      reason (version change.state.memoryId)
    unfold appendTransitions
    split
    next p1 err hcall => rw [hcall] at hfirst; exact hfirst
    next p1 id hcall =>
      rw [hcall] at hfirst
      have hrest := ih p1
      rw [hfirst.states] at hrest
      have hboth : Leaves p (appendTransitions occurredAt reason version p1 changes).1 p.states :=
        ⟨hrest.states, hrest.validations.trans hfirst.validations⟩
      split
      next hcalls => rw [hcalls] at hboth; exact hboth
      next hcalls => rw [hcalls] at hboth; exact hboth

theorem leaves_applyPrepared (p : ReferenceProtocol) (clock : Option Int) (item : Prepared) :
    Leaves p (p.applyPrepared clock item).1
      (p.states.markStatusesWithPrevious clock [item.memoryId] (statusForResult item.result.result)).1 := by
  unfold applyPrepared
  dsimp only
  split
  next states err hmark => exact ⟨by rw [hmark], rfl⟩
  next states changed hmark =>
    have hleaves := leaves_appendTransitions item.result.checkedAt (ValidatorResult.text item.result.result)
      (fun memoryId => if memoryId = item.memoryId then item.result.version else none) { p with states := states }
      (changed.filter (fun change =>
        decide (change.state.memoryId = item.memoryId ∨ change.previousStatus ≠ change.state.status)))
    rw [hmark]
    split
    next hcalls => rw [hcalls] at hleaves; exact ⟨hleaves.states, hleaves.validations⟩
    next hcalls => rw [hcalls] at hleaves; exact ⟨hleaves.states, hleaves.validations⟩

theorem Fitting.applyPrepared (h : Fitting p) (clock : Option Int) (item : Prepared) :
    Fitting (p.applyPrepared clock item).1 :=
  h.leaves (@effect_mark p.states clock (fun _ => False) h.sound _ _).sound (leaves_applyPrepared p clock item)

theorem Fitting.applyAll (h : Fitting p) (clock : Option Int) (items : List Prepared) :
    Fitting (applyAll clock p items).1 := by
  induction items generalizing p with
  | nil => exact h
  | cons item items ih =>
    have hfirst := h.applyPrepared clock item
    unfold ReferenceProtocol.applyAll
    split
    next hcall => rw [hcall] at hfirst; exact hfirst
    next p1 ids report hcall =>
      rw [hcall] at hfirst
      have hrest := ih hfirst
      split
      next hcalls => rw [hcalls] at hrest; exact hrest
      next hcalls => rw [hcalls] at hrest; exact hrest

theorem Fitting.commit (h : Fitting p) (clock : Option Int) (memoryIds : List String) (items : List Prepared) :
    Fitting (p.commit clock memoryIds items).1 := by
  have hall := h.applyAll clock items
  unfold ReferenceProtocol.commit
  split
  next hcalls => rw [hcalls] at hall; exact hall
  next hcalls => rw [hcalls] at hall; exact hall

/-! ## Every call -/

theorem Fitting.withValidations (h : Fitting p) {validations : List PendingValidation}
    (hpending : ∀ pending ∈ validations, Fits pending) : Fitting { p with validations := validations } :=
  ⟨h.sound, hpending⟩

theorem Fitting.emitNext (h : Fitting p) {states : MemoryStateStore} (hsound : Sound states)
    (kind memoryId occurredAt : String) (body : EventBody) :
    Fitting (p.emitNext states kind memoryId occurredAt body).1 :=
  h.leaves hsound (leaves_emitNext p states kind memoryId occurredAt body)

theorem Fitting.register (h : Fitting p) (input : MemoryEnvelope) : Fitting (p.register input).1 := by
  unfold ReferenceProtocol.register
  split
  · exact h
  next parsed _ =>
    have hsound := (@effect_register p.states (fun _ => False) h.sound parsed).sound
    split_ifs
    · exact h
    · split
      next hcall => rw [hcall] at hsound; exact ⟨hsound, h.pending⟩
      next hcall => rw [hcall] at hsound; exact h.emitNext hsound _ _ _ _

theorem Fitting.derive (h : Fitting p) (input : MemoryEnvelope) : Fitting (p.derive clock input).1 := by
  have hsound := (@effect_derive p.states clock (fun _ => False) h.sound input).sound
  unfold ReferenceProtocol.derive
  split
  next hcall => rw [hcall] at hsound; exact ⟨hsound, h.pending⟩
  next hcall => rw [hcall] at hsound; exact h.emitNext hsound _ _ _ _

theorem Fitting.replace (h : Fitting p) (input : MemoryEnvelope) : Fitting (p.replace clock input).1 := by
  have hsound := (@effect_replace p.states clock h.sound input).sound
  unfold ReferenceProtocol.replace
  split
  next hcall => rw [hcall] at hsound; exact ⟨hsound, h.pending⟩
  next hcall => rw [hcall] at hsound; exact h.emitNext hsound _ _ _ _

theorem Fitting.signal (h : Fitting p) (event : SourceChangedEvent) : Fitting (p.signal clock event).1 := by
  have hemitted := h.leaves h.sound (leaves_emit p event.toEvent)
  unfold ReferenceProtocol.signal
  split
  next hcall => rw [hcall] at hemitted; exact hemitted
  next p1 hcall =>
    rw [hcall] at hemitted
    have hsound := (@effect_mark p1.states clock (fun _ => False) hemitted.sound
      (p1.states.memoryIdsForSource event.sourceUri) .stale).sound
    dsimp only
    split
    next hmark => rw [hmark] at hsound; exact ⟨hsound, hemitted.pending⟩
    next states changed hmark =>
      rw [hmark] at hsound
      have hmarked : Fitting { p1 with states := states } := ⟨hsound, hemitted.pending⟩
      have hleft := hmarked.leaves hsound (leaves_appendTransitions event.occurredAt "signal" (fun _ => none) _ changed)
      split
      next hcalls => rw [hcalls] at hleft; exact hleft
      next hcalls => rw [hcalls] at hleft; exact hleft

theorem Fitting.validate (h : Fitting p) (memoryIds : List String) : Fitting (p.validate clock memoryIds).1 := by
  unfold ReferenceProtocol.validate
  split
  · exact h
  · exact h.commit clock memoryIds []
  next order _ horder =>
    obtain ⟨hnodup, hmem⟩ := validationOrder_nodup horder
    refine h.withValidations fun pending hpending => ?_
    rcases List.mem_append.mp hpending with hpending | hpending
    · exact h.pending pending hpending
    · rw [List.mem_singleton.mp hpending]
      exact ⟨hnodup, fun id hid => (hmem id).mp hid⟩

theorem prepare_spec {pending pending' : PendingValidation} {memoryId : String} {rest : List String}
    {answer : ValidationAnswer} (h : p.prepare pending memoryId rest answer = .ok pending') :
    ∃ status result, pending' =
      { pending with
          order := rest
          prepared := pending.prepared ++ [⟨memoryId, status, result⟩] } := by
  unfold prepare at h
  split at h
  · cases h
  next state _ =>
    split at h
    · cases h
    next result _ =>
      split_ifs at h
      exact ⟨state.status, result, (Except.ok.inj h).symm⟩

theorem Fits.prepare {pending pending' : PendingValidation} (hfits : Fits pending) {memoryId : String}
    {rest : List String} (horder : pending.order = memoryId :: rest) {answer : ValidationAnswer}
    (h : p.prepare pending memoryId rest answer = .ok pending') : Fits pending' := by
  obtain ⟨status, result, rfl⟩ := prepare_spec h
  have hsame : (pending.prepared ++ [(⟨memoryId, status, result⟩ : Prepared)]).map Prepared.memoryId ++ rest
      = pending.prepared.map Prepared.memoryId ++ pending.order := by
    rw [horder, List.map_append, List.append_assoc]
    rfl
  unfold Fits at hfits ⊢
  rw [hsame]
  exact hfits

theorem Fitting.answer (h : Fitting p) (i : Nat) (answer : ValidationAnswer) : Fitting (p.answer clock i answer).1 := by
  have hclosed : Fitting { p with validations := p.validations.eraseIdx i } :=
    h.withValidations (fun pending hpending => h.pending pending (List.mem_of_mem_eraseIdx hpending))
  unfold ReferenceProtocol.answer
  split
  · exact h
  next pending hpending =>
    split
    · exact h
    next memoryId rest horder =>
      split
      · exact hclosed
      next pending' hprepare =>
        split_ifs
        · exact hclosed.commit clock pending'.memoryIds pending'.prepared
        · refine h.withValidations fun other hother => ?_
          rcases List.mem_or_eq_of_mem_set hother with hother | rfl
          · exact h.pending other hother
          · exact (h.pending pending (List.mem_of_getElem? hpending)).prepare horder hprepare

theorem fitting_of_reachable (h : calls.Reachable p) : Fitting p := by
  refine h.invariant Fitting ?_ ?_
  · rintro p rfl
    exact ⟨sound_empty, nofun⟩
  · rintro p ⟨clock, call⟩ p' hfitting rfl
    cases call with
    | register input => exact hfitting.register input
    | derive input => exact hfitting.derive input
    | replace input => exact hfitting.replace input
    | signal event => exact hfitting.signal event
    | validate memoryIds => exact hfitting.validate memoryIds
    | answer i answer => exact hfitting.answer i answer

/-! ## What is reported -/

/-- A result is applied, and its memory is reported with the status that it has then. -/
theorem applyPrepared_spec {item : Prepared} {result : List String × ValidationReportItem}
    (h : p.applyPrepared clock item = (p', .ok result)) :
    ∃ changed, p.states.markStatusesWithPrevious clock [item.memoryId] (statusForResult item.result.result)
        = (p'.states, .ok changed) ∧
      result.2.memoryId = item.memoryId ∧
      result.2.status = ((p'.states.stateOf item.memoryId).map MemoryState.status).getD
        (statusForResult item.result.result) := by
  have hleaves := leaves_applyPrepared p clock item
  rw [h] at hleaves
  unfold applyPrepared at h
  dsimp only at h
  split at h
  · cases h
  next states changed hmark =>
    rw [hmark] at hleaves
    refine ⟨changed, by rw [hmark, hleaves.states], ?_⟩
    split at h
    · cases h
    next p1 ids _ =>
      obtain ⟨rfl, hresult⟩ := Prod.mk.inj h
      cases hresult
      exact ⟨rfl, rfl⟩

/-- The report of a memory: it has the status that the memory amounts to with the results applied. -/
def Reported (s : MemoryStateStore) (clock : Option Int) (done : List Prepared) (item : Prepared)
    (report : ValidationReportItem) : Prop :=
  report.memoryId = item.memoryId ∧ item.memoryId ∈ s.records.keys ∧
    Aggregate (s.ownWith clock done) s.dependsOn item.memoryId report.status

theorem reported_step (happlied : Applied s clock done p.states) {item : Prepared}
    {result : List String × ValidationReportItem} (h : p.applyPrepared clock item = (p', .ok result)) :
    Applied s clock (done ++ [item]) p'.states ∧ Reported s clock (done ++ [item]) item result.2 := by
  obtain ⟨changed, hmark, hid, hstatus⟩ := applyPrepared_spec h
  obtain ⟨hnext, hknown⟩ := happlied.mark hmark
  obtain ⟨r, hget⟩ := p'.states.records.mem_keys.mp ((hnext.updated.mem_keys _).mpr hknown)
  have haggregate := hnext.aggregate hknown
  rw [stateOf_eq_some.mpr ⟨r, hget, rfl⟩] at hstatus
  rw [dependencyStatus_eq hget] at haggregate
  refine ⟨hnext, hid, hknown, ?_⟩
  rw [hstatus]
  exact haggregate

theorem applyAll_spec {items : List Prepared} {ids : List String} {reports : List ValidationReportItem}
    (happlied : Applied s clock done p.states)
    (h : ReferenceProtocol.applyAll clock p items = (p', .ok (ids, reports))) :
    Applied s clock (done ++ items) p'.states ∧ reports.map ValidationReportItem.memoryId = items.map Prepared.memoryId ∧
      ∀ before item after, items = before ++ item :: after →
        ∃ report ∈ reports, Reported s clock (done ++ before ++ [item]) item report := by
  induction items generalizing p done ids reports with
  | nil =>
    obtain ⟨rfl, hresult⟩ := Prod.mk.inj h
    obtain ⟨-, rfl⟩ := Prod.mk.inj (Except.ok.inj hresult)
    refine ⟨by rw [List.append_nil]; exact happlied, rfl, ?_⟩
    intro before item after hsplit
    cases before <;> cases hsplit
  | cons first items ih =>
    unfold ReferenceProtocol.applyAll at h
    split at h
    · cases h
    next p1 ids1 report hfirst =>
      split at h
      · cases h
      next p2 ids2 reports2 hrest =>
        obtain ⟨rfl, hresult⟩ := Prod.mk.inj h
        obtain ⟨-, rfl⟩ := Prod.mk.inj (Except.ok.inj hresult)
        obtain ⟨hnext, hreported⟩ := reported_step happlied hfirst
        obtain ⟨hlast, hids, hall⟩ := ih hnext hrest
        refine ⟨by rw [List.append_assoc] at hlast; exact hlast, ?_, ?_⟩
        · rw [List.map_cons, List.map_cons, hids, hreported.1]
        · intro before item after hsplit
          cases before with
          | nil =>
            obtain ⟨rfl, -⟩ := List.cons.inj hsplit
            rw [List.append_nil]
            exact ⟨report, List.mem_cons_self, hreported⟩
          | cons head before =>
            obtain ⟨rfl, htail⟩ := List.cons.inj hsplit
            obtain ⟨report', hmem, hreported'⟩ := hall before item after htail
            refine ⟨report', List.mem_cons_of_mem _ hmem, ?_⟩
            rw [List.append_assoc done [first] before] at hreported'
            exact hreported'

theorem commit_spec {memoryIds : List String} {items : List Prepared} {report : ValidationReport}
    (hfits : (items.map Prepared.memoryId).Nodup ∧ ∀ id ∈ items.map Prepared.memoryId, id ∈ memoryIds)
    (h : p.commit clock memoryIds items = (p', .ok report)) :
    ∃ ids reports, ReferenceProtocol.applyAll clock p items = (p', .ok (ids, reports)) ∧
      (reports.map ValidationReportItem.memoryId = items.map Prepared.memoryId →
        ∀ item, item ∈ report.items ↔ item ∈ reports) := by
  unfold ReferenceProtocol.commit at h
  split at h
  · cases h
  next p1 ids reports happly =>
    obtain ⟨rfl, hresult⟩ := Prod.mk.inj h
    cases hresult
    refine ⟨ids, reports, happly, fun hids item => ?_⟩
    rw [List.mem_filterMap]
    constructor
    · rintro ⟨memoryId, -, hfind⟩
      exact List.mem_of_find?_eq_some hfind
    · intro hitem
      have hmem : item.memoryId ∈ items.map Prepared.memoryId := by
        rw [← hids]
        exact List.mem_map_of_mem hitem
      refine ⟨item.memoryId, hfits.2 _ hmem, ?_⟩
      cases hfind : reports.find? (fun report => decide (report.memoryId = item.memoryId)) with
      | none => exact absurd (List.find?_eq_none.mp hfind item hitem) (by simp)
      | some found =>
        have hsame : found.memoryId = item.memoryId := by simpa using List.find?_some hfind
        rw [List.inj_on_of_nodup_map (by rw [hids]; exact hfits.1) (List.mem_of_find?_eq_some hfind) hitem hsame]

/-- A call returns the report of a validation, of which it applies the results. -/
inductive Returns (p : ReferenceProtocol) (clock : Option Int) (p' : ReferenceProtocol)
    (report : ValidationReport) : ProtocolCall → List Prepared → Prop
  | validate {memoryIds : List String} : p.validate clock memoryIds = (p', some (.ok report)) →
      Returns p clock p' report (.validate memoryIds) []
  | answer {i : Nat} {answer : ValidationAnswer} {pending pending' : PendingValidation} {memoryId : String} :
      p.validations[i]? = some pending → pending.order = [memoryId] →
      p.prepare pending memoryId [] answer = .ok pending' →
      p.answer clock i answer = (p', some (.ok report)) →
      Returns p clock p' report (.answer i answer) pending'.prepared

def ReportsCurrent (p' : ReferenceProtocol) (report : ValidationReport) : Prop :=
  ∀ item ∈ report.items, (p'.states.stateOf item.memoryId).map MemoryState.status = some item.status

/-- A memory that depends on one whose result is applied after its own amounts to the same with the results that are
    applied up to its own as with all of them. -/
def Unaffected (s : MemoryStateStore) (clock : Option Int) (prepared : List Prepared) : Prop :=
  ∀ before item after, prepared = before ++ item :: after →
    (∃ later ∈ after, s.graph.Reaches item.memoryId later.memoryId) →
    ∀ status, Aggregate (s.ownWith clock (before ++ [item])) s.dependsOn item.memoryId status →
      Aggregate (s.ownWith clock prepared) s.dependsOn item.memoryId status

theorem returns_of_answer {i : Nat} {answer : ValidationAnswer} {report : ValidationReport}
    (h : p.answer clock i answer = (p', some (.ok report))) :
    ∃ prepared, Returns p clock p' report (.answer i answer) prepared := by
  have hcall := h
  unfold ReferenceProtocol.answer at h
  split at h
  · cases h
  next pending hpending =>
    split at h
    · cases h
    next memoryId rest horder =>
      split at h
      · cases h
      next pending' hprepare =>
        split_ifs at h with hrest
        · subst hrest
          exact ⟨pending'.prepared, .answer hpending horder hprepare hcall⟩
        · cases (Prod.mk.inj h).2

theorem Returns.commit (hfitting : Fitting p) {report : ValidationReport} {call : ProtocolCall}
    {prepared : List Prepared} (h : Returns p clock p' report call prepared) :
    ∃ (closed : ReferenceProtocol) (memoryIds : List String), closed.states = p.states ∧
      ((prepared.map Prepared.memoryId).Nodup ∧ ∀ id ∈ prepared.map Prepared.memoryId, id ∈ memoryIds) ∧
      closed.commit clock memoryIds prepared = (p', .ok report) := by
  cases h with
  | @validate memoryIds h =>
    refine ⟨p, memoryIds, rfl, ⟨List.nodup_nil, nofun⟩, ?_⟩
    unfold ReferenceProtocol.validate at h
    split at h
    · cases h
    · dsimp only at h
      obtain ⟨hfst, hsnd⟩ := Prod.mk.inj h
      exact Prod.ext hfst (Option.some.inj hsnd)
    · cases h
  | @answer i answer pending pending' memoryId hpending horder hprepare h =>
    have hfits := (hfitting.pending pending (List.mem_of_getElem? hpending)).prepare horder hprepare
    obtain ⟨status, result, rfl⟩ := prepare_spec hprepare
    unfold Fits at hfits
    rw [List.append_nil] at hfits
    refine ⟨{ p with validations := p.validations.eraseIdx i }, pending.memoryIds, rfl, hfits, ?_⟩
    unfold ReferenceProtocol.answer at h
    rw [hpending] at h
    dsimp only at h
    rw [horder] at h
    dsimp only at h
    rw [hprepare] at h
    dsimp only at h
    rw [if_pos rfl] at h
    obtain ⟨hfst, hsnd⟩ := Prod.mk.inj h
    exact Prod.ext hfst (Option.some.inj hsnd)

theorem current_iff {prepared : List Prepared} {reports : List ValidationReportItem}
    (happlied : Applied s clock prepared p'.states) (hnodup : (prepared.map Prepared.memoryId).Nodup)
    (hids : reports.map ValidationReportItem.memoryId = prepared.map Prepared.memoryId)
    (hall : ∀ before item after, prepared = before ++ item :: after → ∃ report ∈ reports, Reported s clock (before ++ [item]) item report) :
    
    (∀ item ∈ reports, (p'.states.stateOf item.memoryId).map MemoryState.status = some item.status) ↔
      ∀ before item after, prepared = before ++ item :: after →
        ∀ status, Aggregate (s.ownWith clock (before ++ [item])) s.dependsOn item.memoryId status →
          Aggregate (s.ownWith clock prepared) s.dependsOn item.memoryId status := by
  have hlast : ∀ id ∈ s.records.keys, ∃ status, (p'.states.stateOf id).map MemoryState.status = some status ∧
      Aggregate (s.ownWith clock prepared) s.dependsOn id status := by
    intro id hid
    obtain ⟨r, hget⟩ := p'.states.records.mem_keys.mp ((happlied.updated.mem_keys id).mpr hid)
    refine ⟨r.status, by rw [stateOf_eq_some.mpr ⟨r, hget, rfl⟩]; rfl, ?_⟩
    have haggregate := happlied.aggregate hid
    rw [dependencyStatus_eq hget] at haggregate
    exact haggregate
  constructor
  · intro hcurrent before item after hsplit status hbefore
    obtain ⟨report, hmem, hid, hknown, hreported⟩ := hall before item after hsplit
    obtain ⟨last, hstate, haggregate⟩ := hlast item.memoryId hknown
    have hsame := hcurrent report hmem
    rw [hid, hstate] at hsame
    rw [hbefore.unique hreported, ← Option.some.inj hsame]
    exact haggregate
  · intro hunaffected report hmem
    have hprepared : report.memoryId ∈ prepared.map Prepared.memoryId := by
      rw [← hids]
      exact List.mem_map_of_mem hmem
    obtain ⟨item, hitem, hid⟩ := List.mem_map.mp hprepared
    obtain ⟨before, after, hsplit⟩ := List.append_of_mem hitem
    obtain ⟨report', hmem', hid', hknown, hreported⟩ := hall before item after hsplit
    obtain rfl : report' = report :=
      List.inj_on_of_nodup_map (by rw [hids]; exact hnodup) hmem' hmem (hid'.trans hid)
    obtain ⟨last, hstate, haggregate⟩ := hlast item.memoryId hknown
    rw [hid', hstate, haggregate.unique (hunaffected before item after hsplit _ hreported)]

theorem ownWith_append {s : MemoryStateStore} {done after : List Prepared} {id : String}
    (h : ∀ later ∈ after, ¬ s.graph.Reaches id later.memoryId) :
    s.ownWith clock (done ++ after) id = s.ownWith clock done id := by
  have hfilter : after.filter (fun item => item.memoryId = id) = [] := by
    rw [List.filter_eq_nil_iff]
    intro later hlater hsame
    exact h later hlater (of_decide_eq_true hsame ▸ ReflTransGen.refl)
  have hany : after.any (fun item => s.graph.hasPath id item.memoryId) = false := by
    rw [List.any_eq_false]
    intro later hlater hpath
    exact h later hlater ((DependencyGraph.hasPath_iff _ _ _).mp hpath)
  unfold ownWith withResults
  rw [List.filter_append, hfilter, List.append_nil, List.any_append, hany, Bool.or_false]

theorem aggregate_append (hframed : Framed s) {after : List Prepared} {id : String} {status : MemoryStatus}
    (h : Aggregate (s.ownWith clock done) s.dependsOn id status)
    (hafter : ∀ later ∈ after, ¬ s.graph.Reaches id later.memoryId) :
    Aggregate (s.ownWith clock (done ++ after)) s.dependsOn id status := by
  induction h with
  | @intro n answer _ ih =>
    rw [← @ownWith_append clock s done after n hafter]
    refine Aggregate.intro answer fun d hd => ih d hd (fun later hlater hreach => ?_)
    exact hafter later hlater (ReflTransGen.head ((mem_dependsOn hframed n d).mp hd) hreach)

end ReferenceProtocol

open ReferenceProtocol

/-- A run in which `a` depends on `b` through `u`, and a validation of `a` and `b` waits for its last result. -/
def waitForSource : ReferenceProtocol :=
  let memory (memoryId : String) (sources : Option (List SourceReference)) (dependsOn : List String) :
      MemoryEnvelope :=
    { memoryId := memoryId
      provenance := sources
      validity :=
        { policy := .immutable
          status := .fresh
          checkedAt := "2026-01-01T00:00:00Z" }
      dependsOn := dependsOn }
  let source := memory "b" (some [{ sourceUri := "file:b", observedAt := "2026-01-01T00:00:00Z" }]) []
  ((((({} : ReferenceProtocol).perform none (.register source)).perform none
    (.derive (memory "u" none ["b"]))).perform none (.derive (memory "a" none ["u"]))).perform none
    (.validate ["a", "b"])).perform none (.answer 0 (.supplied
      { memoryId := "a"
        result := .unchanged
        checkedAt := "2026-01-02T00:00:00Z"
        status := .fresh
        version := some ⟨"etag", "1"⟩ }))

/-- The result that `b` has changed. -/
def changedResult : ValidationAnswer :=
  .supplied
    { memoryId := "b"
      result := .changed
      checkedAt := "2026-01-02T00:00:00Z"
      status := .invalid
      version := some ⟨"etag", "2"⟩ }

theorem waitForSource_reachable : ReferenceProtocol.calls.Reachable waitForSource :=
  System.Reachable.step (System.Reachable.step (System.Reachable.step (System.Reachable.step (System.Reachable.step
    (System.Reachable.init rfl) (i := (none, .register _)) rfl) (i := (none, .derive _)) rfl)
    (i := (none, .derive _)) rfl) (i := (none, .validate _)) rfl) (i := (none, .answer _ _)) rfl

theorem waitForSource_returns : ∃ p' report prepared,
    Returns waitForSource none p' report (.answer 0 changedResult) prepared ∧
    p' = (waitForSource.answer none 0 changedResult).1 ∧
    report.items.map (fun item => (item.memoryId, item.status)) = [("a", .fresh), ("b", .invalid)] := by
  have hreport : ((waitForSource.answer none 0 changedResult).2.bind Except.toOption).map
      (fun report => report.items.map (fun item => (item.memoryId, item.status)))
        = some [("a", .fresh), ("b", .invalid)] := by decide +kernel
  match hanswer : waitForSource.answer none 0 changedResult with
  | (p', none) =>
    rw [hanswer] at hreport
    cases hreport
  | (p', some (.error err)) =>
    rw [hanswer] at hreport
    cases hreport
  | (p', some (.ok report)) =>
    rw [hanswer] at hreport
    obtain ⟨prepared, hreturns⟩ := returns_of_answer hanswer
    exact ⟨p', report, prepared, hreturns, rfl, Option.some.inj hreport⟩

end Premise.Reference
