import Premise.Reference.Proofs.CallProofs

/-!
# Proofs: operations that throw

Between calls the source index leads to known memories, and no event has an id that is still to be
generated. An event of a registered memory is then refused only for its contents, and those are acceptable
unless a memory is found `UNCHANGED` that depends on an `UNKNOWN` one.
-/

namespace Premise.Reference

open Collections Control Premise.Graph Js FrontierEngine
  FrontierEngine.Adjacency Protocol Protocol.V1 Relation MemoryStateStore

namespace MemoryStateStore

variable {s s' : MemoryStateStore} {uri id : String}

theorem mem_indexSources {envelope : MemoryEnvelope}
    (h : id ∈ (s.indexSources envelope).sourceIndex.neighbours uri) :
    id = envelope.memoryId ∨ id ∈ s.sourceIndex.neighbours uri := by
  unfold indexSources at h
  generalize s.sourceIndex = index at h
  generalize envelope.provenance.getD [] = sources at h
  induction sources generalizing index with
  | nil => exact .inr h
  | cons source sources ih =>
    rw [List.foldl_cons] at h
    rcases ih _ h with hid | hmem
    · exact .inl hid
    · rw [mem_neighbours_addEdge] at hmem
      exact hmem.imp_left And.right

theorem mem_unindexSources {envelope : MemoryEnvelope}
    (h : id ∈ (s.unindexSources envelope).sourceIndex.neighbours uri) :
    id ∈ s.sourceIndex.neighbours uri := by
  unfold unindexSources at h
  generalize s.sourceIndex = index at h
  generalize envelope.provenance.getD [] = sources at h
  induction sources generalizing index with
  | nil => exact h
  | cons source sources ih =>
    rw [List.foldl_cons] at h
    have hmem := ih _ h
    cases hget : index.get? source.sourceUri with
    | none =>
      rw [hget] at hmem
      exact hmem
    | some memoryIds =>
      rw [hget] at hmem
      dsimp only at hmem
      split_ifs at hmem with hsize
      · rw [neighbours_erase] at hmem
        split_ifs at hmem
        · cases hmem
        · exact hmem
      · rw [neighbours_set] at hmem
        split_ifs at hmem with huri
        · subst huri
          have hold := (OrderedSet.mem_erase.mp hmem).2
          unfold neighbours
          rw [hget]
          exact hold
        · exact hmem

/-- The ids of the memories are not empty, and those of the sources are known. -/
structure Orderly (s : MemoryStateStore) : Prop where
  sound : Sound s
  named : ∀ id ∈ s.records.keys, id ≠ ""
  indexed : ∀ uri, ∀ id ∈ s.sourceIndex.neighbours uri, id ∈ s.records.keys

theorem Orderly.updated (h : Orderly s) (hsound : Sound s') (hupdated : Updated s s') : Orderly s' where
  sound := hsound
  named := fun id hid => h.named id ((hupdated.mem_keys id).mp hid)
  indexed := by
    intro uri id hid
    rw [hupdated.sourceIndex] at hid
    exact (hupdated.mem_keys id).mpr (h.indexed uri id hid)

theorem Orderly.added (h : Orderly s) {graph : DependencyGraph} {input : MemoryEnvelope}
    (hupdated : Updated (s.added graph input) s') (hsound : Sound s') (hformed : WellFormed input)
    (hnew : s.records.get? input.memoryId = none) :
    Orderly s' ∧ ∀ id ∈ s.records.keys, id ∈ s'.records.keys := by
  have hkeys : s'.records.keys = s.records.keys ++ [input.memoryId] := by
    rw [hupdated.keys]
    exact ReferenceProtocol.keys_added hnew
  have hkept : ∀ id ∈ s.records.keys, id ∈ s'.records.keys := by
    intro id hid
    rw [hkeys]
    exact List.mem_append_left _ hid
  refine ⟨⟨hsound, ReferenceProtocol.named_of_keys hkeys hformed.named h.named, ?_⟩, hkept⟩
  intro uri id hid
  rw [hupdated.sourceIndex] at hid
  rcases mem_indexSources hid with rfl | hold
  · rw [hkeys]
    exact List.mem_append_right _ (List.mem_singleton_self _)
  · exact hkept id (h.indexed uri id hold)

theorem Orderly.replacing (h : Orderly s) {graph : DependencyGraph} {current : StateRecord}
    {input : MemoryEnvelope} (hupdated : Updated (s.replacing graph current input) s')
    (hsound : Sound s') (hcurrent : s.records.get? input.memoryId = some current) :
    Orderly s' ∧ ∀ id ∈ s.records.keys, id ∈ s'.records.keys := by
  have hmem := s.records.mem_keys_of_get? hcurrent
  have hkeys : s'.records.keys = s.records.keys :=
    hupdated.keys.trans (OrderedMap.keys_set_of_mem _ hmem)
  refine ⟨⟨hsound, by rw [hkeys]; exact h.named, ?_⟩, by rw [hkeys]; exact fun _ hid => hid⟩
  intro uri id hid
  rw [hkeys]
  rw [hupdated.sourceIndex] at hid
  rcases mem_indexSources hid with rfl | hold
  · exact hmem
  · exact h.indexed uri id (@mem_unindexSources s _ _ current.envelope hold)

end MemoryStateStore

variable {states : MemoryStateStore} {memoryId occurredAt : String}

namespace ReferenceProtocol

variable {p p' p₁ : ReferenceProtocol} {clock : Option Int}

structure Steady (p : ReferenceProtocol) : Prop where
  orderly : p.states.Orderly
  unused : ∀ event ∈ p.journal.entries, ∀ kind memoryId n, p.sequence ≤ n →
    event.eventId ≠ generatedId kind memoryId n
  prepared : ∀ pending ∈ p.validations, ∀ item ∈ pending.prepared,
    isValidationResult item.result = true ∧ item.memoryId ∈ p.states.records.keys

theorem Steady.withValidations (h : Steady p) {validations : List PendingValidation}
    (hprepared : ∀ pending ∈ validations, ∀ item ∈ pending.prepared,
      isValidationResult item.result = true ∧ item.memoryId ∈ p.states.records.keys) :
    Steady { p with validations := validations } where
  orderly := h.orderly
  unused := h.unused
  prepared := hprepared

theorem Steady.withStates (h : Steady p) (horderly : states.Orderly)
    (hkept : ∀ id ∈ p.states.records.keys, id ∈ states.records.keys) :
    Steady { p with states := states } where
  orderly := horderly
  unused := h.unused
  prepared := fun pending hpending item hitem =>
    ⟨(h.prepared pending hpending item hitem).1, hkept _ (h.prepared pending hpending item hitem).2⟩

theorem Steady.emitNext (h : Steady p) {kind : String} {body : EventBody} (horderly : states.Orderly)
    (hkept : ∀ id ∈ p.states.records.keys, id ∈ states.records.keys)
    (hvalid : validatePremiseEvent ⟨generatedId kind memoryId p.sequence, occurredAt, body⟩ = []) :
    p.emitNext states kind memoryId occurredAt body =
      (p.emitted states ⟨generatedId kind memoryId p.sequence, occurredAt, body⟩, .ok ()) ∧
    Steady (p.emitted states ⟨generatedId kind memoryId p.sequence, occurredAt, body⟩) := by
  have hnew : generatedId kind memoryId p.sequence ∉ p.journal.entries.map PremiseEvent.eventId := by
    intro hmem
    obtain ⟨event, hevent, heq⟩ := List.mem_map.mp hmem
    exact h.unused event hevent kind memoryId p.sequence le_rfl heq
  refine ⟨?_, horderly, ?_, (h.withStates horderly hkept).prepared⟩
  · unfold ReferenceProtocol.emitNext emit
    rw [append_ok hvalid hnew]
    rfl
  · intro event hevent kind' memoryId' n hn
    rcases List.mem_append.mp hevent with hevent | hevent
    · exact h.unused event hevent kind' memoryId' n (Nat.le_of_succ_le hn)
    · rw [List.mem_singleton.mp hevent]
      intro heq
      have hlt : p.sequence < n := hn
      exact absurd (generatedId_sequence heq) hlt.ne

/-- Only events are added. -/
structure Appends (p p' : ReferenceProtocol) : Prop where
  steady : Steady p'
  states : p'.states = p.states
  validations : p'.validations = p.validations

theorem Steady.appendTransition (h : Steady p) {id : String} (hid : id ∈ p.states.records.keys)
    {previousStatus nextStatus : MemoryStatus} {reason : String} {version : Option VersionReference}
    (hacceptable : Emits previousStatus nextStatus reason → Acceptable nextStatus occurredAt reason version) :
    ∃ p' eventId, p.appendTransition id previousStatus nextStatus occurredAt reason version
      = (p', .ok eventId) ∧ Appends p p' := by
  unfold ReferenceProtocol.appendTransition
  by_cases hemits : previousStatus = nextStatus ∧ reason ≠ "UNCHANGED"
  · rw [if_pos hemits]
    exact ⟨p, _, rfl, h, rfl, rfl⟩
  rw [if_neg hemits]
  obtain ⟨kind, body, hbody⟩ : ∃ kind body, transitionBody id nextStatus reason version = (kind, body) :=
    ⟨_, _, rfl⟩
  have hvalid := valid_transition (hacceptable hemits) (generatedId_ne_empty kind id p.sequence) (h.orderly.named id hid)
  rw [hbody] at hvalid ⊢
  obtain ⟨heq, hsteady⟩ := h.emitNext h.orderly (fun _ hid => hid) hvalid
  dsimp only
  rw [heq]
  exact ⟨_, _, rfl, hsteady, rfl, rfl⟩

theorem Steady.appendTransitions (h : Steady p) {changes : List StatusChange} {reason : String}
    {version : String → Option VersionReference}
    (hchanges : ∀ c ∈ changes, c.state.memoryId ∈ p.states.records.keys ∧ (Emits c.previousStatus c.state.status reason →
        Acceptable c.state.status occurredAt reason (version c.state.memoryId))) :
    ∃ p' ids, ReferenceProtocol.appendTransitions occurredAt reason version p changes = (p', .ok ids) ∧ Appends p p' := by
  induction changes generalizing p with
  | nil => exact ⟨p, _, rfl, h, rfl, rfl⟩
  | cons c changes ih =>
    obtain ⟨hid, hacceptable⟩ := hchanges c List.mem_cons_self
    obtain ⟨p₁, eventId, heq, hfirst⟩ := h.appendTransition hid hacceptable
    obtain ⟨p', ids, hrest, hthen⟩ := ih hfirst.steady (fun c' hc' => by
      rw [hfirst.states]
      exact hchanges c' (List.mem_cons_of_mem _ hc'))
    refine ⟨p', (c.state.memoryId, eventId) :: ids, ?_, hthen.steady, hthen.states.trans hfirst.states,
      hthen.validations.trans hfirst.validations⟩
    unfold ReferenceProtocol.appendTransitions
    rw [heq]
    dsimp only
    rw [hrest]

theorem Steady.marked (h : Steady p) {states : MemoryStateStore} {roots : List String}
    {changes sub : List StatusChange} {occurredAt reason : String}
    {version : String → Option VersionReference}
    (hpropagation : Propagation p.states states roots changes) (hsub : ∀ c ∈ sub, c ∈ changes)
    (hacceptable : ∀ c ∈ sub, Emits c.previousStatus c.state.status reason →
      Acceptable c.state.status occurredAt reason (version c.state.memoryId)) :
    ∃ p' ids, ReferenceProtocol.appendTransitions occurredAt reason version { p with states := states } sub
      = (p', .ok ids) ∧ Appends { p with states := states } p' := by
  have hupdated := hpropagation.updated
  have hsteady := h.withStates (h.orderly.updated hpropagation.sound hupdated)
    (fun id hid => (hupdated.mem_keys id).mpr hid)
  refine hsteady.appendTransitions fun c hc => ⟨?_, hacceptable c hc⟩
  exact (hupdated.mem_keys _).mpr (hpropagation.change c (hsub c hc)).1

def Unchanged (p p' : ReferenceProtocol) : Prop := p'.states = p.states ∧ p'.journal = p.journal

theorem emit_error {event : PremiseEvent} {err : JsError} (h : p.emit event = (p', .error err)) : p' = p := by
  unfold emit at h
  cases happend : p.journal.append event with
  | error err' =>
    rw [happend] at h
    exact (Prod.mk.inj h).1.symm
  | ok journal =>
    rw [happend] at h
    cases (Prod.mk.inj h).2

theorem emit_ok {event : PremiseEvent} (h : p.emit event = (p', .ok ())) : validatePremiseEvent event = [] ∧
      p' = { p with journal := ⟨p.journal.entries ++ [event]⟩ } := by
  unfold emit at h
  cases happend : p.journal.append event with
  | error err =>
    rw [happend] at h
    cases (Prod.mk.inj h).2
  | ok journal =>
    rw [happend] at h
    obtain ⟨hvalid, -, rfl⟩ := append_eq_ok happend
    exact ⟨hvalid, (Prod.mk.inj h).1.symm⟩

theorem Steady.emit_signal (h : Steady p) {event : SourceChangedEvent}
    (hemit : p.emit event.toEvent = (p₁, .ok ())) (hforeign : p.ForeignId event.eventId) :
    Steady p₁ ∧ p₁.states = p.states ∧ isDateTime event.occurredAt = true := by
  obtain ⟨hvalid, rfl⟩ := emit_ok hemit
  refine ⟨⟨h.orderly, ?_, h.prepared⟩, rfl, ?_⟩
  · intro event' hevent kind memoryId n hn
    rcases List.mem_append.mp hevent with hevent | hevent
    · exact h.unused event' hevent kind memoryId n hn
    · rw [List.mem_singleton.mp hevent]
      exact hforeign kind memoryId n hn
  · unfold validatePremiseEvent at hvalid
    simp only [List.append_eq_nil_iff, addIf_eq_nil, Bool.not_eq_false'] at hvalid
    exact hvalid.1.1.2

theorem Steady.signal (h : Steady p) {event : SourceChangedEvent}
    (havoids : p.Avoids clock (.signal event)) :
    (∃ err, p.signal clock event = (p, .error err) ∧ ¬ p.WellFormedSignal event) ∨
    ∃ p' report, p.signal clock event = (p', .ok report) ∧ Steady p' := by
  unfold ReferenceProtocol.signal
  obtain ⟨p₁, result, hemit⟩ : ∃ p₁ result, p.emit event.toEvent = (p₁, result) := ⟨_, _, rfl⟩
  rw [hemit]
  cases result with
  | error err =>
    obtain rfl := emit_error hemit
    refine .inl ⟨err, rfl, fun hformed => ?_⟩
    unfold emit at hemit
    rw [append_ok hformed.1 hformed.2] at hemit
    cases (Prod.mk.inj hemit).2
  | ok _ =>
    obtain ⟨hsteady, hstates, hdate⟩ := h.emit_signal hemit (havoids ⟨p₁, hemit⟩)
    refine .inr ?_
    dsimp only
    rcases propagation_cases hsteady.orderly.sound clock
      (p₁.states.memoryIdsForSource event.sourceUri) .stale with
      ⟨err, -, root, hroot, hunknown⟩ | ⟨s', changes, heq, hpropagation, hmark⟩
    · exact absurd (hsteady.orderly.indexed _ _ (mem_sortStrings.mp hroot)) hunknown
    · rw [heq]
      dsimp only
      obtain ⟨p', ids, happend, hthen⟩ := @Steady.marked _ hsteady _ _ _ changes event.occurredAt "signal"
        (fun _ => none) hpropagation (fun _ hc => hc) (fun c hc _ =>
          acceptable_signal (hpropagation.stale_le hsteady.orderly.sound hmark (by decide) hc) hdate)
      rw [happend]
      exact ⟨_, _, rfl, hthen.steady⟩

/-! ## Validations -/

theorem acceptable_appended {s s' : MemoryStateStore} {item : Prepared} {changes : List StatusChange}
    (hsound : Sound s) (hvalid : isValidationResult item.result = true)
    (hpropagation : Propagation s s' [item.memoryId] changes)
    (hmark : Propagates clock s s' [item.memoryId] (statusForResult item.result.result))
    (havoids : item.result.result = .unchanged → ¬ DependsOnUnknown s item.memoryId)
    {c : StatusChange} (hc : c ∈ appended item.memoryId changes) :
    Acceptable c.state.status item.result.checkedAt (ValidatorResult.text item.result.result)
      (if c.state.memoryId = item.memoryId then item.result.version else none) := by
  obtain ⟨hc, hwhy⟩ := mem_appended.mp hc
  refine acceptable_result hvalid (fun hunknown hresult => ?_) (fun hfresh => ?_)
  · rw [hresult] at hmark
    obtain ⟨hprevious, hroot⟩ := hpropagation.unknown hsound hmark hc hunknown
    rcases hwhy with hmemory | hdiffers
    · exact havoids hresult (hroot hmemory)
    · exact hdiffers (hprevious.trans hunknown.symm)
  · by_contra hne
    have hstatus : .stale ≤ statusForResult item.result.result := by
      cases hkind : item.result.result with
      | unchanged => exact absurd hkind hne
      | changed | missing | unknown => decide
    have hle := hpropagation.stale_le hsound hmark hstatus hc
    rw [hfresh] at hle
    exact absurd hle (by decide)

theorem Steady.applyPrepared (h : Steady p) {item : Prepared}
    (hvalid : isValidationResult item.result = true) (hknown : item.memoryId ∈ p.states.records.keys)
    (havoids : item.result.result = .unchanged → ¬ DependsOnUnknown p.states item.memoryId) :
    ∃ p' result, p.applyPrepared clock item = (p', .ok result) ∧ Steady p' ∧
      p'.states.records.keys = p.states.records.keys := by
  unfold ReferenceProtocol.applyPrepared
  dsimp only
  rcases propagation_cases h.orderly.sound clock [item.memoryId] (statusForResult item.result.result)
    with ⟨err, -, root, hroot, hunknown⟩ | ⟨s', changes, heq, hpropagation, hmark⟩
  · rw [List.mem_singleton.mp hroot] at hunknown
    exact absurd hknown hunknown
  · rw [heq]
    dsimp only
    obtain ⟨p', ids, happend, hthen⟩ := @Steady.marked _ h _ _ _ (appended item.memoryId changes)
      item.result.checkedAt (ValidatorResult.text item.result.result)
      (fun memoryId => if memoryId = item.memoryId then item.result.version else none) hpropagation
      (fun c hc => (mem_appended.mp hc).1)
      (fun c hc _ => acceptable_appended h.orderly.sound hvalid hpropagation hmark havoids hc)
    unfold appended at happend
    rw [happend]
    refine ⟨p', _, rfl, hthen.steady, ?_⟩
    rw [hthen.states]
    exact hpropagation.updated.keys

theorem Steady.applyAll {items : List Prepared} (h : Steady p)
    (hitems : ∀ item ∈ items, isValidationResult item.result = true ∧ item.memoryId ∈ p.states.records.keys)
    (havoids : AppliesKnown clock p items) :
    ∃ p' result, applyAll clock p items = (p', .ok result) ∧ Steady p' := by
  induction items generalizing p with
  | nil => exact ⟨p, _, rfl, h⟩
  | cons item items ih =>
    obtain ⟨hfirst, hrest⟩ := havoids
    obtain ⟨hvalid, hknown⟩ := hitems item List.mem_cons_self
    obtain ⟨p₁, result, heq, hsteady, hkeys⟩ := @Steady.applyPrepared p clock h item hvalid hknown hfirst
    rw [heq] at hrest
    obtain ⟨p', results, hall, hthen⟩ := ih hsteady (fun item' hitem => by
      rw [hkeys]
      exact hitems item' (List.mem_cons_of_mem _ hitem)) (hrest result rfl)
    unfold ReferenceProtocol.applyAll
    rw [heq]
    dsimp only
    rw [hall]
    exact ⟨p', _, rfl, hthen⟩

theorem Steady.commit {items : List Prepared} (h : Steady p) {memoryIds : List String}
    (hitems : ∀ item ∈ items, isValidationResult item.result = true ∧ item.memoryId ∈ p.states.records.keys)
    (havoids : AppliesKnown clock p items) :
    ∃ p' report, p.commit clock memoryIds items = (p', .ok report) ∧ Steady p' := by
  obtain ⟨p', result, hall, hsteady⟩ := @Steady.applyAll p clock items h hitems havoids
  unfold ReferenceProtocol.commit
  rw [hall]
  exact ⟨p', _, rfl, hsteady⟩

theorem Steady.validate (h : Steady p) (clock : Option Int) (memoryIds : List String) :
    ∃ p' report, p.validate clock memoryIds = (p', report) ∧ Steady p' ∧
      report.bind errorOf = none := by
  obtain ⟨order, horder⟩ := validationOrder_ok h.orderly.sound.framed.graph.acyclic memoryIds
  unfold ReferenceProtocol.validate
  rw [horder]
  cases order with
  | nil => exact ⟨p, _, rfl, h, rfl⟩
  | cons memoryId order =>
    refine ⟨_, none, rfl, h.withValidations (fun pending hpending => ?_), rfl⟩
    rcases List.mem_append.mp hpending with hpending | hpending
    · exact h.prepared pending hpending
    · rw [List.mem_singleton.mp hpending]
      exact fun _ hitem => absurd hitem List.not_mem_nil

theorem Steady.prepare_ok (h : Steady p) {pending pending' : PendingValidation} (hpending : pending ∈ p.validations)
    {rest : List String} {answer : ValidationAnswer}
    (hprepare : p.prepare pending memoryId rest answer = .ok pending') :
    ∀ item ∈ pending'.prepared, isValidationResult item.result = true ∧
      item.memoryId ∈ p.states.records.keys := by
  unfold prepare at hprepare
  cases hstate : p.states.stateOf memoryId with
  | none =>
    rw [hstate] at hprepare
    cases hprepare
  | some state =>
    obtain ⟨r, hget, -⟩ := stateOf_eq_some.mp hstate
    rw [hstate] at hprepare
    cases hresult : resultOf memoryId answer with
    | error err =>
      rw [hresult] at hprepare
      cases hprepare
    | ok result =>
      rw [hresult] at hprepare
      dsimp only at hprepare
      split_ifs at hprepare with hinvalid
      cases hprepare
      intro item hitem
      rcases List.mem_append.mp hitem with hitem | hitem
      · exact h.prepared pending hpending item hitem
      · rw [List.mem_singleton.mp hitem]
        rw [not_or, Bool.not_eq_false] at hinvalid
        exact ⟨hinvalid.2, p.states.records.mem_keys_of_get? hget⟩

theorem valid_aggregate {now : String} (hmemory : memoryId ≠ "") {results : List ValidationResult}
    (hresults : ∀ result ∈ results, isValidationResult result = true) (hnow : isDateTime now = true) :
    (aggregateResults memoryId results now).memoryId = memoryId ∧
      isValidationResult (aggregateResults memoryId results now) = true := by
  unfold aggregateResults
  split
  case h_1 =>
    refine ⟨rfl, ?_⟩
    unfold isValidationResult
    simp [isNonEmptyString_iff.mpr hmemory, hnow, statusForResult]
  case h_2 selected hselected =>
    obtain ⟨kind, -, hfind⟩ := List.exists_of_findSome?_eq_some hselected
    have hvalid := hresults selected (List.mem_of_find?_eq_some hfind)
    refine ⟨rfl, ?_⟩
    unfold isValidationResult at hvalid ⊢
    simp only [Bool.and_eq_true] at hvalid
    simp only [isNonEmptyString_iff.mpr hmemory, hvalid.1.1.2, hvalid.2, decide_true, Bool.and_true]

theorem valid_resultOf (hmemory : memoryId ≠ "") {answer : ValidationAnswer} (h : WellFormedAnswer memoryId answer) :
    ∃ result, resultOf memoryId answer = .ok result ∧
      result.memoryId = memoryId ∧ isValidationResult result = true := by
  cases answer with
  | supplied result => exact ⟨result, rfl, h.1, h.2⟩
  | answered results now => exact ⟨_, rfl, valid_aggregate hmemory h.1 h.2⟩
  | failed => exact h.elim

theorem Steady.answer (h : Steady p) {i : Nat} {answer : ValidationAnswer}
    (havoids : p.Avoids clock (.answer i answer)) :
    ∃ p' report, p.answer clock i answer = (p', report) ∧ Steady p' ∧ (report.bind errorOf = none ∨ Unchanged p p' ∧
        ∃ pending memoryId rest err, p.validations[i]? = some pending ∧
          pending.order = memoryId :: rest ∧ p.prepare pending memoryId rest answer = .error err) := by
  have hclosed : Steady { p with validations := p.validations.eraseIdx i } :=
    h.withValidations (fun pending hpending => h.prepared pending (List.mem_of_mem_eraseIdx hpending))
  unfold ReferenceProtocol.answer
  cases hpending : p.validations[i]? with
  | none => exact ⟨p, none, rfl, h, Or.inl rfl⟩
  | some pending =>
    dsimp only
    cases horder : pending.order with
    | nil => exact ⟨p, none, rfl, h, Or.inl rfl⟩
    | cons memoryId rest =>
      dsimp only
      cases hprepare : p.prepare pending memoryId rest answer with
      | error err =>
        exact ⟨_, _, rfl, hclosed, Or.inr ⟨⟨rfl, rfl⟩, pending, memoryId, rest, err, rfl, horder, hprepare⟩⟩
      | ok pending' =>
        have hitems := h.prepare_ok (List.mem_of_getElem? hpending) hprepare
        dsimp only
        split_ifs with hrest
        · subst hrest
          obtain ⟨p', report, hcommit, hsteady⟩ := @Steady.commit _ clock _ hclosed pending'.memoryIds
            hitems (havoids pending memoryId pending' hpending horder hprepare)
          rw [hcommit]
          exact ⟨p', _, rfl, hsteady, Or.inl rfl⟩
        · refine ⟨_, none, rfl, h.withValidations (fun other hother => ?_), Or.inl rfl⟩
          rcases List.mem_or_eq_of_mem_set hother with hother | rfl
          · exact h.prepared other hother
          · exact hitems

/-- The call leaves a steady protocol, and what it was if it throws. -/
def Completes {α : Type} (p : ReferenceProtocol) (outcome : ReferenceProtocol × Except JsError α) : Prop :=
  Steady outcome.1 ∧ ∀ err, outcome.2 = .error err → Unchanged p outcome.1

theorem Steady.refused (h : Steady p) {α : Type} (result : Except JsError α) : Completes p (p, result) :=
  ⟨h, fun _ _ => ⟨rfl, rfl⟩⟩

theorem Steady.completes (h : Steady p) {kind : String} {body : EventBody} (horderly : states.Orderly)
    (hkept : ∀ id ∈ p.states.records.keys, id ∈ states.records.keys)
    (hvalid : validatePremiseEvent ⟨generatedId kind memoryId p.sequence, occurredAt, body⟩ = []) :
    Completes p (p.emitNext states kind memoryId occurredAt body) := by
  obtain ⟨heq, hsteady⟩ := h.emitNext horderly hkept hvalid
  rw [heq]
  exact ⟨hsteady, nofun⟩

theorem Steady.register (h : Steady p) (input : MemoryEnvelope) : Completes p (p.register input) := by
  unfold ReferenceProtocol.register
  cases hparse : parseMemoryEnvelope input with
  | error err => exact h.refused _
  | ok parsed =>
    obtain ⟨rfl, hvalid⟩ := parseMemoryEnvelope_ok hparse
    dsimp only
    split_ifs with hexisting
    · exact h.refused _
    have hsound := (@effect_register p.states (fun _ => False) h.orderly.sound parsed).sound
    rcases p.states.register_cases parsed with ⟨result, heq, hresult⟩ | ⟨hnew, hdepends, hformed, heq⟩
    · rw [heq]
      cases result with
      | error err => exact h.refused _
      | ok state =>
        obtain ⟨r, hget, henvelope⟩ := hresult state rfl
        rw [stateOf_eq_some.mpr ⟨r, hget, rfl⟩, Option.any_some, decide_eq_true_eq] at hexisting
        exact absurd henvelope hexisting
    · rw [heq] at hsound ⊢
      obtain ⟨horderly, hkept⟩ := h.orderly.added (Updated.refl _) hsound hformed hnew
      exact h.completes horderly hkept
        (valid_registered hvalid (generatedId_ne_empty "registered" parsed.memoryId p.sequence))

theorem Steady.derive (h : Steady p) (input : MemoryEnvelope) : Completes p (p.derive clock input) := by
  unfold ReferenceProtocol.derive
  have hsound := (@effect_derive p.states clock (fun _ => False) h.orderly.sound input).sound
  rcases derive_cases h.orderly.sound.framed clock input with
    ⟨err, heq⟩ | ⟨hnew, hformed, hdepends, -, graph, hlinked, heq⟩
  · rw [heq]
    exact h.refused _
  have hself : ∀ id, ¬ graph.Dep id id := fun id hid =>
    not_transGen_self hlinked.inv.acyclic id (TransGen.single hid)
  have hrecomputed := recomputed_derived p.states graph clock input hself
  obtain ⟨record, hget, henvelope, -⟩ := hrecomputed.updated.records input.memoryId _
    ((get?_added p.states graph input _).trans (if_pos rfl))
  rw [heq, returnState_ok hget] at hsound ⊢
  obtain ⟨horderly, hkept⟩ := h.orderly.added hrecomputed.updated hsound hformed hnew
  rw [henvelope]
  exact h.completes horderly hkept
    (valid_derived hformed hdepends (generatedId_ne_empty "derived" input.memoryId p.sequence))

theorem Steady.replace (h : Steady p) (input : MemoryEnvelope) : Completes p (p.replace clock input) := by
  have hframed := h.orderly.sound.framed
  unfold ReferenceProtocol.replace
  rcases replace_cases hframed clock input with
    ⟨err, heq⟩ | ⟨err, hknown, heq⟩ | ⟨hformed, hknown, current, graph, hcurrent, hlinked, heq⟩
  · rw [heq]
    exact h.refused _
  · rw [heq, hframed.graph.ensureNode_known ((hframed.nodes _).mpr hknown)]
    exact h.refused _
  obtain ⟨states, hsound, hreturn, hrecomputed⟩ := @replaceWith_spec p.states clock _ _ _
    h.orderly.sound hcurrent hlinked hknown
  obtain ⟨record, hget, henvelope, -⟩ := hrecomputed.updated.records input.memoryId _
    ((get?_replacing p.states graph current input _).trans (if_pos rfl))
  obtain ⟨horderly, hkept⟩ := h.orderly.replacing hrecomputed.updated hsound hcurrent
  rw [heq, hreturn, returnState_ok hget]
  rw [henvelope]
  exact h.completes horderly hkept
    (valid_replaced hformed (generatedId_ne_empty "replaced" input.memoryId p.sequence))

theorem steady_empty : Steady {} where
  orderly :=
    { sound := sound_empty
      named := fun _ hid => absurd hid List.not_mem_nil
      indexed := fun _ _ hid => absurd hid List.not_mem_nil }
  unused := fun _ hevent => absurd hevent List.not_mem_nil
  prepared := fun _ hpending => absurd hpending List.not_mem_nil

theorem Steady.perform (h : Steady p) {call : ProtocolCall} (havoids : p.Avoids clock call) :
    Steady (p.perform clock call) ∧
      ∀ err, p.thrown clock call = some err → Unchanged p (p.perform clock call) := by
  have hthrown : ∀ {α : Type} {result : Except JsError α} {err : JsError},
      errorOf result = some err → result = .error err := by
    intro α result err herr
    cases result with
    | error err' => rw [Option.some.inj herr]
    | ok a => cases herr
  cases call with
  | register input =>
    obtain ⟨hsteady, hrefused⟩ := h.register input
    exact ⟨hsteady, fun err herr => hrefused err (hthrown herr)⟩
  | derive input =>
    obtain ⟨hsteady, hrefused⟩ := @Steady.derive p clock h input
    exact ⟨hsteady, fun err herr => hrefused err (hthrown herr)⟩
  | replace input =>
    obtain ⟨hsteady, hrefused⟩ := @Steady.replace p clock h input
    exact ⟨hsteady, fun err herr => hrefused err (hthrown herr)⟩
  | signal event =>
    unfold ReferenceProtocol.perform thrown
    dsimp only
    rcases h.signal havoids with ⟨err, heq, -⟩ | ⟨p', report, heq, hsteady⟩
    · rw [heq]
      exact ⟨h, fun _ _ => ⟨rfl, rfl⟩⟩
    · rw [heq]
      exact ⟨hsteady, nofun⟩
  | validate memoryIds =>
    unfold ReferenceProtocol.perform thrown
    dsimp only
    obtain ⟨p', report, heq, hsteady, hnone⟩ := h.validate clock memoryIds
    rw [heq]
    refine ⟨hsteady, fun err herr => ?_⟩
    rw [hnone] at herr
    cases herr
  | answer i answer =>
    unfold ReferenceProtocol.perform thrown
    dsimp only
    obtain ⟨p', report, heq, hsteady, hcases⟩ := h.answer havoids
    rw [heq]
    refine ⟨hsteady, fun err herr => ?_⟩
    rcases hcases with hnone | ⟨hunchanged, -⟩
    · rw [hnone] at herr
      cases herr
    · exact hunchanged

theorem steady_of_reachable (h : (calls.restrict (fun p i _ => p.Avoids i.1 i.2)).Reachable p) : Steady p := by
  refine h.invariant Steady ?_ ?_
  · rintro p rfl
    exact steady_empty
  · rintro p i p' hsteady ⟨rfl, havoids⟩
    exact (hsteady.perform havoids).1

theorem Steady.answer_total (h : Steady p) {i : Nat} {pending : PendingValidation} {rest : List String}
    {answer : ValidationAnswer} (hpending : p.validations[i]? = some pending)
    (horder : pending.order = memoryId :: rest) (hknown : p.states.records.has memoryId = true)
    (hformed : WellFormedAnswer memoryId answer) (havoids : p.Avoids clock (.answer i answer)) :
    p.thrown clock (.answer i answer) = none := by
  unfold thrown
  dsimp only
  obtain ⟨p', report, heq, -, hcases⟩ := h.answer havoids
  rw [heq]
  rcases hcases with hnone | ⟨-, pending', memoryId', rest', err, hpending', horder', hprepare⟩
  · exact hnone
  obtain rfl := Option.some.inj (hpending.symm.trans hpending')
  obtain ⟨rfl, rfl⟩ := List.cons.inj (horder.symm.trans horder')
  have hmem := p.states.records.has_eq_true.mp hknown
  obtain ⟨r, hget⟩ := p.states.records.mem_keys.mp hmem
  obtain ⟨result, hresult, hmemory, hvalid⟩ := valid_resultOf (h.orderly.named memoryId hmem) hformed
  unfold prepare at hprepare
  rw [stateOf_eq_some.mpr ⟨r, hget, rfl⟩, hresult] at hprepare
  dsimp only at hprepare
  rw [if_neg (by rw [hvalid]; rintro (hne | hne); exacts [hne hmemory, Bool.noConfusion hne])] at hprepare
  cases hprepare

end ReferenceProtocol

open ReferenceProtocol

/-- A run in which `b` depends on an `UNKNOWN` memory, and waits for its validation. -/
def waitForUnknown : ReferenceProtocol :=
  let source : MemoryEnvelope :=
    { memoryId := "a"
      provenance := some [{ sourceUri := "file:a", observedAt := "2026-01-01T00:00:00Z" }]
      validity :=
        { policy := .immutable
          status := .unknown
          checkedAt := "2026-01-01T00:00:00Z" }
      dependsOn := [] }
  let conclusion : MemoryEnvelope :=
    { memoryId := "b"
      validity :=
        { policy := .immutable
          status := .stale
          checkedAt := "2026-01-01T00:00:00Z" }
      dependsOn := ["a"] }
  ((({} : ReferenceProtocol).perform none (.register source)).perform none (.derive conclusion)).perform
    none (.validate ["b"])

/-- The result that `b` is unchanged. -/
def unchangedResult : ValidationResult where
  memoryId := "b"
  result := .unchanged
  checkedAt := "2026-01-02T00:00:00Z"
  status := .fresh
  version := some ⟨"etag", "1"⟩

end Premise.Reference
